/-
What making directories does to a tree.

A path's missing directories are made from the outside in, and this can stop midway: a name may be
too long, or a plain file may stand in the way. Whatever comes of it, the tree has only grown. What
was there is still there, and all that was added are directories at places that the path comes to on
its way. The induction behind this goes from a path to its parent, whose way is the first part of
the same way. Where the path leads to a directory already, nothing is done at all, so directories
that were made once are not made again.
-/
import BlockDiagram.Proofs.Files.Parent
import BlockDiagram.Proofs.Files.Writing

set_option autoImplicit false

namespace BlockDiagram

namespace Files

variable {files files' files'' : Files} {path : String} {location : Location} {node : Node}
  {allowed allowed' : Location → Prop}

/-! ## Trees that grow -/

/-- A tree that has all that was there before, and where nothing was before either nothing or a
directory, which lies where directories may be added. -/
structure Grown (allowed : Location → Prop) (files files' : Files) : Prop where
  here : files'.here = files.here
  kept : ∀ location node, files.node? location = some node → files'.node? location = some node
  added : ∀ location, files.node? location = none →
    files'.node? location = none ∨ allowed location ∧ files'.node? location = some .directory

theorem Grown.refl (allowed : Location → Prop) (files : Files) : Grown allowed files files where
  here := rfl
  kept _ _ h := h
  added _ h := .inl h

theorem Grown.trans (h : Grown allowed files files') (h' : Grown allowed files' files'') :
    Grown allowed files files'' where
  here := h'.here.trans h.here
  kept location node hnode := h'.kept location node (h.kept location node hnode)
  added location hnone := by
    rcases h.added location hnone with hnone' | ⟨hallowed, hdirectory⟩
    · exact h'.added location hnone'
    · exact .inr ⟨hallowed, h'.kept location _ hdirectory⟩

theorem Grown.mono (h : Grown allowed files files')
    (hle : ∀ location, allowed location → allowed' location) : Grown allowed' files files' where
  here := h.here
  kept := h.kept
  added location hnone := (h.added location hnone).imp_right (And.imp_left (hle location))

/-- A directory put where nothing was makes a tree grow. -/
theorem grown_put (hnone : files.node? location = none) (hallowed : allowed location) :
    Grown allowed files (files.put location .directory) where
  here := rfl
  kept other node hnode := by
    have hne : other ≠ location := by
      rintro rfl
      rw [hnone] at hnode
      cases hnode
    rw [node?_put_of_ne files hne, hnode]
  added other hother := by
    by_cases hsame : other = location
    · subst hsame
      have hroot : other ≠ [] := by
        rintro rfl
        cases hnone
      exact .inr ⟨hallowed, node?_put_self files hroot .directory⟩
    · rw [node?_put_of_ne files hsame, hother]
      exact .inl rfl

/-! ## The way of a path -/

/-- Whether a path comes to a location on its way, or at its end. -/
def Passes (files : Files) (path : String) (location : Location) : Prop :=
  ∃ components, components <+: Path.components path ∧
    components.foldl follow (files.origin path) = location

/-- Where components lead does not depend on what is found there. -/
theorem eq_foldl_of_descend {start directory : Location} {components : List String}
    (h : files.descend start components = .ok directory) :
    directory = components.foldl follow start := by
  induction components generalizing start with
  | nil => exact (Except.ok.inj h).symm
  | cons component rest ih =>
    rw [descend, followName] at h
    split at h
    · cases h
    · rename_i next hnext
      split at hnext
      · cases hnext
        split at h
        · cases h
        · cases h
        · exact ih h
      · cases hnext

/-- A path comes to the location of its last component, if this is a name. -/
theorem passes_of_approach {directory : Location} {last : String}
    (h : files.approach path = .ok (directory, some last)) (hname : isName last = true) :
    files.Passes path (directory ++ [last]) := by
  obtain ⟨-, hdescend, hlast⟩ := approach_eq_ok.1 h
  refine ⟨Path.components path, List.prefix_rfl, ?_⟩
  rw [← List.dropLast_append_getLast? last hlast, List.foldl_append, ← eq_foldl_of_descend hdescend]
  exact follow_of_isName hname directory

theorem Passes.of_here (hhere : files'.here = files.here) (h : files'.Passes path location) :
    files.Passes path location := by
  rwa [Passes, origin, ← hhere]

/-- The way of a parent is the first part of the way of its path. -/
theorem Passes.of_parent? {parent : String} (hparent : Path.parent? path = some parent)
    (h : files.Passes parent location) : files.Passes path location := by
  obtain ⟨hfront, hcomponents⟩ := Path.components_of_parent? hparent
  obtain ⟨components, hle, hlocation⟩ := h
  refine ⟨components, hle.trans hcomponents, ?_⟩
  rw [← hlocation, origin, origin, hfront]

/-! ## Making directories -/

/-- A directory is made in one that exists, under a name, and where nothing is, unless something is
wrong with its path. -/
theorem makeDirectory_cases (files : Files) (path : String) :
    (∃ fault, files.makeDirectory path = .error fault ∧ fault ≠ .noRoom) ∨
      ∃ directory last,
        files.makeDirectory path = .ok (files.put (directory ++ [last]) .directory) ∧
          files.approach path = .ok (directory, some last) ∧ isName last = true ∧
            Path.fitsName last = true ∧ files.node? (directory ++ [last]) = none := by
  unfold makeDirectory
  cases happroach : files.approach path with
  | error fault => exact .inl ⟨fault, rfl, ne_noRoom_of_approach happroach⟩
  | ok place =>
    obtain ⟨directory, _ | last⟩ := place
    · exact .inl ⟨_, rfl, by simp⟩
    · simp only [bind, Except.bind, pure, Except.pure, throw, throwThe, MonadExceptOf.throw]
      split
      · exact .inl ⟨_, rfl, by simp⟩
      rename_i hname
      rw [Bool.not_eq_true', Bool.not_eq_false] at hname
      cases hfollow : followName directory last with
      | error fault => exact .inl ⟨fault, rfl, ne_noRoom_of_followName hfollow⟩
      | ok location =>
        obtain ⟨hfits, rfl⟩ := (followName_eq_ok_iff hname).1 hfollow
        dsimp only
        split
        · exact .inl ⟨_, rfl, by simp⟩
        rename_i hnode
        exact .inr ⟨directory, last, rfl, rfl, hname, hfits, by simpa using hnode⟩

theorem of_makeDirectory (h : files.makeDirectory path = .ok files') :
    ∃ directory last, files.approach path = .ok (directory, some last) ∧ isName last = true ∧
      Path.fitsName last = true ∧ files.node? (directory ++ [last]) = none ∧
      files' = files.put (directory ++ [last]) .directory := by
  obtain ⟨fault, hmake, -⟩ | ⟨directory, last, hmake, happroach, hname, hfits, hnone⟩ :=
    files.makeDirectory_cases path
  · cases hmake.symm.trans h
  · cases hmake.symm.trans h
    exact ⟨directory, last, happroach, hname, hfits, hnone, rfl⟩

theorem ne_noRoom_of_makeDirectory {fault : FileFault}
    (h : files.makeDirectory path = .error fault) : fault ≠ .noRoom := by
  obtain ⟨fault', hmake, hfault⟩ | ⟨directory, last, hmake, -⟩ := files.makeDirectory_cases path
  · cases hmake.symm.trans h
    exact hfault
  · cases hmake.symm.trans h

theorem ne_noRoom_of_ensureDirectory {fault : FileFault}
    (h : files.ensureDirectory path = .error fault) : fault ≠ .noRoom := by
  unfold ensureDirectory at h
  split at h
  · cases h
  · rename_i hmake
    split at h <;> cases h
    exact ne_noRoom_of_makeDirectory hmake

theorem grown_makeDirectory (h : files.makeDirectory path = .ok files') :
    Grown (files.Passes path) files files' := by
  obtain ⟨directory, last, happroach, hname, -, hnone, rfl⟩ := of_makeDirectory h
  exact grown_put hnone (passes_of_approach happroach hname)

theorem grown_ensureDirectory (h : files.ensureDirectory path = .ok files') :
    Grown (files.Passes path) files files' := by
  unfold ensureDirectory at h
  split at h
  · rename_i made hmake
    cases h
    exact grown_makeDirectory hmake
  · split at h
    · cases h
      exact .refl _ _
    · cases h

/-- What may come of making a directory and those that it lies in. The tree that is left is the one
that the last directory was made in; where that fails, it is what the parent was made in, or what
was left when the parent could not be made either. Directories never want for room. -/
inductive Makes : Files → String → Except FileFault Unit → Files → Prop
  | nothing (files : Files) : Makes files "" (.ok ()) files
  | failed {files : Files} {path : String} {fault : FileFault} (hfault : fault ≠ .noRoom) :
    Makes files path (.error fault) files
  | failedBelow {files files' : Files} {path parent : String} {outcome : Except FileFault Unit}
    {fault : FileFault} (hparent : Path.parent? path = some parent)
    (h : Makes files parent outcome files') (hfault : fault ≠ .noRoom) :
    Makes files path (.error fault) files'
  | made {files files' : Files} {path : String} (h : files.ensureDirectory path = .ok files') :
    Makes files path (.ok ()) files'
  | madeBelow {files before files' : Files} {path parent : String}
    (hparent : Path.parent? path = some parent) (h : Makes files parent (.ok ()) before)
    (hlast : before.ensureDirectory path = .ok files') : Makes files path (.ok ()) files'

theorem Makes.ne_noRoom {fault : FileFault} (h : Makes files path (.error fault) files') :
    fault ≠ .noRoom := by
  cases h with
  | failed hfault => exact hfault
  | failedBelow _ _ hfault => exact hfault

theorem makes_ensurePath (bound : Nat) (files : Files) (path : String) :
    Makes files path (ensurePath bound files path).1 (ensurePath bound files path).2 := by
  -- the tree that a parent leaves is what the path itself goes on with, so the cases nest
  induction bound generalizing path with
  | zero => exact .failed (by simp)
  | succ bound ih =>
    rw [ensurePath]
    split
    · rename_i hempty
      rw [show path = "" by simpa using hempty]
      exact .nothing files
    dsimp only
    split
    · split
      · exact .failed (by simp)
      rename_i parent hparent
      have hbelow := ih parent
      rcases hmade : ensurePath bound files parent with ⟨fault | _, before⟩ <;> rw [hmade] at hbelow
      · exact .failedBelow hparent hbelow hbelow.ne_noRoom
      · dsimp only
        cases hlast : before.ensureDirectory path with
        | error fault => exact .failedBelow hparent hbelow (ne_noRoom_of_ensureDirectory hlast)
        | ok files' => exact .madeBelow hparent hbelow hlast
    · -- unless another directory is missing, all is decided by the path itself
      cases hlast : files.ensureDirectory path with
      | error fault => exact .failed (ne_noRoom_of_ensureDirectory hlast)
      | ok files' => exact .made hlast

/-- Whatever comes of it, the tree has grown along the way of the path, if at all. -/
theorem Makes.grown {outcome : Except FileFault Unit} (h : Makes files path outcome files') :
    Grown (files.Passes path) files files' := by
  induction h with
  | nothing => exact .refl _ _
  | failed => exact .refl _ _
  | failedBelow hparent _ _ ih => exact ih.mono fun _ hpasses => hpasses.of_parent? hparent
  | made hlast => exact grown_ensureDirectory hlast
  | madeBelow hparent _ hlast ih =>
    have hbelow := ih.mono fun _ hpasses => hpasses.of_parent? hparent
    exact hbelow.trans ((grown_ensureDirectory hlast).mono fun _ hpasses =>
      hpasses.of_here hbelow.here)

theorem makes_makeDirectories (files : Files) (path : String) :
    Makes files path (files.makeDirectories path).1 (files.makeDirectories path).2 :=
  makes_ensurePath _ files path

theorem grown_makeDirectories (files : Files) (path : String) :
    Grown (files.Passes path) files (files.makeDirectories path).2 :=
  (makes_makeDirectories files path).grown

/-! ## Directories that exist -/

theorem isDirectory_iff :
    files.isDirectory path = true ↔
      ∃ location, files.locate path = .ok location ∧ files.node? location = some .directory := by
  unfold isDirectory
  cases files.locate path <;> simp

/-- Where a path leads to a directory, none is made. -/
theorem makeDirectory_of_isDirectory (h : files.isDirectory path = true) :
    files.makeDirectory path = .error .alreadyExists := by
  obtain ⟨location, hlocate, hnode⟩ := isDirectory_iff.1 h
  unfold locate at hlocate
  unfold makeDirectory
  cases happroach : files.approach path with
  | error fault =>
    rw [happroach] at hlocate
    cases hlocate
  | ok place =>
    obtain ⟨directory, _ | last⟩ := place
    · rfl
    · simp only [happroach, bind, Except.bind] at hlocate ⊢
      -- a dot or two are no name to make a directory under, and a name is taken
      split
      · rfl
      · simp [hlocate, hnode, throw, throwThe, MonadExceptOf.throw]

/-- Directories that exist already are made without a change. -/
theorem makeDirectories_of_isDirectory (h : files.isDirectory path = true) :
    files.makeDirectories path = (.ok (), files) := by
  have hmake := makeDirectory_of_isDirectory h
  have hensure : files.ensureDirectory path = .ok files := by simp [ensureDirectory, hmake, h]
  simp [makeDirectories, ensurePath, hmake, hensure]

theorem locate_of_approach {directory : Location} {last : String}
    (h : files.approach path = .ok (directory, some last)) (hname : isName last = true)
    (hfits : Path.fitsName last = true) : files.locate path = .ok (directory ++ [last]) := by
  have hfollow : followName directory last = .ok (directory ++ [last]) :=
    (followName_eq_ok_iff hname).2 ⟨hfits, rfl⟩
  simp [locate, h, hfollow, bind, Except.bind]

theorem KeepsDirectories.isDirectory (h : KeepsDirectories files files')
    (hdirectory : files.isDirectory path = true) : files'.isDirectory path = true := by
  obtain ⟨location, hlocate, hnode⟩ := isDirectory_iff.1 hdirectory
  exact isDirectory_iff.2 ⟨location, h.locate hlocate, h.kept location hnode⟩

theorem isDirectory_of_ensureDirectory (h : files.ensureDirectory path = .ok files') :
    files'.isDirectory path = true := by
  unfold ensureDirectory at h
  split at h
  · rename_i made hmake
    cases h
    obtain ⟨directory, last, happroach, hname, hfits, hnone, rfl⟩ := of_makeDirectory hmake
    have hfree : files.node? (directory ++ [last]) ≠ some .directory := by simp [hnone]
    refine isDirectory_iff.2 ⟨directory ++ [last], ?_, node?_put_self files (by simp) _⟩
    exact (keepsDirectories_put hfree _).locate (locate_of_approach happroach hname hfits)
  · split at h
    · rename_i hdirectory
      cases h
      exact hdirectory
    · cases h

/-- After directories were made, the path leads to one. -/
theorem isDirectory_of_makeDirectories (hempty : path ≠ "")
    (h : files.makeDirectories path = (.ok (), files')) : files'.isDirectory path = true := by
  have hmakes := makes_makeDirectories files path
  rw [h] at hmakes
  cases hmakes with
  | nothing => exact absurd rfl hempty
  | made hlast => exact isDirectory_of_ensureDirectory hlast
  | madeBelow hparent hbelow hlast => exact isDirectory_of_ensureDirectory hlast

end Files

end BlockDiagram
