/-
What is found after a file was written.

A path is followed through directories, and a file takes the place of no directory. So writing one
does not change where any path leads that could be followed before, and what was written is read
back under the path that it was written to. A path that cannot be written to leaves the tree alone.
The fault that does not lie in the path is a want of room: it comes when the file is open already,
and leaves the beginning of the content there.

Whether a path can be written to does not depend on the content, nor on the files that were written
before, and a file that is replaced gives back the room that it took. So two files that were written
one after the other can be written again, and then the tree is what it was.
-/
import BlockDiagram.Files.Tree

set_option autoImplicit false

namespace BlockDiagram

namespace Files

variable {files files' : Files} {path : String} {content : ByteArray} {location other : Location}
  {node : Node} {fault : FileFault}

/-! ## Following a path -/

theorem follow_of_isName {component : String} (h : isName component = true)
    (location : Location) : follow location component = location ++ [component] := by
  simp only [isName, Bool.and_eq_true, decide_eq_true_eq] at h
  rw [follow, if_neg h.1, if_neg h.2]

theorem followName_eq_ok_iff {directory : Location} {component : String}
    (h : isName component = true) : followName directory component = .ok location ↔
      Path.fitsName component = true ∧ location = directory ++ [component] := by
  rw [followName, follow_of_isName h]
  by_cases hfits : Path.fitsName component = true <;> simp [hfits, eq_comm]

theorem approach_eq_ok {place : Location × Option String} :
    files.approach path = .ok place ↔ checkPath path = .ok () ∧
      files.descend (files.origin path) (Path.components path).dropLast = .ok place.1 ∧
        (Path.components path).getLast? = place.2 := by
  obtain ⟨directory, last?⟩ := place
  simp only [approach, bind, Except.bind, pure, Except.pure]
  cases checkPath path with
  | error fault => simp
  | ok _ => cases files.descend (files.origin path) (Path.components path).dropLast <;> simp

/-! ## Trees with the same directories -/

/-- Whether the directories of a tree are there in another as well, and relative paths start from
the same one. -/
structure KeepsDirectories (files files' : Files) : Prop where
  here : files'.here = files.here
  kept : ∀ location, files.node? location = some .directory →
    files'.node? location = some .directory

theorem KeepsDirectories.descend (h : KeepsDirectories files files') {start directory : Location}
    {components : List String} (hdescend : files.descend start components = .ok directory) :
    files'.descend start components = .ok directory := by
  induction components generalizing start with
  | nil => exact hdescend
  | cons component rest ih =>
    rw [Files.descend] at hdescend ⊢
    cases hnext : followName start component with
    | error fault =>
      rw [hnext] at hdescend
      cases hdescend
    | ok next =>
      rw [hnext] at hdescend
      dsimp only at hdescend ⊢
      split at hdescend
      · cases hdescend
      · cases hdescend
      · rename_i hdirectory
        rw [h.kept next hdirectory]
        exact ih hdescend

theorem KeepsDirectories.approach (h : KeepsDirectories files files')
    {place : Location × Option String} (happroach : files.approach path = .ok place) :
    files'.approach path = .ok place := by
  rw [approach_eq_ok] at happroach ⊢
  rw [origin, h.here]
  exact ⟨happroach.1, h.descend happroach.2.1, happroach.2.2⟩

theorem KeepsDirectories.locate (h : KeepsDirectories files files')
    (hlocate : files.locate path = .ok location) : files'.locate path = .ok location := by
  unfold Files.locate at hlocate ⊢
  cases happroach : files.approach path with
  | error fault =>
    rw [happroach] at hlocate
    cases hlocate
  | ok place =>
    rw [happroach] at hlocate
    rw [h.approach happroach]
    exact hlocate

theorem keepsDirectories_put (hlocation : files.node? location ≠ some .directory) (node : Node) :
    KeepsDirectories files (files.put location node) where
  here := rfl
  kept other hother := by
    have hne : other ≠ location := by
      rintro rfl
      exact hlocation hother
    rw [node?_put_of_ne files hne, hother]

/-! ## Replacing files -/

theorem node?_replace_self (files : Files) (h : location ≠ []) (content : ByteArray) :
    (files.replace location content).node? location = some (.file content) :=
  node?_put_self files h _

theorem node?_replace_of_ne (files : Files) (apart : other ≠ location) (content : ByteArray) :
    (files.replace location content).node? other = files.node? other :=
  node?_put_of_ne files apart _

theorem keepsDirectories_replace (hlocation : files.node? location ≠ some .directory)
    (content : ByteArray) : KeepsDirectories files (files.replace location content) where
  here := rfl
  kept := (keepsDirectories_put hlocation (.file content)).kept

/-- A file in the place of another, or of nothing, adds no directory either. -/
theorem node?_replace_eq_directory (hlocation : files.node? location ≠ some .directory)
    (content : ByteArray) (other : Location) :
    (files.replace location content).node? other = some .directory ↔
      files.node? other = some .directory := by
  refine ⟨fun h => ?_, (keepsDirectories_replace hlocation content).kept other⟩
  by_cases hsame : other = location
  · subst hsame
    have hroot : other ≠ [] := by
      rintro rfl
      exact hlocation rfl
    rw [node?_replace_self files hroot] at h
    cases h
  · rwa [node?_replace_of_ne files hsame] at h

theorem held_replace_self (files : Files) (h : location ≠ []) (content : ByteArray) :
    (files.replace location content).held location = content.size := by
  rw [held, node?_replace_self files h]

theorem held_replace_of_ne (files : Files) (apart : other ≠ location) (content : ByteArray) :
    (files.replace location content).held other = files.held other := by
  rw [held, held, node?_replace_of_ne files apart]

/-- Whether there is room at a location for all of a content. -/
def Fits (files : Files) (location : Location) (content : ByteArray) : Prop :=
  ∀ room ∈ files.roomAt location, content.size ≤ room

/-- A file gives back the room that it took. -/
theorem roomAt_replace_self (hlocation : location ≠ []) (hfits : files.Fits location content) :
    (files.replace location content).roomAt location = files.roomAt location := by
  rw [roomAt, held_replace_self files hlocation, replace]
  cases hroom : files.roomAt location with
  | none => rfl
  | some room =>
    have hle := hfits room hroom
    simp only [Option.map_some, Option.some.injEq]
    omega

/-- Two files put one after the other can be put again. -/
theorem put_again (files : Files) (location other : Location) (node node' : Node) :
    (((files.put location node).put other node').put location node).put other node' =
      (files.put location node).put other node' := by
  by_cases hsame : other = location
  · subst hsame
    simp [put, List.filter_filter]
  · have hsame' : location ≠ other := Ne.symm hsame
    simp [put, List.filter_filter, hsame, hsame', Bool.and_comm, Bool.and_left_comm]

/-- A file of the same length is there already, so the room stays what it is. -/
theorem room_replace_of_held (h : files.held location = content.size) :
    (files.replace location content).room = files.room := by
  simp [replace, roomAt, h, Function.comp_def]

theorem fits_of_held (h : files.held location = content.size) : files.Fits location content := by
  intro room hroom
  obtain ⟨left, -, rfl⟩ := Option.map_eq_some_iff.1 hroom
  omega

/-- Two files that have replaced others, one after the other, fit again in their places, and
replacing them by themselves leaves the tree as it is. -/
theorem replace_again {content' : ByteArray} {made : Files} (hlocation : location ≠ [])
    (hother : other ≠ []) (hfits : files.Fits location content)
    (hfits' : (files.replace location content).Fits other content')
    (hmade : made = (files.replace location content).replace other content') :
    made.Fits location content ∧ (made.replace location content).Fits other content' ∧
      (made.replace location content).replace other content' = made := by
  have hroom' : made.roomAt other = (files.replace location content).roomAt other :=
    hmade ▸ roomAt_replace_self hother hfits'
  -- it is enough that the second file finds the room that it has found before
  suffices h : made.Fits location content ∧ (made.replace location content).roomAt other =
      (files.replace location content).roomAt other by
    refine ⟨h.1, fun room hroom => hfits' room (h.2 ▸ hroom), ?_⟩
    ext1
    · subst hmade
      have hput := put_again files location other (.file content) (.file content')
      have hnodes := congrArg Files.nodes hput
      exact hnodes
    · subst hmade
      rfl
    · rw [replace, h.2, hmade]
      rfl
  by_cases hsame : other = location
  · subst hsame
    -- each of the two finds the room that was there for the first
    have hroom := hroom'.trans (roomAt_replace_self hother hfits)
    have hagain : made.Fits other content := fun room hmem => hfits room (hroom ▸ hmem)
    exact ⟨hagain, (roomAt_replace_self hother hagain).trans hroom'⟩
  · have hheld : made.held location = content.size := by
      rw [hmade, held_replace_of_ne _ (Ne.symm hsame), held_replace_self files hlocation]
    refine ⟨fits_of_held hheld, ?_⟩
    rw [← hroom', roomAt, roomAt, room_replace_of_held hheld, held_replace_of_ne made hsame]

/-! ## Faults of paths -/

theorem ne_noRoom_of_followName {component : String}
    (h : followName location component = .error fault) : fault ≠ .noRoom := by
  unfold followName at h
  split at h <;> cases h
  simp

theorem ne_noRoom_of_descend {components : List String}
    (h : files.descend location components = .error fault) : fault ≠ .noRoom := by
  induction components generalizing location with
  | nil => cases h
  | cons component rest ih =>
    unfold descend at h
    split at h
    · rename_i hfollow
      cases h
      exact ne_noRoom_of_followName hfollow
    · split at h
      · cases h
        simp
      · cases h
        simp
      · exact ih h

theorem ne_noRoom_of_checkPath (h : checkPath path = .error fault) : fault ≠ .noRoom := by
  unfold checkPath at h
  split at h
  · cases h
    simp
  · split at h
    · cases h
      simp
    · split at h <;> cases h
      simp

theorem ne_noRoom_of_approach (h : files.approach path = .error fault) : fault ≠ .noRoom := by
  unfold approach at h
  cases hcheck : checkPath path with
  | error fault' =>
    rw [hcheck] at h
    cases h
    exact ne_noRoom_of_checkPath hcheck
  | ok _ =>
    cases hdescend : files.descend (files.origin path) (Path.components path).dropLast with
    | error fault' =>
      simp only [hcheck, hdescend, bind, Except.bind] at h
      cases h
      exact ne_noRoom_of_descend hdescend
    | ok directory =>
      simp only [hcheck, hdescend, bind, Except.bind] at h
      cases h

/-! ## Writing -/

/-- Where a file comes to lie that is written to a path: in a directory that exists, under a name,
and not in the place of a directory. -/
def WritesTo (files : Files) (path : String) (location : Location) : Prop :=
  ∃ directory last, files.approach path = .ok (directory, some last) ∧ isName last = true ∧
    Path.endsWithSlash path = false ∧ followName directory last = .ok location ∧
      files.node? location ≠ some .directory

theorem WritesTo.locate (h : files.WritesTo path location) : files.locate path = .ok location := by
  obtain ⟨directory, last, happroach, -, -, hfollow, -⟩ := h
  simp [Files.locate, happroach, hfollow, bind, Except.bind]

theorem WritesTo.not_directory (h : files.WritesTo path location) :
    files.node? location ≠ some .directory := by
  obtain ⟨-, -, -, -, -, -, hnode⟩ := h
  exact hnode

theorem WritesTo.ne_root (h : files.WritesTo path location) : location ≠ [] := by
  rintro rfl
  exact h.not_directory rfl

theorem WritesTo.target (h : files.WritesTo path location) : files.target path = .ok location := by
  obtain ⟨directory, last, happroach, hname, hslash, hfollow, hnode⟩ := h
  simp [Files.target, happroach, hname, hslash, hfollow, hnode, bind, Except.bind, pure,
    Except.pure]

/-- Other files are no obstacle to a file, and neither is the file itself. -/
theorem WritesTo.replace (h : files.WritesTo path location)
    (hother : files.node? other ≠ some .directory) (content : ByteArray) :
    (files.replace other content).WritesTo path location := by
  obtain ⟨directory, last, happroach, hname, hslash, hfollow, hnode⟩ := h
  refine ⟨directory, last, (keepsDirectories_replace hother content).approach happroach, hname,
    hslash, hfollow, ?_⟩
  rwa [Ne, node?_replace_eq_directory hother]

/-- A file comes to lie in one place, unless something is wrong with its path. -/
theorem target_cases (files : Files) (path : String) :
    (∃ fault, files.target path = .error fault ∧ fault ≠ .noRoom) ∨
      ∃ location, files.target path = .ok location ∧ files.WritesTo path location := by
  unfold target
  cases happroach : files.approach path with
  | error fault => exact .inl ⟨fault, rfl, ne_noRoom_of_approach happroach⟩
  | ok place =>
    obtain ⟨directory, _ | last⟩ := place
    · exact .inl ⟨_, rfl, by simp⟩
    · simp only [bind, Except.bind, pure, Except.pure, throw, throwThe, MonadExceptOf.throw]
      -- the refusals, in the order in which they are looked for
      split
      · exact .inl ⟨_, rfl, by simp⟩
      rename_i hname
      rw [Bool.or_eq_true, not_or, Bool.not_eq_true', Bool.not_eq_false, Bool.not_eq_true] at hname
      cases hfollow : followName directory last with
      | error fault => exact .inl ⟨fault, rfl, ne_noRoom_of_followName hfollow⟩
      | ok location =>
        dsimp only
        split
        · exact .inl ⟨_, rfl, by simp⟩
        rename_i hnode
        exact .inr ⟨location, rfl, directory, last, happroach, hname.1, hname.2, hfollow, hnode⟩

/-- What may come of writing a file. Either the path is at fault and nothing happens, or one file is
replaced: by the content, or by as much of it as there was room for. -/
inductive Writes (files : Files) (path : String) (content : ByteArray) :
    Except FileFault Unit → Files → Prop
  | refused {fault : FileFault} (h : fault ≠ .noRoom) :
    Writes files path content (.error fault) files
  | written {location : Location} (hplace : files.WritesTo path location)
    (hfits : files.Fits location content) :
    Writes files path content (.ok ()) (files.replace location content)
  | cutOff {location : Location} {room : Nat} (hplace : files.WritesTo path location)
    (hroom : room < content.size) :
    Writes files path content (.error .noRoom) (files.replace location (content.extract 0 room))

theorem fill_of_fits (h : files.Fits location content) :
    files.fill location content = (.ok (), files.replace location content) := by
  unfold fill
  split
  · rfl
  · rename_i room hroom
    rw [if_pos (h room hroom)]

theorem WritesTo.write (h : files.WritesTo path location) (hfits : files.Fits location content) :
    files.write path content = (.ok (), files.replace location content) := by
  rw [Files.write, h.target]
  exact fill_of_fits hfits

theorem writes_write (files : Files) (path : String) (content : ByteArray) :
    Writes files path content (files.write path content).1 (files.write path content).2 := by
  obtain ⟨fault, htarget, hfault⟩ | ⟨location, htarget, hplace⟩ := files.target_cases path
  · rw [write, htarget]
    exact .refused hfault
  · by_cases hfits : files.Fits location content
    · rw [hplace.write hfits]
      exact .written hplace hfits
    · obtain ⟨room, hroom, hlt⟩ : ∃ room, files.roomAt location = some room ∧
          room < content.size := by
        simpa [Fits] using hfits
      rw [write, htarget]
      dsimp only
      rw [fill, hroom]
      dsimp only
      rw [if_neg (Nat.not_le.2 hlt)]
      exact .cutOff hplace hlt

/-- A file that is written replaces what is in one place, where there is room for it. -/
theorem of_write (h : files.write path content = (.ok (), files')) :
    ∃ location, files.WritesTo path location ∧ files.Fits location content ∧
      files' = files.replace location content := by
  have hwrites := writes_write files path content
  rw [h] at hwrites
  cases hwrites with
  | written hplace hfits => exact ⟨_, hplace, hfits, rfl⟩

theorem keepsDirectories_of_write (h : files.write path content = (.ok (), files')) :
    KeepsDirectories files files' := by
  obtain ⟨location, hplace, -, rfl⟩ := of_write h
  exact keepsDirectories_replace hplace.not_directory content

/-- What was written is read back. -/
theorem read_of_write (h : files.write path content = (.ok (), files')) :
    files'.read path = .ok content := by
  obtain ⟨location, hplace, -, rfl⟩ := of_write h
  have hlocate := (hplace.replace hplace.not_directory content).locate
  have hfound := node?_replace_self files hplace.ne_root content
  obtain ⟨-, -, -, -, hslash, -, -⟩ := hplace
  simp [read, hlocate, hfound, hslash, bind, Except.bind, pure, Except.pure]

/-- Two files that were written one after the other can be written again, and the tree is what it
was. It does not matter whether their paths lead to one location. -/
theorem write_again {path' : String} {content' : ByteArray} {files'' : Files}
    (h : files.write path content = (.ok (), files'))
    (h' : files'.write path' content' = (.ok (), files'')) :
    ∃ rewritten, files''.write path content = (.ok (), rewritten) ∧
      rewritten.write path' content' = (.ok (), files'') := by
  obtain ⟨location, hplace, hfits, rfl⟩ := of_write h
  obtain ⟨other, hother, hfits', rfl⟩ := of_write h'
  obtain ⟨hagain, hagain', hsame⟩ :=
    replace_again hplace.ne_root hother.ne_root hfits hfits' rfl
  -- neither file stands in the way of the other, or of itself
  have hplace' := (hplace.replace hplace.not_directory content).replace hother.not_directory
    content'
  have hother' := (hother.replace hother.not_directory content').replace hplace'.not_directory
    content
  refine ⟨_, hplace'.write hagain, ?_⟩
  rw [hother'.write hagain', hsame]

end Files

end BlockDiagram
