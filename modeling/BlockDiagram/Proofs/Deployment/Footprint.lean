/-
What a deployment does to a file tree.

Leaving aside the tools, a deployment touches a tree in two ways only. It makes directories that are
missing on the way of the one that the source is to lie in, and it puts the program where the path
of the source leads. All that was there before is still there, except that a file at that place is
replaced; this holds however the deployment ends. Where there is no program, nothing is done. Where
the directories cannot be made, or no file can be written to the path of the source, no file has
changed, and of the directories those remain that could be made. A program that there is no room
for is the one case in which a failure changes a file: the source from before is gone, and the
beginning of the program is in its place.
-/
import BlockDiagram.Proofs.Deployment.Plan
import BlockDiagram.Proofs.Files.Directories

set_option autoImplicit false

namespace BlockDiagram

variable {settings : Settings} {tools : Tools} {files made prepared : Files}
  {source program : String}

/-! ## Delivery -/

namespace Files

/-- Whether a location lies on the way of the directory that a path names for its file. -/
def PassesParent (files : Files) (path : String) (location : Location) : Prop :=
  ∃ parent, Deploying.parentToMake? path = some parent ∧ files.Passes parent location

/-- Whether the directory that a path names for its file is there. -/
def HasParent (files : Files) (path : String) : Prop :=
  ∀ parent, Deploying.parentToMake? path = some parent → files.isDirectory parent = true

end Files

open Files (Grown)

/-! ## Parts of a plan -/

variable {outcome : Outcome}

/-- Making the directory of a file lets the tree grow, whether or not it can be made. -/
theorem carryOut_parentTasks_cases {path : String}
    (h : carryOut settings tools (parentTasks path) files = outcome) :
    Grown (files.PassesParent path) files outcome.files ∧
      ((∃ error, outcome.result = .error (.unwritable error) ∧ error.fault ≠ .noRoom) ∨
        outcome.result = .ok () ∧ outcome.files.HasParent path) := by
  subst h
  rw [carryOut_parentTasks]
  cases hparent : Deploying.parentToMake? path with
  | none =>
    refine ⟨.refl _ files, .inr ⟨rfl, fun parent hmake => ?_⟩⟩
    rw [hparent] at hmake
    cases hmake
  | some parent =>
    dsimp only [Task.outcome]
    refine ⟨(Files.grown_makeDirectories files parent).mono fun _ h => ⟨parent, hparent, h⟩, ?_⟩
    have hmakes := Files.makes_makeDirectories files parent
    rcases hmake : files.makeDirectories parent with ⟨fault | _, made⟩ <;> rw [hmake] at hmakes
    · exact .inl ⟨⟨parent, fault⟩, rfl, hmakes.ne_noRoom⟩
    · refine .inr ⟨rfl, fun other hother => ?_⟩
      obtain rfl : parent = other := Option.some.inj (hparent.symm.trans hother)
      -- the empty path is never made, so success says that there is a directory
      have hne : parent ≠ "" := by
        rintro rfl
        simp [Deploying.parentToMake?, Option.filter_eq_some_iff] at hparent
      exact Files.isDirectory_of_makeDirectories hne hmake

/-- The text of a document with a start block alone. -/
def startText : String :=
  "\x7b\"blocks\":\x7b\"1\":\x7b\"type\":\"start\",\"next\":null\x7d\x7d\x7d"

end BlockDiagram
