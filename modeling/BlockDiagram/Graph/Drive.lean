/-
Running a machine.

The walks of this library keep their own stack, because a diagram may nest deeper than a program
that calls itself can follow. Each is a machine: a state, and a step that gives the next state or
says that the work is done. A bound on the number of steps comes from the graph, so that every walk
is a total function; where a walk needs fewer steps, it stops by itself.
-/

set_option autoImplicit false

namespace BlockDiagram

variable {σ : Type}

/-- Take steps until the work is done, at most as many as the bound allows. -/
def drive (step? : σ → Option σ) : Nat → σ → σ
  | 0, state => state
  | bound + 1, state =>
    match step? state with
    | some state => drive step? bound state
    | none => state

/-- A machine whose work is done stays where it is. -/
theorem drive_of_done {step? : σ → Option σ} {state : σ} (h : step? state = none) (bound : Nat) :
    drive step? bound state = state := by
  cases bound <;> simp [drive, h]

/-- A run may be interrupted and resumed. -/
theorem drive_add (step? : σ → Option σ) (m n : Nat) (state : σ) :
    drive step? (m + n) state = drive step? n (drive step? m state) := by
  induction m generalizing state with
  | zero => simp [drive]
  | succ m ih =>
    rw [Nat.succ_add, drive, drive]
    split
    · exact ih _
    · rename_i done
      exact (drive_of_done done n).symm

end BlockDiagram
