/-
Runs of a machine.

`drive` takes steps up to a bound, and a machine that is cut off by its bound looks like one that
finished. This file keeps the two apart. `Takes` counts the steps that a machine really takes, so
a run that is described by it is a run of the loop and not of the bound; `drive` is then shown to
follow such a run, to stop where it stops, and to come to its end whenever a measure goes down at
every step and the bound is not below it.
-/
import BlockDiagram.Graph.Drive

set_option autoImplicit false

namespace BlockDiagram

variable {σ : Type} {step? : σ → Option σ}

/-! ## Counting steps -/

/-- A number of steps that leads from one state to another. Every step is one that the machine
takes, so nothing is counted after its work is done. -/
inductive Takes (step? : σ → Option σ) : Nat → σ → σ → Prop
  | rest (s : σ) : Takes step? 0 s s
  | step {n : Nat} {s t u : σ} (hs : step? s = some t) (ht : Takes step? n t u) :
      Takes step? (n + 1) s u

theorem Takes.single {s t : σ} (hs : step? s = some t) : Takes step? 1 s t :=
  .step hs (.rest t)

theorem Takes.trans {m n : Nat} {s t u : σ} (hm : Takes step? m s t) (hn : Takes step? n t u) :
    Takes step? (m + n) s u := by
  induction hm with
  | rest s =>
    rw [Nat.zero_add]
    exact hn
  | step hs _ ih =>
    rw [Nat.succ_add]
    exact .step hs (ih hn)

/-- What every step preserves, a run preserves. -/
theorem Takes.preserves {P : σ → Prop} (hP : ∀ s t, P s → step? s = some t → P t) {n : Nat}
    {s t : σ} (h : Takes step? n s t) (hs : P s) : P t := by
  induction h with
  | rest s => exact hs
  | step hstep _ ih => exact ih (hP _ _ hs hstep)

/-- A machine does one thing at a time, so no run goes further than one that came to the end. -/
theorem Takes.le_of_done {m n : Nat} {s t u : σ} (h : Takes step? n s t) (hdone : step? t = none)
    (hm : Takes step? m s u) : m ≤ n := by
  induction h generalizing m with
  | rest s =>
    cases hm with
    | rest => exact Nat.le_refl 0
    | step hs _ =>
      rw [hdone] at hs
      cases hs
  | step hs _ ih =>
    cases hm with
    | rest => exact Nat.zero_le _
    | step hs' hrest =>
      rw [hs, Option.some.injEq] at hs'
      rw [← hs'] at hrest
      exact Nat.succ_le_succ (ih hdone hrest)

/-! ## What `drive` does -/

/-- Driving follows a run: the steps of the run are taken off the bound. -/
theorem Takes.drive_add {m : Nat} {s t : σ} (h : Takes step? m s t) (n : Nat) :
    drive step? (m + n) s = drive step? n t := by
  induction h with
  | rest s => rw [Nat.zero_add]
  | step hs _ ih =>
    rw [Nat.succ_add, drive, hs]
    exact ih

/-- A run to the end is what driving computes, as soon as the bound allows as many steps. -/
theorem Takes.drive_eq {n bound : Nat} {s t : σ} (h : Takes step? n s t) (hdone : step? t = none)
    (hn : n ≤ bound) : drive step? bound s = t := by
  obtain ⟨rest, rfl⟩ := Nat.exists_eq_add_of_le hn
  rw [h.drive_add rest]
  exact drive_of_done hdone rest

theorem exists_takes_drive (step? : σ → Option σ) (bound : Nat) (s : σ) :
    ∃ n, Takes step? n s (drive step? bound s) := by
  induction bound generalizing s with
  | zero => exact ⟨0, .rest s⟩
  | succ bound ih =>
    rw [drive]
    split
    · rename_i t ht
      obtain ⟨n, hn⟩ := ih t
      exact ⟨n + 1, .step ht hn⟩
    · exact ⟨0, .rest s⟩

/-- What every step preserves, driving preserves. -/
theorem drive_preserves {P : σ → Prop} (hP : ∀ s t, P s → step? s = some t → P t) (bound : Nat)
    {s : σ} (hs : P s) : P (drive step? bound s) := by
  obtain ⟨n, hn⟩ := exists_takes_drive step? bound s
  exact hn.preserves hP hs

/-- Where a measure goes down at every step, a bound that is not below it is never what ends the
work. The measure need not go down on states that no run comes to, so the states may be narrowed
by an invariant. -/
theorem step?_drive_eq_none {P : σ → Prop} (work : σ → Nat)
    (hP : ∀ s t, P s → step? s = some t → P t)
    (hwork : ∀ s t, P s → step? s = some t → work t < work s) {bound : Nat} {s : σ} (hs : P s)
    (hbound : work s ≤ bound) : step? (drive step? bound s) = none := by
  induction bound generalizing s with
  | zero =>
    rw [drive]
    cases hstep : step? s with
    | none => rfl
    | some t =>
      -- no work is left for another step
      have hlt := hwork s t hs hstep
      omega
  | succ bound ih =>
    rw [drive]
    split
    · rename_i t hstep
      have hlt := hwork s t hs hstep
      exact ih (hP s t hs hstep) (by omega)
    · rename_i hstep
      exact hstep

end BlockDiagram
