/-
Reaching in any order.

The walk over reachable blocks begins with the start blocks, which are a set, and goes on with
whichever block was noted last. Neither order is one that anything should rest on. Here the blocks
that wait may change places before every step, so a step expands any one of them, and every way of
going over the graph is a run of this kind; the walk that is run is one among them.

All of them come to the same. A block that was seen either was expanded or still waits, and no block
is both or is it twice. So a run expands each block once at most, however it chooses, and when it
has nothing left it has expanded just the blocks that can be reached.
-/
import BlockDiagram.Proofs.Validation.Acceptance

set_option autoImplicit false

namespace BlockDiagram

open Relation

namespace Reach

variable {graph : Graph} {reach next last : Reach} {order : List BlockId}

/-! ## Runs in any order -/

/-- A run of the walk in which any of the waiting blocks may come next. The list says which blocks
were expanded, one for each step. -/
inductive Expands (graph : Graph) : List BlockId → Reach → Reach → Prop
  | rest (reach : Reach) : Expands graph [] reach reach
  | step {id : BlockId} {order waiting : List BlockId} {reach next last : Reach}
      (hpending : reach.pending.Perm (id :: waiting))
      (hstep : step? graph ⟨id :: waiting, reach.seen⟩ = some next)
      (hrest : Expands graph order next last) : Expands graph (id :: order) reach last

/-- A block that waits may come next. -/
theorem exists_expands_of_mem {id : BlockId} (h : id ∈ reach.pending) :
    ∃ next, Expands graph [id] reach next :=
  ⟨_, .step (List.perm_cons_erase h) rfl (.rest _)⟩

/-- The walk that goes on with the block noted last is a run of this kind. -/
theorem exists_expands_of_takes {n : Nat} (h : Takes (step? graph) n reach last) :
    ∃ order, order.length = n ∧ Expands graph order reach last := by
  induction h with
  | rest reach => exact ⟨[], rfl, .rest reach⟩
  | @step n reach next last hstep _ ih =>
    obtain ⟨order, hlength, hrest⟩ := ih
    cases hpending : reach.pending with
    | nil =>
      rw [step?, hpending] at hstep
      cases hstep
    | cons id waiting =>
      refine ⟨id :: order, congrArg (· + 1) hlength, .step (.of_eq hpending) ?_ hrest⟩
      rw [← hpending]
      exact hstep

/-! ## What every run keeps -/

/-- The blocks that wait may change places. -/
theorem Sound.reorder (h : Sound graph reach) {waiting : List BlockId}
    (hpending : reach.pending.Perm waiting) : Sound graph ⟨waiting, reach.seen⟩ where
  reached := h.reached
  starts := h.starts
  waiting id hid := h.waiting id (hpending.mem_iff.2 hid)
  followed id hid := (h.followed id hid).imp_left hpending.mem_iff.1

theorem Expands.sound (h : Expands graph order reach last) (hreach : Sound graph reach) :
    Sound graph last := by
  induction h with
  | rest reach => exact hreach
  | step hpending hstep _ ih => exact ih ((hreach.reorder hpending).step hstep)

/-- Where the blocks seen are: those expanded so far, and those that wait, none of them twice. -/
structure Accounted (done : List BlockId) (reach : Reach) : Prop where
  nodup : reach.seen.Nodup
  perm : reach.seen.Perm (done ++ reach.pending)

theorem accounted_start {ids : List BlockId} (h : ids.Perm graph.starts) :
    Accounted [] (start ids) where
  nodup := h.nodup_iff.2 graph.starts_nodup
  perm := .refl ids

/-- A block that is noted for the first time is seen and waits. -/
theorem Accounted.note {done : List BlockId} (h : Accounted done reach) (target : BlockId) :
    Accounted done (note graph reach target) := by
  rcases note_cases graph reach target with ⟨-, hnew, hnote⟩ | ⟨-, hnote⟩
  · rw [hnote]
    exact ⟨List.nodup_cons.2 ⟨hnew, h.nodup⟩, (h.perm.cons target).trans List.perm_middle.symm⟩
  · rwa [hnote]

/-- A step moves a block from those that wait to those that were expanded. -/
theorem Accounted.step {done waiting : List BlockId} {id : BlockId} (h : Accounted done reach)
    (hpending : reach.pending.Perm (id :: waiting))
    (hstep : step? graph ⟨id :: waiting, reach.seen⟩ = some next) :
    Accounted (done ++ [id]) next := by
  have hmoved : Accounted (done ++ [id]) ⟨waiting, reach.seen⟩ := by
    refine ⟨h.nodup, ?_⟩
    rw [List.append_assoc]
    exact h.perm.trans (hpending.append_left done)
  rw [step?, Option.some.injEq] at hstep
  rw [← hstep]
  exact List.foldlRecOn _ _ hmoved fun _ h target _ => h.note target

theorem Expands.accounted (h : Expands graph order reach last) {done : List BlockId}
    (hreach : Accounted done reach) : Accounted (done ++ order) last := by
  induction h generalizing done with
  | rest reach => rwa [List.append_nil]
  | step hpending hstep _ ih =>
    have hnext := ih (hreach.step hpending hstep)
    rwa [List.append_assoc] at hnext

end Reach

/-! ## The blocks that can be reached -/

namespace Graph

/-- What is true of a run that has expanded blocks in some order and come to some state. -/
structure Explored (graph : Graph) (order : List BlockId) (reach : Reach) : Prop where
  /-- No block is expanded twice, and none that cannot be reached. -/
  expanded : order.Nodup ∧ ∀ id ∈ order, id ∈ graph.reachable
  /-- So there is an end to every run. -/
  bounded : order.length ≤ graph.reachable.length
  /-- No run is stuck before: any of the waiting blocks can be expanded. -/
  goesOn : ∀ id ∈ reach.pending, ∃ next, Reach.Expands graph [id] reach next
  /-- With nothing left, the blocks that can be reached were seen, and each of them expanded. -/
  finished : reach.pending = [] →
    reach.seen.Perm graph.reachable ∧ order.Perm graph.reachable

variable {graph : Graph} {ids order : List BlockId} {reach : Reach}

theorem nodup_reachable (graph : Graph) : graph.reachable.Nodup := by
  obtain ⟨n, htakes⟩ := exists_takes_drive (Reach.step? graph) graph.size (.start graph.starts)
  obtain ⟨order, -, hexpands⟩ := Reach.exists_expands_of_takes htakes
  exact (hexpands.accounted (Reach.accounted_start (.refl _))).nodup

theorem explored_of_expands (hids : ids.Perm graph.starts)
    (h : Reach.Expands graph order (.start ids) reach) : graph.Explored order reach := by
  have hsound := h.sound (Reach.sound_start hids)
  have haccounted := h.accounted (Reach.accounted_start hids)
  rw [List.nil_append] at haccounted
  have hnodup : (order ++ reach.pending).Nodup := haccounted.perm.nodup_iff.1 haccounted.nodup
  have hreachable (id : BlockId) (hid : id ∈ order) : id ∈ graph.reachable := by
    rw [mem_reachable_iff]
    exact hsound.reached id (haccounted.perm.mem_iff.2 (List.mem_append_left _ hid))
  have hexpanded : order.Nodup ∧ ∀ id ∈ order, id ∈ graph.reachable :=
    ⟨(List.nodup_append.1 hnodup).1, hreachable⟩
  refine {
    expanded := hexpanded
    bounded := (hexpanded.1.subperm hreachable).length_le
    goesOn := fun id => Reach.exists_expands_of_mem
    finished := fun hpending => ?_ }
  have hseen : reach.seen.Perm graph.reachable := by
    rw [List.perm_ext_iff_of_nodup haccounted.nodup graph.nodup_reachable]
    intro id
    rw [hsound.mem_seen_iff hpending, mem_reachable_iff]
  have horder := haccounted.perm
  rw [hpending, List.append_nil] at horder
  exact ⟨hseen, horder.symm.trans hseen⟩

/-- What can be reached along references to existing blocks exists itself. -/
theorem contains_of_reflTransGen {start id : BlockId} (hstart : start ∈ graph.starts)
    (h : ReflTransGen graph.Links start id) : graph.contains id = true := by
  cases h with
  | refl =>
    obtain ⟨block, hmem, rfl, -⟩ := mem_starts.1 hstart
    exact contains_of_get? (get?_eq_some_iff.2 ⟨hmem, rfl⟩)
  | tail _ hlink =>
    obtain ⟨slot, -, hexists⟩ := hlink
    exact hexists

/-- **Reachable blocks.** Whatever references a graph has, the walk comes to its end after as many
steps as there are blocks to be reached, and has then found the blocks that a start block leads to
along references to existing blocks, each once. So has every run that begins with the start blocks
in another order, or goes on with other blocks first. -/
theorem reachable_anyOrder (graph : Graph) :
    (graph.reachable.Nodup ∧ ∀ id, id ∈ graph.reachable ↔
        graph.contains id = true ∧ ∃ start ∈ graph.starts, ReflTransGen graph.Links start id) ∧
      (∃ last, Takes (Reach.step? graph) graph.reachable.length (.start graph.starts) last ∧
        last.pending = [] ∧ last.seen = graph.reachable) ∧
      ∀ ids, ids.Perm graph.starts → ∀ order reach,
        Reach.Expands graph order (.start ids) reach → graph.Explored order reach := by
  refine ⟨⟨graph.nodup_reachable, fun id => ?_⟩, ?_, fun ids hids order reach h =>
    explored_of_expands hids h⟩
  · rw [mem_reachable_iff]
    refine ⟨fun ⟨start, hstart, h⟩ => ?_, And.right⟩
    exact ⟨contains_of_reflTransGen hstart h, start, hstart, h⟩
  · have hpending := Reach.pending_of_done (Reach.step?_drive_start (.refl graph.starts))
    obtain ⟨n, htakes⟩ := exists_takes_drive (Reach.step? graph) graph.size (.start graph.starts)
    obtain ⟨order, rfl, hexpands⟩ := Reach.exists_expands_of_takes htakes
    have hexplored := explored_of_expands (.refl _) hexpands
    rw [(hexplored.finished hpending).2.length_eq] at htakes
    exact ⟨_, htakes, hpending, rfl⟩

end Graph

end BlockDiagram
