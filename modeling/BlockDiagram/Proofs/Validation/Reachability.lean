/-
What the walk over reachable blocks finds.

The walk keeps a list of blocks to expand and a list of blocks seen. Three things hold of them
throughout: whatever was seen can be reached from a start block, whatever waits was seen, and a
block that was seen and does not wait any more has had its references followed. With nothing left
to expand the third says that the blocks seen are closed under references, so they are all that can
be reached. That nothing is left when the bound is used up is a count: a step takes one block off
the list, and each block that it puts there is one that was not seen before.
-/
import BlockDiagram.Proofs.Graph.Reference
import BlockDiagram.Proofs.Machine
import BlockDiagram.Validation.Reachable

set_option autoImplicit false

namespace BlockDiagram

open Relation

namespace Reach

variable {graph : Graph} {reach : Reach}

/-! ## Noting blocks -/

/-- The targets of a block, existing or not, are what it refers to. -/
theorem mem_targets {id target : BlockId} :
    target ∈ targets graph id ↔ graph.Refers id target := by
  rw [targets, Graph.Refers, Along]
  simp only [Graph.edge_iff]
  cases hget : graph.get? id with
  | none => simp
  | some block =>
    simp only [List.mem_map, Option.some.injEq, exists_eq_left']
    constructor
    · rintro ⟨⟨slot, found⟩, href, rfl⟩
      exact ⟨slot, Block.mem_references.1 href⟩
    · rintro ⟨slot, htarget⟩
      exact ⟨(slot, target), Block.mem_references.2 htarget, rfl⟩

/-- Noting a block adds it to both lists if it exists and is new, and does nothing otherwise. -/
theorem note_cases (graph : Graph) (reach : Reach) (target : BlockId) :
    (graph.contains target = true ∧ target ∉ reach.seen ∧
        note graph reach target = ⟨target :: reach.pending, target :: reach.seen⟩) ∨
      ((graph.contains target = true → target ∈ reach.seen) ∧ note graph reach target = reach) := by
  rw [note]
  split
  · rename_i hnew
    rw [Bool.and_eq_true, Bool.not_eq_true', List.contains_eq_mem, decide_eq_false_iff_not] at hnew
    exact .inl ⟨hnew.1, hnew.2, rfl⟩
  · rename_i hold
    rw [Bool.and_eq_true, Bool.not_eq_true', List.contains_eq_mem, decide_eq_false_iff_not,
      not_and_not_right] at hold
    exact .inr ⟨hold, rfl⟩

/-- The number of steps that are still to come: one for each block that waits, and one for each
block that was not seen yet. -/
def work (graph : Graph) (reach : Reach) : Nat :=
  reach.pending.length + graph.ahead (fun _ => 1) fun id => !reach.seen.contains id

/-- A block that is noted moves from the blocks not seen to the blocks that wait. -/
theorem work_note (target : BlockId) :
    work graph (note graph reach target) = work graph reach := by
  rcases note_cases graph reach target with ⟨hexists, hnew, hnote⟩ | ⟨-, hnote⟩
  · rw [hnote, work, work]
    obtain ⟨block, hget⟩ := Graph.get?_of_contains hexists
    have hunmet : (!reach.seen.contains target) = true := by
      rw [Bool.not_eq_true', List.contains_eq_mem, decide_eq_false_iff_not]
      exact hnew
    have hahead :=
      Graph.ahead_eq_add (fun _ => 1) (fun id => !reach.seen.contains id) hget hunmet
    have hcons : (graph.ahead (fun _ => 1) fun id => !(target :: reach.seen).contains id)
        = graph.ahead (fun _ => 1) fun id => !reach.seen.contains id && id != target := by
      refine Graph.ahead_congr fun id _ => ?_
      rw [List.contains_cons, Bool.not_or, Bool.and_comm, bne]
    rw [hcons, List.length_cons]
    omega
  · rw [hnote]

/-- Noting several blocks makes the existing ones among them seen, and lets those wait that were
not seen before. -/
theorem foldl_note_iff (graph : Graph) (ids : List BlockId) (reach : Reach) (id : BlockId) :
    (id ∈ (ids.foldl (note graph) reach).seen ↔
        id ∈ reach.seen ∨ id ∈ ids ∧ graph.contains id = true) ∧
      (id ∈ (ids.foldl (note graph) reach).pending ↔
        id ∈ reach.pending ∨ id ∈ (ids.foldl (note graph) reach).seen ∧ id ∉ reach.seen) := by
  -- the second half is about what was seen at the end, so both go by one induction
  induction ids generalizing reach with
  | nil => simp
  | cons first rest ih =>
    rw [List.foldl_cons]
    obtain ⟨hseen, hpending⟩ := ih (note graph reach first)
    rcases note_cases graph reach first with ⟨hexists, hnew, hnote⟩ | ⟨hold, hnote⟩
    · rw [hnote] at hseen hpending ⊢
      simp only [List.mem_cons] at hseen hpending ⊢
      grind
    · rw [hnote] at hseen hpending ⊢
      simp only [List.mem_cons]
      grind

/-! ## The invariant -/

/-- What holds while the walk is on its way. -/
structure Sound (graph : Graph) (reach : Reach) : Prop where
  /-- What was seen can be reached. -/
  reached : ∀ id ∈ reach.seen, ∃ start ∈ graph.starts, ReflTransGen graph.Links start id
  /-- The start blocks were seen. -/
  starts : ∀ id ∈ graph.starts, id ∈ reach.seen
  /-- What waits was seen. -/
  waiting : ∀ id ∈ reach.pending, id ∈ reach.seen
  /-- What was seen and does not wait has had its references followed. -/
  followed : ∀ id ∈ reach.seen, id ∈ reach.pending ∨
    ∀ target, graph.Links id target → target ∈ reach.seen

/-- At first the start blocks were seen and wait, in whatever order. -/
theorem sound_start {ids : List BlockId} (h : ids.Perm graph.starts) : Sound graph (start ids) where
  reached id hid := ⟨id, h.mem_iff.1 hid, .refl⟩
  starts _ hid := h.mem_iff.2 hid
  waiting _ hid := hid
  followed _ hid := .inl hid

/-- A step takes a block off the list, and with its references followed it need not wait. -/
theorem Sound.step {next : Reach} (h : Sound graph reach) (hstep : step? graph reach = some next) :
    Sound graph next := by
  rw [step?] at hstep
  split at hstep
  · cases hstep
  · rename_i id pending hpending
    rw [Option.some.injEq] at hstep
    have hafter := foldl_note_iff graph (targets graph id) ⟨pending, reach.seen⟩
    rw [hstep] at hafter
    simp only [mem_targets] at hafter
    have hid : id ∈ reach.seen := h.waiting id (by rw [hpending]; exact List.mem_cons_self)
    refine {
      reached := ?reached
      starts := fun other hother => (hafter other).1.2 (.inl (h.starts other hother))
      waiting := ?waiting, followed := ?followed }
    case reached =>
      intro other hother
      rcases (hafter other).1.1 hother with hseen | ⟨⟨slot, hedge⟩, hexists⟩
      · exact h.reached other hseen
      · obtain ⟨start, hstart, hreach⟩ := h.reached id hid
        exact ⟨start, hstart, hreach.tail ⟨slot, hedge, hexists⟩⟩
    case waiting =>
      intro other hother
      rcases (hafter other).2.1 hother with hwaits | ⟨hseen, -⟩
      · refine (hafter other).1.2 (.inl (h.waiting other ?_))
        rw [hpending]
        exact List.mem_cons_of_mem _ hwaits
      · exact hseen
    case followed =>
      intro other hother
      by_cases hseen : other ∈ reach.seen
      · rcases h.followed other hseen with hwaits | hclosed
        · rw [hpending, List.mem_cons] at hwaits
          rcases hwaits with rfl | hwaits
          · -- the block expanded by this step
            refine .inr fun target ⟨slot, hedge, hexists⟩ => ?_
            exact (hafter target).1.2 (.inr ⟨⟨slot, hedge⟩, hexists⟩)
          · exact .inl ((hafter other).2.2 (.inl hwaits))
        · exact .inr fun target hlink => (hafter target).1.2 (.inl (hclosed target hlink))
      · -- a block that this step saw first, so it waits
        exact .inl ((hafter other).2.2 (.inr ⟨hother, hseen⟩))

/-! ## The end of the walk -/

/-- Each step is one of those that were still to come. -/
theorem work_step {next : Reach} (hstep : step? graph reach = some next) :
    work graph next < work graph reach := by
  -- noting costs nothing, so what counts is that one block no longer waits
  have hfold (ids : List BlockId) (reach : Reach) :
      work graph (ids.foldl (note graph) reach) = work graph reach := by
    induction ids generalizing reach with
    | nil => rfl
    | cons first rest ih => rw [List.foldl_cons, ih, work_note]
  rw [step?] at hstep
  split at hstep
  · cases hstep
  · rename_i id pending hpending
    rw [Option.some.injEq] at hstep
    rw [← hstep, hfold, work, work, hpending, List.length_cons]
    exact Nat.add_lt_add_right (Nat.lt_succ_self _) _

/-- At first there are as many steps to come as there are blocks: the start blocks wait, and the
others were not seen. -/
theorem work_start {ids : List BlockId} (h : ids.Perm graph.starts) :
    work graph (start ids) = graph.size := by
  have hunseen (block : Block) (hmem : block ∈ graph.blocks) :
      (!ids.contains block.id) = !block.isStart := by
    have hget : graph.get? block.id = some block := Graph.get?_eq_some_iff.2 ⟨hmem, rfl⟩
    rw [Bool.eq_iff_iff, Bool.not_eq_true', Bool.not_eq_true', List.contains_eq_mem,
      decide_eq_false_iff_not, h.mem_iff, Graph.mem_starts_iff hget, Bool.not_eq_true]
  have hsum (blocks : List Block) : (blocks.map fun _ => 1).sum = blocks.length := by
    rw [List.map_const', List.sum_replicate_nat, Nat.mul_one]
  rw [work, start, Graph.ahead, List.filter_congr hunseen, hsum, h.length_eq, Graph.starts,
    List.length_map, Graph.size]
  exact (List.length_eq_length_filter_add _).symm

/-- Once nothing waits, the blocks seen are closed under references, so they are all that can be
reached. -/
theorem Sound.mem_seen_iff (h : Sound graph reach) (hpending : reach.pending = []) {id : BlockId} :
    id ∈ reach.seen ↔ ∃ start ∈ graph.starts, ReflTransGen graph.Links start id := by
  constructor
  · exact h.reached id
  · rintro ⟨start, hstart, hreach⟩
    induction hreach with
    | refl => exact h.starts start hstart
    | @tail source target _ hlink ih =>
      rcases h.followed source ih with hwaits | hclosed
      · rw [hpending] at hwaits
        cases hwaits
      · exact hclosed target hlink

theorem pending_of_done (hdone : step? graph reach = none) : reach.pending = [] := by
  rw [step?] at hdone
  split at hdone
  · assumption
  · cases hdone

/-- The bound is never what ends the walk. -/
theorem step?_drive_start {ids : List BlockId} (h : ids.Perm graph.starts) :
    step? graph (drive (step? graph) graph.size (start ids)) = none :=
  step?_drive_eq_none (P := fun _ => True) (work graph) (fun _ _ _ _ => trivial)
    (fun _ _ _ hstep => work_step hstep) trivial (work_start h).le

end Reach

/-- The walk finds the blocks that can be reached from a start block along references to existing
blocks, and no others, in whatever order it begins with the start blocks. -/
theorem Graph.mem_seen_iff {graph : Graph} {ids : List BlockId} (h : ids.Perm graph.starts)
    {id : BlockId} : id ∈ (drive (Reach.step? graph) graph.size (.start ids)).seen ↔
      ∃ start ∈ graph.starts, ReflTransGen graph.Links start id := by
  have hsound : Reach.Sound graph (drive (Reach.step? graph) graph.size (.start ids)) :=
    drive_preserves (fun _ _ h hstep => h.step hstep) _ (Reach.sound_start h)
  exact hsound.mem_seen_iff (Reach.pending_of_done (Reach.step?_drive_start h))

theorem Graph.mem_reachable_iff {graph : Graph} {id : BlockId} :
    id ∈ graph.reachable ↔ ∃ start ∈ graph.starts, ReflTransGen graph.Links start id :=
  mem_seen_iff (.refl graph.starts)

end BlockDiagram
