/-
Emission comes to an end.

A valid graph has no cycle, so emission of it runs out of links. How soon is another matter: a block
that several references lead to is walked once for each of them, and where that happens one block
after the other the walks multiply. The ladder below has a loop on every rung, and both the body of
the loop and what follows it begin with the next rung; its program has twice as many statements with
every rung that is added. So the bound on the steps of a run cannot be brought down to the number of
blocks, or to any power of it.

On its way emission looks up the blocks that links lead to. That the look-up never fails is kept
from step to step: whatever is put on the stack comes from the slots of a block of the graph, and in
a valid graph these lead to blocks.
-/
import BlockDiagram.Proofs.Program.Run

set_option autoImplicit false

namespace BlockDiagram

open Relation

/-! ## Looking blocks up -/

namespace Emission

variable {graph : Graph}

/-- Whether every link that is still to come leads to a block, if it leads anywhere. -/
def Resolved (graph : Graph) (emission : Emission) : Prop :=
  ∀ link level, .chain link level ∈ emission.pending → graph.Resolves link

theorem Resolved.step (hclosed : graph.Closed) {emission next : Emission}
    (h : Resolved graph emission) (hstep : step? graph emission = some next) :
    Resolved graph next := by
  obtain ⟨pending, placed, visits⟩ := emission
  -- what stays on the stack was there before; only a block puts links on it
  match pending with
  | [] => cases hstep
  | .fragment fragment :: pending =>
    cases hstep
    exact fun link level hmem => h link level (List.mem_cons_of_mem _ hmem)
  | .chain none below :: pending =>
    cases hstep
    exact fun link level hmem => h link level (List.mem_cons_of_mem _ hmem)
  | .chain (some id) below :: pending =>
    obtain ⟨block, hget⟩ := Graph.get?_of_contains
      (Graph.resolves_some.1 (h (some id) below List.mem_cons_self))
    simp only [step?, hget, Option.some.injEq] at hstep
    subst hstep
    intro link level hmem
    rcases List.mem_append.1 hmem with hmem | hmem
    · obtain ⟨slot, rfl, -⟩ := Block.exists_slot_of_mem hmem
      exact hclosed.resolves_target? hget slot
    · exact h link level (List.mem_cons_of_mem _ hmem)

theorem resolved_start {link : Option BlockId} (h : graph.Resolves link) :
    Resolved graph (start link) := by
  intro other level hmem
  rw [start, List.mem_singleton, Pending.chain.injEq] at hmem
  rw [hmem.1]
  exact h

/-- A step visits one block at most. -/
theorem visits_length_le_of_step {emission next : Emission}
    (hstep : step? graph emission = some next) :
    next.visits.length ≤ emission.visits.length + 1 := by
  unfold step? at hstep
  split at hstep
  · cases hstep
  · cases hstep
    exact Nat.le_succ _
  · cases hstep
    exact Nat.le_succ _
  · split at hstep <;>
    · cases hstep
      exact Nat.le_refl _

/-- A run has at least as many steps as visits. -/
theorem visits_length_le_of_takes {n : Nat} {emission last : Emission}
    (h : Takes (step? graph) n emission last) :
    last.visits.length ≤ emission.visits.length + n := by
  induction h with
  | rest => omega
  | step hstep _ ih =>
    have hvisits := visits_length_le_of_step hstep
    omega

end Emission

/-! ## The ladder -/

namespace Ladder

variable {n i : Nat}

/-- A rung of the ladder with `n` loops. Below the loops there is the start block, and above them
one last statement. -/
def rung (n i : Nat) : Block where
  id := UInt32.ofNat i
  next := if i ≤ n then some (UInt32.ofNat (i + 1)) else none
  kind :=
    if i = 0 then .start
    else if i ≤ n then .loop "true" (some (UInt32.ofNat (i + 1)))
    else .code ""
  extra := .nil

theorem toNat_id (hn : n + 2 ≤ UInt32.size) (hi : i < n + 2) : (rung n i).id.toNat = i :=
  UInt32.toNat_ofNat_of_lt' (Nat.lt_of_lt_of_le hi hn)

/-- The ladder with `n` loops, where the ids suffice for it. -/
def ladder (n : Nat) (hn : n + 2 ≤ UInt32.size) : Graph where
  blocks := (List.range (n + 2)).map (rung n)
  ascending := by
    rw [Ascending, List.pairwise_map]
    refine List.pairwise_lt_range.imp_of_mem fun {a b} ha hb hab => ?_
    rw [List.mem_range] at ha hb
    rw [UInt32.lt_iff_toNat_lt, toNat_id hn ha, toNat_id hn hb]
    exact hab

variable (hn : n + 2 ≤ UInt32.size)

theorem mem_blocks {block : Block} :
    block ∈ (ladder n hn).blocks ↔ ∃ i < n + 2, rung n i = block := by
  simp [ladder]

theorem get?_rung (hi : i < n + 2) : (ladder n hn).get? (UInt32.ofNat i) = some (rung n i) :=
  Graph.get?_eq_some_iff.2 ⟨(mem_blocks hn).2 ⟨i, hi, rfl⟩, rfl⟩

/-- Whatever a rung refers to is the next rung. -/
theorem target?_rung {slot : Slot} {id : BlockId} (h : (rung n i).target? slot = some id) :
    i ≤ n ∧ id = UInt32.ofNat (i + 1) := by
  unfold Block.target? rung at h
  by_cases hle : i ≤ n
  · refine ⟨hle, ?_⟩
    by_cases hzero : i = 0 <;> cases slot <;> simp_all
  · have hzero : i ≠ 0 := by omega
    cases slot <;> simp only [if_neg hle, if_neg hzero, reduceCtorEq] at h

/-- The target of an edge of the ladder is the rung after its source. -/
theorem exists_of_mem_edges {edge : Edge} (h : edge ∈ (ladder n hn).edges) :
    ∃ i ≤ n, edge.source = (rung n i).id ∧ edge.target = (rung n (i + 1)).id := by
  obtain ⟨block, hmem, hid, href⟩ := Graph.mem_edges_iff.1 h
  obtain ⟨i, -, rfl⟩ := (mem_blocks hn).1 hmem
  obtain ⟨hle, htarget⟩ := target?_rung (Block.mem_references.1 href)
  exact ⟨i, hle, hid.symm, htarget⟩

theorem toNat_lt_of_refers {a b : BlockId} (h : (ladder n hn).Refers a b) : a.toNat < b.toNat := by
  obtain ⟨slot, hedge⟩ := h
  obtain ⟨i, hle, hsource, htarget⟩ := exists_of_mem_edges hn hedge
  dsimp only at hsource htarget
  rw [hsource, htarget, toNat_id hn (by omega), toNat_id hn (by omega)]
  omega

theorem acyclic : (ladder n hn).Acyclic := by
  have hup (a b : BlockId) (hab : TransGen (ladder n hn).Refers a b) : a.toNat < b.toNat := by
    induction hab with
    | single hab => exact toNat_lt_of_refers hn hab
    | tail _ hbc ih => exact ih.trans (toNat_lt_of_refers hn hbc)
  intro id hcycle
  exact Nat.lt_irrefl _ (hup id id hcycle)

theorem kind_cases (n i : Nat) : (rung n i).kind = .start ∧ i = 0 ∨
    (∃ child, (rung n i).kind = .loop "true" child) ∨ (rung n i).kind = .code "" := by
  have hkind : (rung n i).kind = if i = 0 then .start
      else if i ≤ n then .loop "true" (some (UInt32.ofNat (i + 1))) else .code "" := rfl
  rw [hkind]
  by_cases hzero : i = 0
  · exact .inl ⟨if_pos hzero, hzero⟩
  · rw [if_neg hzero]
    by_cases hle : i ≤ n
    · exact .inr (.inl ⟨_, if_pos hle⟩)
    · exact .inr (.inr (if_neg hle))

theorem beginsAt : (ladder n hn).BeginsAt (rung n 0).id := by
  refine ⟨⟨rung n 0, (mem_blocks hn).2 ⟨0, by omega, rfl⟩, rfl, rfl⟩, ?_⟩
  intro block hmem hkind
  obtain ⟨i, -, rfl⟩ := (mem_blocks hn).1 hmem
  rcases kind_cases n i with ⟨-, rfl⟩ | ⟨child, hloop⟩ | hcode
  · rfl
  · rw [hloop] at hkind
    cases hkind
  · rw [hcode] at hkind
    cases hkind

theorem wellFormed : (ladder n hn).WellFormed where
  begins := ⟨_, beginsAt hn⟩
  closed := by
    intro edge hedge
    obtain ⟨i, hle, -, htarget⟩ := exists_of_mem_edges hn hedge
    rw [htarget]
    exact Graph.contains_of_get? (get?_rung hn (by omega))
  arms := by
    intro block hmem
    obtain ⟨i, -, rfl⟩ := (mem_blocks hn).1 hmem
    rcases kind_cases n i with ⟨hkind, -⟩ | ⟨child, hkind⟩ | hkind <;>
    · rw [hkind]
      trivial
  worded := by
    intro block hmem
    obtain ⟨i, -, rfl⟩ := (mem_blocks hn).1 hmem
    rcases kind_cases n i with ⟨hkind, -⟩ | ⟨child, hkind⟩ | hkind
    · rw [hkind]
      trivial
    · rw [hkind]
      exact ⟨'t', by decide, by decide⟩
    · rw [hkind]
      trivial
  acyclic := acyclic hn

/-- The ladder as a valid graph. -/
def validLadder : ValidGraph where
  graph := ladder n hn
  entry := (rung n 0).id
  valid := Graph.violations_eq_nil_iff.2 (wellFormed hn)
  entry_eq := Graph.entry?_eq_some_iff.2 (beginsAt hn)

theorem unfold_rung (hi : i < n + 2) : (validLadder hn).unfold (some (UInt32.ofNat i)) =
    .node (rung n i) fun slot => (validLadder hn).unfold ((rung n i).target? slot) :=
  ValidGraph.unfold_some (get?_rung hn hi)

/-- From the end of the ladder backwards, the visits double with every loop: its body is one walk
over the rungs that come after it, and what follows it is another. -/
theorem two_pow_le_visits (k level : Nat) (hk : k ≤ n) :
    2 ^ k ≤ (((validLadder hn).unfold (some (UInt32.ofNat (n + 1 - k)))).visits level).length := by
  induction k generalizing level with
  | zero =>
    rw [unfold_rung hn (by omega), Unfolding.visits, List.length_cons]
    omega
  | succ k ih =>
    -- the loop that comes before the last k leads to the first of them by both of its links
    have hnext : n + 1 - (k + 1) + 1 = n + 1 - k := by omega
    have hrung : rung n (n + 1 - (k + 1)) =
        ⟨UInt32.ofNat (n + 1 - (k + 1)), some (UInt32.ofNat (n + 1 - k)),
          .loop "true" (some (UInt32.ofNat (n + 1 - k))), .nil⟩ := by
      unfold rung
      rw [hnext, if_pos (by omega), if_neg (by omega), if_pos (by omega)]
    have hbody := ih (level + 1) (by omega)
    have hrest := ih level (by omega)
    rw [unfold_rung hn (by omega), Unfolding.visits, List.length_cons, hrung]
    simp only [Slot.inOrder, List.flatMap_cons, List.flatMap_nil, List.length_append,
      Block.target?, Block.levelOf, Block.nests, Block.isStart, if_true, Bool.false_eq_true,
      if_false]
    rw [Nat.pow_succ]
    omega

/-- The start block leads to the first loop, so the whole program has all the visits of that. -/
theorem two_pow_le_visits_validLadder : 2 ^ n ≤ (validLadder hn).visits.length := by
  have hfirst := two_pow_le_visits hn n 1 (Nat.le_refl n)
  have hzero : rung n 0 = ⟨UInt32.ofNat 0, some (UInt32.ofNat 1), .start, .nil⟩ := by
    unfold rung
    rw [if_pos (Nat.zero_le n), if_pos rfl]
  rw [Nat.add_sub_cancel_left] at hfirst
  have htree : (validLadder hn).tree =
      .node (rung n 0) fun slot => (validLadder hn).unfold ((rung n 0).target? slot) :=
    unfold_rung hn (by omega)
  rw [ValidGraph.visits_eq, htree, Unfolding.visits, List.length_cons, hzero]
  simp only [Slot.inOrder, List.flatMap_cons, List.flatMap_nil, List.length_append, Block.target?,
    Block.levelOf, Block.nests, Block.isStart, if_true, Nat.zero_add]
  omega

end Ladder

/-! ## The whole run -/

/-- Emission of a valid graph comes to an end: some number of steps, within the bound, leads to a
state without a next step, and that is the state that it is driven to. The program is read off that
state, whatever the width of a level. On the way a link that is next on the stack leads to a block.

How many steps there are depends on more than the number of blocks: there are graphs of any size, as
far as the ids suffice, whose runs have a number of steps that is exponential in it. -/
theorem Emission.run_terminates :
    (∀ valid : ValidGraph,
      (∃ n ≤ Emission.bound valid.graph,
        Takes (Emission.step? valid.graph) n (.start (some valid.entry))
            (Emission.run valid.graph valid.entry) ∧
          Emission.step? valid.graph (Emission.run valid.graph valid.entry) = none ∧
          ∀ m emission, Takes (Emission.step? valid.graph) m (.start (some valid.entry)) emission →
            m ≤ n) ∧
      (∀ width, valid.program width = String.join
        ((Emission.run valid.graph valid.entry).placed.reverse.map (Placed.text width))) ∧
      ∀ n emission id level rest,
        Takes (Emission.step? valid.graph) n (.start (some valid.entry)) emission →
          emission.pending = .chain (some id) level :: rest → valid.graph.contains id = true) ∧
    ∀ n, n + 2 ≤ UInt32.size → ∃ valid : ValidGraph, valid.graph.size = n + 2 ∧
      ∀ m, Takes (Emission.step? valid.graph) m (.start (some valid.entry))
        (Emission.run valid.graph valid.entry) → 2 ^ n ≤ m := by
  refine ⟨fun valid => ⟨?_, fun width => rfl, ?_⟩, ?_⟩
  · obtain ⟨n, hn, htakes⟩ := valid.takes_start
    rw [valid.run_eq]
    exact ⟨n, hn, htakes, rfl, fun m emission hm => htakes.le_of_done rfl hm⟩
  · intro n emission id level rest htakes hpending
    have hresolved : Emission.Resolved valid.graph emission :=
      htakes.preserves (fun _ _ h hstep => h.step valid.closed hstep)
        (Emission.resolved_start valid.resolves_entry)
    refine Graph.resolves_some.1 (hresolved (some id) level ?_)
    rw [hpending]
    exact List.mem_cons_self
  · intro n hn
    refine ⟨Ladder.validLadder hn, ?_, fun m htakes => ?_⟩
    · show ((List.range (n + 2)).map (Ladder.rung n)).length = n + 2
      rw [List.length_map, List.length_range]
    · have hvisits := Emission.visits_length_le_of_takes htakes
      have hpower := Ladder.two_pow_le_visits_validLadder hn
      rw [ValidGraph.visits, List.length_reverse] at hpower
      rw [Emission.start, List.length_nil, Nat.zero_add] at hvisits
      exact hpower.trans hvisits

end BlockDiagram
