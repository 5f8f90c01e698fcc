/-
References as a relation.

A block refers to others by its slots, and the edges of a graph are these references in a row. What
is said about validation and emission is said about the relation below: one block refers to
another, leads to another along several references, leads back to itself. The relation forgets the
slots, and where only some of the references count it is taken along those.

In a graph in which no block leads back to itself, the number of blocks that a block leads to goes
down along every reference. This is the height of a block. It takes the place of a nesting depth,
which a diagram does not have on its own, in every argument that follows the references down.
-/
import BlockDiagram.Graph.Basic
import Mathlib

set_option autoImplicit false

namespace BlockDiagram

open Relation

/-! ## Slots of a block -/

/-- The block that a slot refers to. Slots that the kind of a block does not have refer to none. -/
def Block.target? (block : Block) : Slot → Option BlockId
  | .next => block.next
  | .child =>
    match block.kind with
    | .loop _ child => child
    | _ => none
  | .ifTrue =>
    match block.kind with
    | .conditional _ ifTrue _ => ifTrue.target?
    | _ => none
  | .ifFalse =>
    match block.kind with
    | .conditional _ _ ifFalse => ifFalse.target?
    | _ => none

theorem Block.isStart_iff {block : Block} : block.isStart = true ↔ block.kind = .start := by
  unfold Block.isStart
  cases block.kind <;> simp

/-- A slot contributes the reference that fills it. -/
theorem Block.mem_reference? {slot other : Slot} {target : Option BlockId} {id : BlockId} :
    (other, id) ∈ Block.reference? slot target ↔ other = slot ∧ target = some id := by
  cases target with
  | none => simp [Block.reference?]
  | some filled =>
    simp only [Block.reference?, Option.map_some, Option.toList_some, List.mem_singleton,
      Prod.mk.injEq, Option.some.injEq]
    constructor
    · rintro ⟨hslot, hid⟩
      exact ⟨hslot, hid.symm⟩
    · rintro ⟨hslot, hid⟩
      exact ⟨hslot, hid.symm⟩

/-- The references of a block are its filled slots. -/
theorem Block.mem_references {block : Block} {slot : Slot} {id : BlockId} :
    (slot, id) ∈ block.references ↔ block.target? slot = some id := by
  rw [Block.references, List.mem_append, Block.mem_reference?]
  cases hkind : block.kind <;> cases slot <;>
    simp [Block.target?, hkind, Block.mem_reference?]

/-- A slot holds one reference at most, so no reference occurs twice in a block. -/
theorem Block.references_nodup (block : Block) : block.references.Nodup := by
  have hone (slot : Slot) (target : Option BlockId) : (Block.reference? slot target).Nodup := by
    cases target <;> simp [Block.reference?]
  have happart {slot other : Slot} (hne : slot ≠ other) (target target' : Option BlockId) :
      (Block.reference? slot target).Disjoint (Block.reference? other target') := by
    rintro ⟨s, id⟩ hs hs'
    rw [Block.mem_reference?] at hs hs'
    exact hne (hs.1.symm.trans hs'.1)
  rw [Block.references]
  cases hkind : block.kind with
  | loop condition child =>
    exact (hone _ _).append (hone _ _) (happart (by decide) _ _)
  | conditional condition ifTrue ifFalse =>
    refine (hone _ _).append ((hone _ _).append (hone _ _) (happart (by decide) _ _)) ?_
    rw [List.disjoint_append_right]
    exact ⟨happart (by decide) _ _, happart (by decide) _ _⟩
  | _ => simpa using hone _ _

/-- The number of a slot in the order in which a block lists its references. -/
def Slot.rank : Slot → Nat
  | .next => 0
  | .child => 1
  | .ifTrue => 2
  | .ifFalse => 3

/-- A block lists its references in the order of their slots. -/
theorem Block.references_pairwise (block : Block) :
    block.references.Pairwise fun a b => a.1.rank < b.1.rank := by
  have hone (slot : Slot) (link : Option BlockId) :
      (Block.reference? slot link).Pairwise fun a b => a.1.rank < b.1.rank := by
    cases link <;> simp [Block.reference?]
  have hslot {slot : Slot} {link : Option BlockId} {a : Slot × BlockId}
      (h : a ∈ Block.reference? slot link) : a.1 = slot :=
    (Block.mem_reference?.1 h).1
  unfold Block.references
  refine List.pairwise_append.2 ⟨hone _ _, ?_, ?_⟩
  · cases block.kind with
    | loop condition child => exact hone _ _
    | conditional condition ifTrue ifFalse =>
      refine List.pairwise_append.2 ⟨hone _ _, hone _ _, fun a ha b hb => ?_⟩
      rw [hslot ha, hslot hb]
      decide
    | _ => exact List.Pairwise.nil
  · intro a ha b hb
    rw [hslot ha]
    cases hkind : block.kind with
    | loop condition child =>
      rw [hkind] at hb
      rw [hslot hb]
      decide
    | conditional condition ifTrue ifFalse =>
      rw [hkind] at hb
      rcases List.mem_append.1 hb with hb | hb <;> rw [hslot hb] <;> decide
    | _ =>
      rw [hkind] at hb
      cases hb

/-! ## Edges -/

/-- The relation between blocks that some of the references make up. -/
def Along (edges : Edge → Prop) (a b : BlockId) : Prop :=
  ∃ slot, edges ⟨a, slot, b⟩

theorem Along.mono {edges edges' : Edge → Prop} (h : ∀ edge, edges edge → edges' edge) :
    Along edges ≤ Along edges' :=
  fun _ _ ⟨slot, hedge⟩ => ⟨slot, h _ hedge⟩

namespace Graph

variable {graph : Graph}

/-- An edge is a filled slot of a block of the graph. -/
theorem edge_iff {a b : BlockId} {slot : Slot} :
    ⟨a, slot, b⟩ ∈ graph.edges ↔
      ∃ block, graph.get? a = some block ∧ block.target? slot = some b := by
  rw [mem_edges_iff]
  constructor
  · rintro ⟨block, hmem, hid, href⟩
    exact ⟨block, get?_eq_some_iff.2 ⟨hmem, hid⟩, Block.mem_references.1 href⟩
  · rintro ⟨block, hget, htarget⟩
    obtain ⟨hmem, hid⟩ := get?_eq_some_iff.1 hget
    exact ⟨block, hmem, hid, Block.mem_references.2 htarget⟩

/-- The edges of a graph go block by block, and within a block in the order of slots. -/
theorem edges_ascending (graph : Graph) :
    graph.edges.Pairwise fun a b =>
      a.source < b.source ∨ a.source = b.source ∧ a.slot.rank < b.slot.rank := by
  unfold edges
  rw [List.pairwise_flatMap]
  constructor
  · intro block _
    rw [List.pairwise_map]
    apply block.references_pairwise.imp
    intro a b hlt
    exact .inr ⟨rfl, hlt⟩
  · apply graph.ascending.imp
    intro block block' hlt a ha b hb
    obtain ⟨_, -, rfl⟩ := List.mem_map.1 ha
    obtain ⟨_, -, rfl⟩ := List.mem_map.1 hb
    exact .inl hlt

theorem contains_of_get? {id : BlockId} {block : Block} (h : graph.get? id = some block) :
    graph.contains id = true := by
  rw [contains, h]
  rfl

theorem get?_of_contains {id : BlockId} (h : graph.contains id = true) :
    ∃ block, graph.get? id = some block := by
  rw [contains, Option.isSome_iff_exists] at h
  exact h

theorem get?_eq_none_iff {id : BlockId} :
    graph.get? id = none ↔ ∀ block ∈ graph.blocks, block.id ≠ id := by
  simp [get?, findById, List.find?_eq_none]

/-- The start blocks are the blocks that say so. -/
theorem mem_starts {id : BlockId} :
    id ∈ graph.starts ↔ ∃ block ∈ graph.blocks, block.id = id ∧ block.kind = .start := by
  rw [starts, List.mem_map]
  constructor
  · rintro ⟨block, hblock, hid⟩
    rw [List.mem_filter] at hblock
    exact ⟨block, hblock.1, hid, Block.isStart_iff.1 hblock.2⟩
  · rintro ⟨block, hmem, hid, hkind⟩
    exact ⟨block, List.mem_filter.2 ⟨hmem, Block.isStart_iff.2 hkind⟩, hid⟩

theorem mem_starts_iff {id : BlockId} {block : Block} (h : graph.get? id = some block) :
    id ∈ graph.starts ↔ block.isStart = true := by
  rw [mem_starts, Block.isStart_iff]
  constructor
  · rintro ⟨other, hmem, hid, hkind⟩
    have hget : graph.get? id = some other := get?_eq_some_iff.2 ⟨hmem, hid⟩
    rw [h, Option.some.injEq] at hget
    rw [hget]
    exact hkind
  · intro hkind
    obtain ⟨hmem, hid⟩ := get?_eq_some_iff.1 h
    exact ⟨block, hmem, hid, hkind⟩

/-- Whether a block refers to another, by whichever slot. -/
def Refers (graph : Graph) : BlockId → BlockId → Prop :=
  Along fun edge => edge ∈ graph.edges

theorem Refers.contains {a b : BlockId} (h : graph.Refers a b) : graph.contains a = true := by
  obtain ⟨slot, hedge⟩ := h
  obtain ⟨block, hget, -⟩ := edge_iff.1 hedge
  exact contains_of_get? hget

/-- Whether a block refers to another one that exists. A reference into the void refers without
linking. -/
def Links (graph : Graph) : BlockId → BlockId → Prop :=
  Along fun edge => edge ∈ graph.edges ∧ graph.contains edge.target = true

/-- Whether every reference leads to a block. -/
def Closed (graph : Graph) : Prop :=
  ∀ edge ∈ graph.edges, graph.contains edge.target = true

/-- Whether no block leads back to itself, by one reference or several. -/
def Acyclic (graph : Graph) : Prop :=
  ∀ id, ¬ TransGen graph.Refers id id

/-! ## Height -/

open Classical in
/-- The number of blocks that a block leads to. -/
noncomputable def height (graph : Graph) (id : BlockId) : Nat :=
  (graph.ids.toFinset.filter fun other => TransGen graph.Refers id other).card

/-- Along a reference the height goes down: what the target leads to, the source leads to as well,
and the source leads to the target besides, which does not lead to itself. -/
theorem Acyclic.height_lt (h : graph.Acyclic) {a b : BlockId} (hab : graph.Refers a b)
    (hb : graph.contains b = true) : graph.height b < graph.height a := by
  classical
  apply Finset.card_lt_card
  rw [Finset.ssubset_iff_of_subset]
  · refine ⟨b, ?_, ?_⟩
    · rw [Finset.mem_filter, List.mem_toFinset]
      exact ⟨contains_iff.1 hb, .single hab⟩
    · rw [Finset.mem_filter]
      exact fun hcycle => h b hcycle.2
  · intro other hother
    rw [Finset.mem_filter] at hother ⊢
    exact ⟨hother.1, .head hab hother.2⟩

/-- A block leads to fewer blocks than there are, since it does not lead to itself. -/
theorem Acyclic.height_lt_size (h : graph.Acyclic) {id : BlockId}
    (hid : graph.contains id = true) : graph.height id < graph.size := by
  classical
  have hlt : graph.height id < graph.ids.toFinset.card := by
    apply Finset.card_lt_card
    rw [Finset.filter_ssubset]
    exact ⟨id, List.mem_toFinset.2 (contains_iff.1 hid), h id⟩
  have hle : graph.ids.toFinset.card ≤ graph.ids.length := graph.ids.toFinset_card_le
  have hsize : graph.ids.length = graph.size := by rw [ids, size, List.length_map]
  omega

/-! ## What a walk has not come to

A walk over a graph is bounded by what lies ahead of it: the blocks that it has not come to, each
with the work that it makes. -/

/-- The weight of the blocks that lie ahead. -/
def ahead (graph : Graph) (weight : Block → Nat) (unmet : BlockId → Bool) : Nat :=
  ((graph.blocks.filter fun block => unmet block.id).map weight).sum

/-- A walk that makes a step for each block and one for each of its references has the edges and the
blocks of the whole graph ahead of it before it begins. -/
theorem ahead_all (graph : Graph) :
    graph.ahead (fun block => block.references.length + 1) (fun _ => true) =
      graph.edges.length + graph.size := by
  rw [ahead, List.filter_true, edges, size, List.length_flatMap, List.sum_map_add, List.map_const',
    List.sum_replicate, smul_eq_mul, Nat.mul_one]
  simp only [List.length_map]

/-- Two walks that have the same blocks ahead of them have the same weight ahead. -/
theorem ahead_congr {weight : Block → Nat} {unmet unmet' : BlockId → Bool}
    (h : ∀ id, graph.contains id = true → unmet id = unmet' id) :
    graph.ahead weight unmet = graph.ahead weight unmet' := by
  have hfilter : (graph.blocks.filter fun block => unmet block.id)
      = graph.blocks.filter fun block => unmet' block.id := by
    refine List.filter_congr fun block hmem => h block.id ?_
    exact contains_of_get? (get?_eq_some_iff.2 ⟨hmem, rfl⟩)
  rw [ahead, ahead, hfilter]

/-- Coming to a block takes the weight of that block off what lies ahead, and no more, since the
block occurs once in the graph. -/
theorem ahead_eq_add (weight : Block → Nat) (unmet : BlockId → Bool) {id : BlockId}
    {block : Block} (hget : graph.get? id = some block) (hunmet : unmet id = true) :
    graph.ahead weight unmet =
      graph.ahead weight (fun other => unmet other && other != id) + weight block := by
  obtain ⟨hmem, rfl⟩ := get?_eq_some_iff.1 hget
  -- nothing before or after the block has its id, so taking the id out changes neither part
  obtain ⟨before, after, hsplit⟩ := List.append_of_mem hmem
  have hascending := graph.ascending
  rw [hsplit, Ascending, List.pairwise_append, List.pairwise_cons] at hascending
  obtain ⟨-, ⟨hafter, -⟩, hbefore⟩ := hascending
  have hsame (part : List Block) (hpart : ∀ other ∈ part, other.id ≠ block.id) :
      (part.filter fun other => unmet other.id && other.id != block.id)
        = part.filter fun other => unmet other.id := by
    refine List.filter_congr fun other hother => ?_
    rw [bne_iff_ne.2 (hpart other hother), Bool.and_true]
  have hbefore' := hsame before fun other hother hid =>
    UInt32.lt_irrefl _ (hid ▸ hbefore other hother block List.mem_cons_self)
  have hafter' := hsame after fun other hother hid =>
    UInt32.lt_irrefl _ (hid ▸ hafter other hother)
  simp only [ahead, hsplit, List.filter_append, List.filter_cons, hunmet, hbefore', hafter',
    bne_self_eq_false, Bool.and_false, if_true, Bool.false_eq_true, if_false, List.map_append,
    List.map_cons, List.sum_append, List.sum_cons]
  omega

end Graph

end BlockDiagram
