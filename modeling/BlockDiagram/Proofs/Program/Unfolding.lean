/-
What a valid graph unfolds to.

The blocks of a graph name each other, and a block that several references lead to is there once. A
program knows nothing of that: every reference stands for a text of its own, nested where the
reference is. Between the two lies the tree that the graph unfolds to. It exists because no block
leads back to itself, and it may be far larger than the graph. Nothing computes with it; it is what
the program of a graph is compared with, and the proofs about emission go by induction on it.

A link that leads to a block is followed down by the height of that block, so what holds of a block
whenever it holds of everything that the block refers to, holds of every link of a valid graph.
-/
import BlockDiagram.Program.Emission
import BlockDiagram.Proofs.Validation.Acceptance

set_option autoImplicit false

namespace BlockDiagram

open Relation

/-! ## Links -/

namespace Graph

variable {graph : Graph}

/-- Whether a link leads to a block, if it leads anywhere. -/
def Resolves (graph : Graph) (link : Option BlockId) : Prop :=
  ∀ id ∈ link, graph.contains id = true

theorem resolves_none : graph.Resolves none := by
  intro id hid
  cases hid

theorem resolves_some {id : BlockId} : graph.Resolves (some id) ↔ graph.contains id = true := by
  constructor
  · intro h
    exact h id rfl
  · rintro h _ ⟨⟩
    exact h

theorem Closed.resolves_target? (h : graph.Closed) {id : BlockId} {block : Block}
    (hget : graph.get? id = some block) (slot : Slot) : graph.Resolves (block.target? slot) := by
  intro target htarget
  exact h ⟨id, slot, target⟩ (edge_iff.2 ⟨block, hget, htarget⟩)

/-- How many blocks can lie on the way down from a link. -/
noncomputable def rank (graph : Graph) : Option BlockId → Nat
  | none => 0
  | some id => graph.height id + 1

theorem Acyclic.rank_le_size (h : graph.Acyclic) {link : Option BlockId}
    (hlink : graph.Resolves link) : graph.rank link ≤ graph.size := by
  cases link with
  | none => exact Nat.zero_le _
  | some id => exact h.height_lt_size (resolves_some.1 hlink)

end Graph

namespace ValidGraph

theorem closed (valid : ValidGraph) : valid.graph.Closed := valid.wellFormed.closed

theorem acyclic (valid : ValidGraph) : valid.graph.Acyclic := valid.wellFormed.acyclic

theorem get?_entry (valid : ValidGraph) :
    ∃ block, valid.graph.get? valid.entry = some block ∧ block.kind = .start := by
  obtain ⟨block, hmem, hid, hkind⟩ := valid.beginsAt_entry.1
  exact ⟨block, Graph.get?_eq_some_iff.2 ⟨hmem, hid⟩, hkind⟩

/-- Every slot of a block leads to something lower. -/
theorem rank_target?_lt (valid : ValidGraph) {id : BlockId} {block : Block}
    (hget : valid.graph.get? id = some block) (slot : Slot) :
    valid.graph.rank (block.target? slot) < valid.graph.rank (some id) := by
  cases htarget : block.target? slot with
  | none => exact Nat.succ_pos _
  | some target =>
    have hedge : ⟨id, slot, target⟩ ∈ valid.graph.edges :=
      Graph.edge_iff.2 ⟨block, hget, htarget⟩
    have hlt := valid.acyclic.height_lt ⟨slot, hedge⟩ (valid.closed _ hedge)
    exact Nat.succ_lt_succ hlt

theorem resolves_of_get? (valid : ValidGraph) {id : BlockId} {block : Block}
    (hget : valid.graph.get? id = some block) : valid.graph.Resolves (some id) :=
  Graph.resolves_some.2 (Graph.contains_of_get? hget)

theorem resolves_target? (valid : ValidGraph) {id : BlockId} {block : Block}
    (hget : valid.graph.get? id = some block) (slot : Slot) :
    valid.graph.Resolves (block.target? slot) :=
  valid.closed.resolves_target? hget slot

theorem resolves_entry (valid : ValidGraph) : valid.graph.Resolves (some valid.entry) := by
  obtain ⟨block, hget, -⟩ := valid.get?_entry
  exact valid.resolves_of_get? hget

/-- What holds of the link that leads nowhere, and of a link to a block whenever it holds of the
slots of that block, holds of every link that leads to a block. -/
@[elab_as_elim]
theorem link_induction (valid : ValidGraph)
    {motive : (link : Option BlockId) → valid.graph.Resolves link → Prop}
    (nothing : motive none Graph.resolves_none)
    (block : ∀ (id : BlockId) (block : Block) (hget : valid.graph.get? id = some block),
      (∀ slot, motive (block.target? slot) (valid.resolves_target? hget slot)) →
        motive (some id) (valid.resolves_of_get? hget))
    (link : Option BlockId) (hlink : valid.graph.Resolves link) : motive link hlink := by
  cases link with
  | none => exact nothing
  | some id =>
    obtain ⟨found, hget⟩ := Graph.get?_of_contains (Graph.resolves_some.1 hlink)
    apply block id found hget
    intro slot
    have hlt := valid.rank_target?_lt hget slot
    exact valid.link_induction nothing block _ _
termination_by valid.graph.rank link

end ValidGraph

/-! ## Trees -/

/-- What a link of a graph unfolds to: nothing, or a block with what each of its slots unfolds
to. -/
inductive Unfolding where
  | nothing
  | node (block : Block) (branch : Slot → Unfolding)

/-- The tree that a link unfolds to. -/
def ValidGraph.unfold (valid : ValidGraph) (link : Option BlockId) : Unfolding :=
  match link with
  | none => .nothing
  | some id =>
    match hget : valid.graph.get? id with
    | none => .nothing
    | some block =>
      .node block fun slot =>
        have _ := valid.rank_target?_lt hget slot
        valid.unfold (block.target? slot)
termination_by valid.graph.rank link

namespace ValidGraph

variable {valid : ValidGraph}

@[simp] theorem unfold_none : valid.unfold none = .nothing := by
  rw [unfold]

theorem unfold_some {id : BlockId} {block : Block} (hget : valid.graph.get? id = some block) :
    valid.unfold (some id) = .node block fun slot => valid.unfold (block.target? slot) := by
  rw [unfold]
  split
  · rename_i hnone
    rw [hget] at hnone
    cases hnone
  · rename_i found hfound
    rw [hget, Option.some.injEq] at hfound
    rw [hfound]

end ValidGraph

/-! ## The program of a tree -/

/-- Whether what a slot leads to is nested in the block. Only what is next is not, and even that is
when the block begins the program. -/
def Block.nests (block : Block) : Slot → Bool
  | .next => block.isStart
  | _ => true

/-- The level of what a slot of a block leads to, given the level of the block. -/
def Block.levelOf (block : Block) (slot : Slot) (level : Nat) : Nat :=
  if block.nests slot then level + 1 else level

/-- The slots in the order in which emission follows them. -/
def Slot.inOrder : List Slot := [.child, .ifTrue, .ifFalse, .next]

namespace Unfolding

/-- The blocks of a tree with their levels, in the order of the program. -/
def visits : Unfolding → Nat → List Visit
  | .nothing, _ => []
  | .node block branch, level =>
    ⟨block.id, level⟩ ::
      Slot.inOrder.flatMap fun slot => (branch slot).visits (block.levelOf slot level)

/-- The fragments of what follows a block, with the line break before it. -/
def sequel (level : Nat) (tree : Unfolding) (placed : List Placed) : List Placed :=
  match tree with
  | .nothing => []
  | .node .. => ⟨.lineBreak, level⟩ :: placed

/-- The fragments of a tree, in the order of the program. -/
def placed : Unfolding → Nat → List Placed
  | .nothing, _ => []
  | .node block branch, level =>
    let here (fragment : Fragment) : List Placed := [⟨fragment, level⟩]
    let body (slot : Slot) : List Placed := (branch slot).placed (level + 1)
    let sequel : List Placed := sequel level (branch .next) ((branch .next).placed level)
    match block.kind with
    | .start => here .programHead ++ body .next ++ here .programTail
    | .loop condition _ => here (.loopHead condition) ++ body .child ++ here .bodyTail ++ sequel
    | .conditional condition _ _ =>
      here (.armsHead condition) ++ body .ifTrue ++ here .armsBridge ++ body .ifFalse ++
        here .bodyTail ++ sequel
    | .read name pin => here (.readPin name pin) ++ sequel
    | .write pin value => here (.setPin pin value) ++ sequel
    | .sleep length => here (.wait length) ++ sequel
    | .code text => here (.verbatim text) ++ sequel
    | .declare name => here (.integer name) ++ sequel

end Unfolding

end BlockDiagram
