/-
Block graphs.

A graph is a table of blocks in ascending order of id. Each block is stored under the id that it
carries itself, so the table cannot disagree with its entries, and everything that walks a graph
walks it in the same order whatever order the blocks came in.
-/
import BlockDiagram.Graph.Ascending

set_option autoImplicit false

namespace BlockDiagram

/-- A reference together with the block that it comes from. -/
structure Edge where
  source : BlockId
  slot : Slot
  target : BlockId
  deriving DecidableEq, Repr

/-- The blocks of a diagram. -/
structure Graph where
  blocks : List Block
  ascending : Ascending Block.id blocks

namespace Graph

/-! ## Building -/

/-- The graph without blocks. -/
def empty : Graph := ⟨[], List.Pairwise.nil⟩

instance : Inhabited Graph := ⟨empty⟩

/-- The graph with one more block, which takes the place of a block with the same id. -/
def insert (graph : Graph) (block : Block) : Graph :=
  ⟨insertById Block.id block graph.blocks, ascending_insertById block graph.ascending⟩

/-- The graph of a list of blocks; of two with the same id the later one counts. -/
def ofList (blocks : List Block) : Graph :=
  blocks.foldl insert empty

/-! ## Asking -/

/-- The block with an id. -/
def get? (graph : Graph) (id : BlockId) : Option Block :=
  findById Block.id id graph.blocks

/-- Whether there is a block with an id. -/
def contains (graph : Graph) (id : BlockId) : Bool :=
  (graph.get? id).isSome

/-- Insert a block; the block whose place it takes, if there is one, comes back with the graph. -/
def exchange (graph : Graph) (block : Block) : Option Block × Graph :=
  (graph.get? block.id, graph.insert block)

/-- The number of blocks. -/
def size (graph : Graph) : Nat :=
  graph.blocks.length

/-- The ids in ascending order. -/
def ids (graph : Graph) : List BlockId :=
  graph.blocks.map Block.id

/-- The ids of the start blocks in ascending order. -/
def starts (graph : Graph) : List BlockId :=
  (graph.blocks.filter Block.isStart).map Block.id

/-- Where the program begins, if exactly one block says so. -/
def entry? (graph : Graph) : Option BlockId :=
  match graph.starts with
  | [only] => some only
  | _ => none

/-- All references, block by block in ascending order of id. -/
def edges (graph : Graph) : List Edge :=
  graph.blocks.flatMap fun block =>
    block.references.map fun (slot, target) => ⟨block.id, slot, target⟩

/-! ## Laws -/

/-- A block is found under its id, and nothing else is. -/
theorem get?_eq_some_iff {graph : Graph} {id : BlockId} {block : Block} :
    graph.get? id = some block ↔ block ∈ graph.blocks ∧ block.id = id := by
  constructor
  · exact mem_of_findById
  · rintro ⟨h, rfl⟩
    exact findById_of_mem graph.ascending h

/-- There is a block with an id exactly if the id is one of the graph's. -/
theorem contains_iff {graph : Graph} {id : BlockId} :
    graph.contains id = true ↔ id ∈ graph.ids := by
  rw [contains, Option.isSome_iff_exists, ids, List.mem_map]
  simp only [get?_eq_some_iff]

/-- The block inserted last is the one found. -/
@[simp] theorem get?_insert_self (graph : Graph) (block : Block) :
    (graph.insert block).get? block.id = some block :=
  findById_insertById_self Block.id block graph.blocks

/-- Inserting a block does not change what is found under another id. -/
theorem get?_insert_of_ne (graph : Graph) {block : Block} {id : BlockId} (apart : block.id ≠ id) :
    (graph.insert block).get? id = graph.get? id :=
  findById_insertById_of_ne Block.id apart graph.blocks

/-- A graph is determined by what is found in it. -/
theorem ext_get? {g h : Graph} (same : ∀ id, g.get? id = h.get? id) : g = h := by
  have blocks : g.blocks = h.blocks := eq_of_findById g.ascending h.ascending same
  cases g
  cases h
  cases blocks
  rfl

/-- An edge is a reference of one of the blocks. -/
theorem mem_edges_iff {graph : Graph} {edge : Edge} :
    edge ∈ graph.edges ↔
      ∃ block ∈ graph.blocks, block.id = edge.source ∧
        (edge.slot, edge.target) ∈ block.references := by
  simp only [edges, List.mem_flatMap, List.mem_map]
  constructor
  · rintro ⟨block, hb, ⟨slot, target⟩, hr, rfl⟩
    exact ⟨block, hb, rfl, hr⟩
  · rintro ⟨block, hb, hid, hr⟩
    refine ⟨block, hb, (edge.slot, edge.target), hr, ?_⟩
    cases edge
    cases hid
    rfl

end Graph

end BlockDiagram
