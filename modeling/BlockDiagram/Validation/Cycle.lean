/-
References that close a cycle.

A depth-first search goes over the whole graph, from every block in ascending order that an earlier
root did not reach. A block is in progress from when it is entered until all of its references were
followed; the blocks in progress are the ones on the stack. A reference to a block in progress leads
back to a block that it was reached from, and closes a cycle. The search follows each reference once
and finishes each block once, and that is how many steps it takes.
-/
import BlockDiagram.Graph.Basic
import BlockDiagram.Graph.Drive

set_option autoImplicit false

namespace BlockDiagram

/-- How far the search has come with a block that it entered. -/
inductive Mark where
  | inProgress
  | done
  deriving DecidableEq, Repr

namespace Search

/-- A block in progress, with the references that were not followed yet. -/
structure Frame where
  id : BlockId
  left : List (Slot × BlockId)

end Search

/-- The state of the search. Of several marks of a block the first one counts. -/
structure Search where
  /-- Blocks that were not tried as roots yet. -/
  roots : List Block
  /-- The blocks in progress, innermost first. -/
  stack : List Search.Frame
  /-- The marks of the blocks entered so far. -/
  marks : List (BlockId × Mark)
  /-- The references found to close a cycle, in the order of finding. -/
  found : List Edge

namespace Search

/-- The mark of a block. -/
def mark? (search : Search) (id : BlockId) : Option Mark :=
  search.marks.lookup id

/-- Go on to the next root, if the stack is empty and there is one left. -/
def settle (search : Search) : Search :=
  match search.stack with
  | _ :: _ => search
  | [] =>
    match search.roots.dropWhile fun root => (search.mark? root.id).isSome with
    | [] => { search with roots := [] }
    | root :: roots =>
      { search with
        roots
        stack := [⟨root.id, root.references⟩]
        marks := (root.id, .inProgress) :: search.marks }

/-- Before the first step. -/
def start (graph : Graph) : Search :=
  settle ⟨graph.blocks, [], [], []⟩

/-- Follow one reference. A block that was not entered yet is entered; a target that does not exist
is passed over. -/
def follow (graph : Graph) (search : Search) (edge : Edge) : Search :=
  match search.mark? edge.target with
  | some .inProgress => { search with found := search.found ++ [edge] }
  | some .done => search
  | none =>
    match graph.get? edge.target with
    | none => search
    | some block =>
      { search with
        stack := ⟨edge.target, block.references⟩ :: search.stack
        marks := (edge.target, .inProgress) :: search.marks }

/-- Follow the next reference of the innermost block, or finish the block if none is left. -/
def step? (graph : Graph) (search : Search) : Option Search :=
  match search.stack with
  | [] => none
  | ⟨id, []⟩ :: stack =>
    some (settle { search with stack, marks := (id, .done) :: search.marks })
  | ⟨id, (slot, target) :: left⟩ :: stack =>
    some (follow graph { search with stack := ⟨id, left⟩ :: stack } ⟨id, slot, target⟩)

end Search

/-- The number of steps that the search takes: one for each reference and one for each block. -/
def Graph.weight (graph : Graph) : Nat :=
  graph.edges.length + graph.size

/-- The references that close a cycle, in the order in which the search finds them. -/
def Graph.cycleEdges (graph : Graph) : List Edge :=
  (drive (Search.step? graph) graph.weight (Search.start graph)).found

end BlockDiagram
