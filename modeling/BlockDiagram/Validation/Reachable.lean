/-
Blocks that the program can reach.

Reaching starts from the start blocks, several of them if the graph has several, and follows every
reference to a block that exists. Blocks found but not yet expanded wait on a list. Each block is
put there once, when it is first seen, so the list runs dry after as many steps as there are
blocks at most.
-/
import BlockDiagram.Graph.Basic
import BlockDiagram.Graph.Drive

set_option autoImplicit false

namespace BlockDiagram

/-- The blocks seen so far, and those of them whose references were not followed yet. -/
structure Reach where
  pending : List BlockId
  seen : List BlockId

namespace Reach

/-- Begin with the given blocks. -/
def start (ids : List BlockId) : Reach :=
  ⟨ids, ids⟩

/-- Note a block, unless it was seen before or does not exist. -/
def note (graph : Graph) (reach : Reach) (target : BlockId) : Reach :=
  if graph.contains target && !reach.seen.contains target then
    ⟨target :: reach.pending, target :: reach.seen⟩
  else reach

/-- The blocks that a block refers to. -/
def targets (graph : Graph) (id : BlockId) : List BlockId :=
  match graph.get? id with
  | some block => block.references.map Prod.snd
  | none => []

/-- Follow the references of one waiting block. -/
def step? (graph : Graph) (reach : Reach) : Option Reach :=
  match reach.pending with
  | [] => none
  | id :: pending => some ((targets graph id).foldl (note graph) ⟨pending, reach.seen⟩)

end Reach

/-- The ids of the blocks that can be reached from a start block, the start blocks included. -/
def Graph.reachable (graph : Graph) : List BlockId :=
  (drive (Reach.step? graph) graph.size (.start graph.starts)).seen

end BlockDiagram
