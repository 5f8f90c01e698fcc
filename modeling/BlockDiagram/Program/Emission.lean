/-
Emitting a program.

The statements of a program come from the blocks that lie on the way from its entry. What is still
to come is kept on a stack: fragments that are ready, and chains of blocks still to be turned into
fragments. A chain is its first block followed by the chain that its `next` link begins, with a line
break between. A body is one level deeper; what follows along `next` stays where it is. A block that
several references lead to is emitted for each of them, at the level of each.

Emission knows nothing of widths: it places fragments at levels of nesting, and only the text of the
program says how wide a level is.
-/
import BlockDiagram.Graph.Drive
import BlockDiagram.Program.Fragment
import BlockDiagram.Validation.Check

set_option autoImplicit false

namespace BlockDiagram

/-! ## What is still to come -/

/-- Something that is still to come. -/
inductive Pending where
  /-- The statements of the chain that a link begins, none without a link. -/
  | chain (link : Option BlockId) (level : Nat)
  /-- A fragment. -/
  | fragment (placed : Placed)

namespace Block

/-- What a block turns into at a level, without what follows it, in the order of output. -/
def parts (level : Nat) (block : Block) : List Pending :=
  let here (fragment : Fragment) : Pending := .fragment ⟨fragment, level⟩
  let body (link : Option BlockId) : Pending := .chain link (level + 1)
  match block.kind with
  | .start => [here .programHead, body block.next, here .programTail]
  | .loop condition child => [here (.loopHead condition), body child, here .bodyTail]
  | .conditional condition ifTrue ifFalse =>
    [here (.armsHead condition), body ifTrue.target?, here .armsBridge, body ifFalse.target?,
      here .bodyTail]
  | .read name pin => [here (.readPin name pin)]
  | .write pin value => [here (.setPin pin value)]
  | .sleep length => [here (.wait length)]
  | .code text => [here (.verbatim text)]
  | .declare name => [here (.integer name)]

/-- What follows a block. A start block takes what is next into its own body, so nothing does. -/
def following (level : Nat) (block : Block) : List Pending :=
  if block.isStart || block.next.isNone then []
  else [.fragment ⟨.lineBreak, level⟩, .chain block.next level]

end Block

/-! ## The machine -/

/-- One block on the way, at the level of nesting where it was met. -/
structure Visit where
  id : BlockId
  level : Nat
  deriving DecidableEq, Repr

/-- The state of emission. -/
structure Emission where
  /-- What is still to come, next first. -/
  pending : List Pending
  /-- The fragments so far, latest first. -/
  placed : List Placed
  /-- The blocks met so far, latest first. -/
  visits : List Visit

namespace Emission

/-- Before the first step: a chain at the outermost level. -/
def start (link : Option BlockId) : Emission :=
  ⟨[.chain link 0], [], []⟩

/-- Deal with what comes next. A link that leads nowhere is noted as a visit and adds nothing. -/
def step? (graph : Graph) (emission : Emission) : Option Emission :=
  match emission.pending with
  | [] => none
  | .fragment placed :: pending =>
    some { emission with pending, placed := placed :: emission.placed }
  | .chain none _ :: pending => some { emission with pending }
  | .chain (some id) level :: pending =>
    let visits := ⟨id, level⟩ :: emission.visits
    match graph.get? id with
    | none => some { emission with pending, visits }
    | some block =>
      some { emission with
        pending := block.parts level ++ block.following level ++ pending
        visits }

/-- Steps enough for a graph in which no block leads back to itself. A way from the entry meets each
of the blocks once at most, and a block leads on to three chains at most. -/
def bound (graph : Graph) : Nat :=
  5 * Nat.pow 3 graph.size

/-- Emission of the program that begins at a block, run to its end. -/
def run (graph : Graph) (entry : BlockId) : Emission :=
  drive (step? graph) (bound graph) (start (some entry))

end Emission

/-! ## Programs -/

namespace ValidGraph

/-- The fragments of the program, in the order of output. -/
def fragments (valid : ValidGraph) : List Placed :=
  (Emission.run valid.graph valid.entry).placed.reverse

/-- The blocks that the program is made of, in the order in which they are met. -/
def visits (valid : ValidGraph) : List Visit :=
  (Emission.run valid.graph valid.entry).visits.reverse

/-- The program that a valid graph describes. -/
def program (valid : ValidGraph) (width : UInt64) : String :=
  String.join (valid.fragments.map (Placed.text width))

end ValidGraph

end BlockDiagram
