/-
The program as a recursion.

How a program is laid out is told by recursion on the diagram: the text of a link is the text of the
block that it leads to, followed by the text of the next link; the text of a compound statement has
the texts of its bodies inside. This file writes the recursion down as the equations that it
consists of, for texts of links and texts of blocks at any level, and shows that the program which
emission puts together from its stack is the text that the equations give to the entry.

The equations are taken as they stand, as conditions on two families of texts, and not as the
definition of a function. On a graph with cycles they need not have a solution, nor a single one;
on a valid graph there is a solution, and every solution agrees with it wherever a link leads to a
block.
-/
import BlockDiagram.Compilation
import BlockDiagram.Proofs.Program.Run

set_option autoImplicit false

namespace BlockDiagram

/-- The fragment of a kind whose statement is a single one. -/
def BlockKind.leaf? : BlockKind → Option Fragment
  | .read name pin => some (.readPin name pin)
  | .write pin value => some (.setPin pin value)
  | .sleep length => some (.wait length)
  | .code text => some (.verbatim text)
  | .declare name => some (.integer name)
  | _ => none

/-! ## The equations -/

/-- Texts for the links of a graph and for its blocks, at every level, that satisfy the equations of
the recursion. A fragment at a level is indented by as many spaces as the width says, for each
level. -/
structure Recursion (graph : Graph) (width : UInt64) where
  /-- The text of the statements that begin at a link. -/
  chain : Option BlockId → Nat → String
  /-- The text of the statement that a block is. -/
  statement : Block → Nat → String
  /-- A link that leads nowhere has no text. -/
  nowhere (level : Nat) : chain none level = ""
  /-- A start block is the program around what comes next, which is nested in it. -/
  program {id : BlockId} {block : Block} (level : Nat) (hget : graph.get? id = some block)
    (hkind : block.kind = .start) :
    chain (some id) level =
      Fragment.programHead.text (indentation width level) ++ chain block.next (level + 1) ++
        Fragment.programTail.text (indentation width level)
  /-- Any other block without a `next` link is a statement on its own. -/
  last {id : BlockId} {block : Block} (level : Nat) (hget : graph.get? id = some block)
    (hkind : block.kind ≠ .start) (hnext : block.next = none) :
    chain (some id) level = statement block level
  /-- Any other block with a `next` link is followed by a line break and what comes next, at its own
  level. -/
  sequel {id next : BlockId} {block : Block} (level : Nat) (hget : graph.get? id = some block)
    (hkind : block.kind ≠ .start) (hnext : block.next = some next) :
    chain (some id) level = statement block level ++ "\n" ++ chain (some next) level
  /-- A loop is its head, its body and its tail. -/
  loop {block : Block} {condition : String} {child : Option BlockId} (level : Nat)
    (hkind : block.kind = .loop condition child) :
    statement block level =
      (Fragment.loopHead condition).text (indentation width level) ++ chain child (level + 1) ++
        Fragment.bodyTail.text (indentation width level)
  /-- A conditional is its head, its first arm, the bridge, its second arm and its tail. -/
  conditional {block : Block} {condition : String} {ifTrue ifFalse : Arm} (level : Nat)
    (hkind : block.kind = .conditional condition ifTrue ifFalse) :
    statement block level =
      (Fragment.armsHead condition).text (indentation width level) ++
        chain ifTrue.target? (level + 1) ++ Fragment.armsBridge.text (indentation width level) ++
        chain ifFalse.target? (level + 1) ++ Fragment.bodyTail.text (indentation width level)
  /-- Every other block is one fragment. -/
  leaf {block : Block} {fragment : Fragment} (level : Nat)
    (hkind : block.kind.leaf? = some fragment) :
    statement block level = fragment.text (indentation width level)

/-! ## A solution -/

namespace ValidGraph

variable {valid : ValidGraph} {width : UInt64}

/-- The text of the tree of a link. -/
def chainText (valid : ValidGraph) (width : UInt64) (link : Option BlockId) (level : Nat) :
    String :=
  rowText width ((valid.unfold link).placed level)

/-- The text of the parts that a block turns into. -/
def statementText (valid : ValidGraph) (width : UInt64) (block : Block) (level : Nat) : String :=
  rowText width ((block.parts level).flatMap
    (Pending.placed fun link level => (valid.unfold link).placed level))

theorem chainText_none (level : Nat) : valid.chainText width none level = "" := by
  rw [chainText, unfold_none, Unfolding.placed, rowText_nil]

theorem chainText_some {id : BlockId} {block : Block} (hget : valid.graph.get? id = some block)
    (level : Nat) :
    valid.chainText width (some id) level = valid.statementText width block level ++
      rowText width ((block.following level).flatMap
        (Pending.placed fun link level => (valid.unfold link).placed level)) := by
  rw [chainText, placed_unfold hget, List.flatMap_append, rowText_append]
  rfl

/-- Nothing follows a block that begins the program or has no `next` link. -/
theorem chainText_last {id : BlockId} {block : Block} (hget : valid.graph.get? id = some block)
    (hlast : block.isStart = true ∨ block.next = none) (level : Nat) :
    valid.chainText width (some id) level = valid.statementText width block level := by
  have hnone : block.following level = [] := by
    unfold Block.following
    rcases hlast with h | h <;> simp [h]
  rw [chainText_some hget, hnone, List.flatMap_nil, rowText_nil, String.append_empty]

theorem chainText_sequel {id next : BlockId} {block : Block}
    (hget : valid.graph.get? id = some block) (hkind : block.kind ≠ .start)
    (hnext : block.next = some next) (level : Nat) :
    valid.chainText width (some id) level =
      valid.statementText width block level ++ "\n" ++ valid.chainText width (some next) level := by
  have hstart : block.isStart = false := by
    rw [← Bool.not_eq_true, Block.isStart_iff]
    exact hkind
  have hfollowing : block.following level =
      [.fragment ⟨.lineBreak, level⟩, .chain (some next) level] := by
    simp [Block.following, hstart, hnext]
  have hbreak : rowText width [⟨.lineBreak, level⟩] = "\n" := by
    rw [rowText_cons, rowText_nil, String.append_empty]
    rfl
  rw [chainText_some hget, hfollowing, List.flatMap_cons, List.flatMap_singleton, rowText_append,
    String.append_assoc, ← hbreak]
  rfl

/-- The texts of the trees of a valid graph satisfy the equations. -/
def recursion (valid : ValidGraph) (width : UInt64) : Recursion valid.graph width where
  chain := valid.chainText width
  statement := valid.statementText width
  nowhere := chainText_none
  program level hget hkind := by
    rw [chainText_last hget (.inl (Block.isStart_iff.2 hkind))]
    simp [statementText, Block.parts, hkind, Pending.placed, Placed.text, chainText,
      String.append_assoc]
  last level hget _ hnext := chainText_last hget (.inr hnext) level
  sequel level hget hkind hnext := chainText_sequel hget hkind hnext level
  loop level hkind := by
    simp [statementText, Block.parts, hkind, Pending.placed, Placed.text, chainText,
      String.append_assoc]
  conditional level hkind := by
    simp [statementText, Block.parts, hkind, Pending.placed, Placed.text, chainText,
      String.append_assoc]
  leaf {block} {fragment} level hkind := by
    unfold BlockKind.leaf? at hkind
    split at hkind <;> cases hkind <;>
      simp_all [statementText, Block.parts, Pending.placed, Placed.text]

/-! ## No other solution -/

/-- Two solutions agree on the statement of a block as soon as they agree on its bodies. -/
theorem statement_eq {block : Block} {level : Nat} (hkind : block.kind ≠ .start)
    (first second : Recursion valid.graph width)
    (h : ∀ slot, first.chain (block.target? slot) (level + 1) =
      second.chain (block.target? slot) (level + 1)) :
    first.statement block level = second.statement block level := by
  cases hblock : block.kind with
  | start => exact absurd hblock hkind
  | loop condition child =>
    have hchild := h .child
    simp only [Block.target?, hblock] at hchild
    rw [first.loop level hblock, second.loop level hblock, hchild]
  | conditional condition ifTrue ifFalse =>
    have hifTrue := h .ifTrue
    have hifFalse := h .ifFalse
    simp only [Block.target?, hblock] at hifTrue hifFalse
    rw [first.conditional level hblock, second.conditional level hblock, hifTrue, hifFalse]
  | _ =>
    rw [first.leaf level (by rw [hblock]; rfl), second.leaf level (by rw [hblock]; rfl)]

/-- Two solutions agree on every link that leads to a block. -/
theorem chain_eq (first second : Recursion valid.graph width) (link : Option BlockId)
    (hlink : valid.graph.Resolves link) (level : Nat) :
    first.chain link level = second.chain link level := by
  induction link, hlink using valid.link_induction generalizing level with
  | nothing => rw [first.nowhere, second.nowhere]
  | block id block hget ih =>
    by_cases hkind : block.kind = .start
    · have hnext := ih .next (level + 1)
      rw [Block.target?] at hnext
      rw [first.program level hget hkind, second.program level hget hkind, hnext]
    · -- bodies are a level down and what is next is not, so both levels are needed
      have hstatement := statement_eq hkind first second fun slot => ih slot (level + 1)
      cases hnext : block.next with
      | none =>
        rw [first.last level hget hkind hnext, second.last level hget hkind hnext, hstatement]
      | some next =>
        have hrest := ih .next level
        rw [Block.target?, hnext] at hrest
        rw [first.sequel level hget hkind hnext, second.sequel level hget hkind hnext, hstatement,
          hrest]

/-- The equations of the recursion have a solution, and any solution gives the entry at the
outermost level the text of the program. That text is what emission puts together from its stack,
and what compiling the graph gives back. -/
theorem program_eq_recursion (valid : ValidGraph) (width : UInt64) :
    Nonempty (Recursion valid.graph width) ∧
      ∀ recursion : Recursion valid.graph width,
        valid.program width = recursion.chain (some valid.entry) 0 ∧
          Program.ofGraph valid.graph width = .ok (recursion.chain (some valid.entry) 0) := by
  refine ⟨⟨valid.recursion width⟩, fun recursion => ?_⟩
  have hprogram : valid.program width = recursion.chain (some valid.entry) 0 := by
    rw [chain_eq recursion (valid.recursion width) _ valid.resolves_entry, program_eq]
    rfl
  refine ⟨hprogram, ?_⟩
  rw [Program.ofGraph, valid.validated_graph, ← hprogram]

end ValidGraph

end BlockDiagram
