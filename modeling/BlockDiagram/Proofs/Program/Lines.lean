/-
The lines of a program, and how far they are indented.

A program is laid out line by line. Every line stands there for one visit of a block, as a part of
its statement, and is indented as far as the level of the visit says; a body without statements
gets a blank line, which stands for no visit. How wide a level is comes in only when a line is
written down, so one layout serves every width.

A text from the diagram goes into its line as it is, and if it has line feeds, the line comes to
several lines of the program. Only the first of them is indented. The others begin with whatever
the text has behind its line feeds, at every width alike, and this is why the lines of a program
are counted by line feeds here and not by the lines of the layout.
-/
import BlockDiagram.Proofs.Program.Unambiguity

set_option autoImplicit false

namespace BlockDiagram

/-! ## Lines of a text -/

/-- The lines of a row of lines are the lines of each, and an empty one behind the last break. -/
theorem linesOf_linesText (lines : List String) :
    linesOf (linesText lines) = lines.flatMap linesOf ++ [""] := by
  induction lines with
  | nil =>
    rw [linesText_nil, linesOf_eq]
    rfl
  | cons line lines ih =>
    rw [linesText_cons, linesOf_append_break, ih, List.flatMap_cons, List.append_assoc]

/-! ## Lines of the layout -/

/-- A line of the layout: the visit that it stands there for, and what is on it behind the
indentation. -/
structure Line where
  visit : Option Visit
  text : String
  deriving DecidableEq

namespace Line

/-- The line of a body without statements. -/
def blank : Line := ⟨none, ""⟩

/-- How many levels the line is indented. -/
def level (line : Line) : Nat :=
  match line.visit with
  | some visit => visit.level
  | none => 0

/-- The line behind its indentation. -/
def written (width : UInt64) (line : Line) : String :=
  indentation width line.level ++ line.text

/-- The lines of the program that the line comes to: the first is indented, and the others, if the
text has line feeds, are those of the text. -/
def pieces (width : UInt64) (line : Line) : List String :=
  (linesOf line.text).modifyHead (indentation width line.level ++ ·)

/-- How many levels each of these lines is indented. -/
def levels (line : Line) : List Nat :=
  line.level :: List.replicate ((linesOf line.text).length - 1) 0

theorem pieces_eq (width : UInt64) (line : Line) :
    line.pieces width = linesOf (line.written width) :=
  (linesOf_append (Statements.newline_notMem_indentation width line.level) line.text).symm

theorem length_levels (line : Line) : line.levels.length = (linesOf line.text).length := by
  have hpos := List.length_pos_iff.2 (linesOf_ne_nil line.text)
  rw [levels, List.length_cons, List.length_replicate]
  omega

/-- From the lines of the text, each line of the program differs by its indentation only. -/
theorem pieces_eq_zipWith (width : UInt64) (line : Line) :
    line.pieces width = List.zipWith (fun level piece => indentation width level ++ piece)
      line.levels (linesOf line.text) := by
  have hzero (rest : List String) :
      List.zipWith (fun level piece => indentation width level ++ piece)
        (List.replicate rest.length 0) rest = rest := by
    have hnone : indentation width 0 = "" := rfl
    induction rest with
    | nil => rfl
    | cons piece rest ih =>
      rw [List.length_cons, List.replicate_succ, List.zipWith_cons_cons, ih, hnone,
        String.empty_append]
  rw [pieces, levels]
  cases hlines : linesOf line.text with
  | nil => exact absurd hlines (linesOf_ne_nil line.text)
  | cons first rest =>
    rw [List.length_cons, Nat.add_sub_cancel, List.zipWith_cons_cons, hzero]
    rfl

end Line

/-- The lines of a body. Without statements it is one blank line. -/
def orBlankLine : List Line → List Line
  | [] => [.blank]
  | lines => lines

/-! ## The layout -/

/-- A part of a statement as it is laid out. -/
inductive Part where
  /-- A line of the statement itself. A text of the diagram is in it as it is. -/
  | line (text : String)
  /-- The statements that are nested in it, at a slot of the block. -/
  | body (slot : Slot)

namespace Part

/-- The line that a part is, if it is one. -/
def line? : Part → Option String
  | .line text => some text
  | .body _ => none

/-- The slot of the body that a part is, if it is one. -/
def body? : Part → Option Slot
  | .line _ => none
  | .body slot => some slot

/-- The lines of a part, given the visit that the statement is written for and the lines below each
slot. -/
def lines (visit : Visit) (below : Slot → List Line) : Part → List Line
  | .line text => [⟨some visit, text⟩]
  | .body slot => orBlankLine (below slot)

end Part

namespace BlockKind

/-- The parts of the statement of a kind, in the order in which they are laid out. -/
def layout : BlockKind → List Part
  | .start =>
    [.line "void setup() \x7b pinMode(12, OUTPUT); \x7d", .line "void loop()", .line "\x7b",
      .body .next, .line "\x7d"]
  | .loop condition _ =>
    [.line ("while (" ++ condition ++ ")"), .line "\x7b", .body .child, .line "\x7d"]
  | .conditional condition _ _ =>
    [.line ("if (" ++ condition ++ ")"), .line "\x7b", .body .ifTrue, .line "\x7d", .line "else",
      .line "\x7b", .body .ifFalse, .line "\x7d"]
  | .read name pin => [.line ((Fragment.readPin name pin).text "")]
  | .write pin level => [.line ((Fragment.setPin pin level).text "")]
  | .sleep length => [.line ((Fragment.wait length).text "")]
  | .code text => [.line ((Fragment.verbatim text).text "")]
  | .declare name => [.line ((Fragment.integer name).text "")]

/-- The lines of the statement itself, without what is nested in it. -/
def ownLines (kind : BlockKind) : List String :=
  kind.layout.filterMap Part.line?

end BlockKind

/-- The lines of the statement that a visit is written as. -/
def ValidGraph.ownLines (valid : ValidGraph) (visit : Visit) : List Line :=
  match valid.graph.get? visit.id with
  | some block => block.kind.ownLines.map (⟨some visit, ·⟩)
  | none => []

/-- The lines of a tree at a level. What comes next is laid out behind a statement; a start block
has it inside. -/
def Unfolding.lines : Unfolding → Nat → List Line
  | .nothing, _ => []
  | .node block branch, level =>
    block.kind.layout.flatMap
        (Part.lines ⟨block.id, level⟩ fun slot => (branch slot).lines (level + 1)) ++
      if block.isStart then [] else (branch .next).lines level

/-! ## The lines of the layout, written down -/

theorem map_written_orBlankLine (width : UInt64) (lines : List Line) :
    (orBlankLine lines).map (Line.written width) = orBlank (lines.map (Line.written width)) := by
  cases lines <;> rfl

namespace Unfolding

/-- Without a start block, the lines of a tree are those of its statements. -/
theorem map_written_lines (width : UInt64) {tree : Unfolding}
    (hstart : tree.All fun block => block.kind ≠ .start) (level : Nat) :
    (tree.lines level).map (Line.written width) = tree.statements.lines width level := by
  induction tree generalizing level with
  | nothing => rfl
  | node block branch ih =>
    obtain ⟨hkind, hbranch⟩ := hstart
    have hbody (slot : Slot) := map_written_orBlankLine width ((branch slot).lines (level + 1))
    simp only [fun slot => ih slot (hbranch slot)] at hbody
    have hnext := ih .next (hbranch .next) level
    have hnot : block.isStart = false := by
      rw [← Bool.not_eq_true, Block.isStart_iff]
      exact hkind
    rw [lines, statements]
    cases hblock : block.kind with
    | start => exact absurd hblock hkind
    | _ =>
      simp [BlockKind.layout, Part.lines, BlockKind.statements, Statements.lines, hnot, hbody,
        hnext, Line.written, Line.level]

end Unfolding

namespace ValidGraph

theorem map_written_tree (valid : ValidGraph) (width : UInt64) :
    (valid.tree.lines 0).map (Line.written width) =
      valid.tree.statements.programLines width := by
  obtain ⟨block, hkind, hget, htree⟩ := valid.exists_tree_eq
  have hbody := Unfolding.map_written_lines width (valid.all_ne_start hget .next) 1
  have hindent : indentation width 0 = "" := rfl
  rw [htree, Unfolding.lines, Unfolding.statements]
  simp [BlockKind.layout, Part.lines, BlockKind.statements, Statements.programLines, hkind,
    Block.isStart_iff.2 hkind, map_written_orBlankLine, hbody, hindent, Line.written, Line.level]

/-- The lines of the program are those that the lines of its layout come to, with an empty one
behind the last line break. -/
theorem linesOf_program (valid : ValidGraph) (width : UInt64) :
    linesOf (valid.program width) = (valid.tree.lines 0).flatMap (Line.pieces width) ++ [""] := by
  rw [program_eq_linesText, ← map_written_tree, linesOf_linesText, List.flatMap_map,
    funext (Line.pieces_eq width)]

end ValidGraph

/-! ## One width and another -/

/-- Rows that are made piece by piece are put together piece by piece. -/
theorem zipWith_flatMap {α β γ δ : Type} {op : β → γ → δ} {f : α → List β} {g : α → List γ}
    (h : ∀ a, (f a).length = (g a).length) (items : List α) :
    List.zipWith op (items.flatMap f) (items.flatMap g) =
      items.flatMap fun a => List.zipWith op (f a) (g a) := by
  induction items with
  | nil => rfl
  | cons a items ih =>
    rw [List.flatMap_cons, List.flatMap_cons, List.flatMap_cons, List.zipWith_append (h a), ih]

theorem Line.pieces_zero (line : Line) : line.pieces 0 = linesOf line.text := by
  have hindent : indentation 0 line.level = "" := by
    rw [indentation, UInt64.toNat_zero, Nat.zero_mul]
    rfl
  rw [pieces_eq, written, hindent, String.empty_append]

/-- **Indentation.** A program has the same lines at every width, but for the spaces that they begin
with: there is one row of levels, one for each line, such that at any width a line is as many spaces
as the width makes of its level, and behind them the line that it is at width zero. -/
theorem ValidGraph.program_lines_indented (valid : ValidGraph) :
    ∃ levels : List Nat, ∀ width,
      (linesOf (valid.program width)).length = levels.length ∧
        linesOf (valid.program width) =
          List.zipWith (fun level line => indentation width level ++ line) levels
            (linesOf (valid.program 0)) := by
  -- the levels of the layout, and one for the empty line at the end
  refine ⟨(valid.tree.lines 0).flatMap Line.levels ++ [0], fun width => ?_⟩
  have hzip : linesOf (valid.program width) =
      List.zipWith (fun level line => indentation width level ++ line)
        ((valid.tree.lines 0).flatMap Line.levels ++ [0]) (linesOf (valid.program 0)) := by
    have hlength : ((valid.tree.lines 0).flatMap Line.levels).length =
        ((valid.tree.lines 0).flatMap fun line => linesOf line.text).length := by
      simp only [List.length_flatMap, Line.length_levels]
    have hlast : indentation width 0 ++ "" = "" := rfl
    rw [linesOf_program, linesOf_program, funext Line.pieces_zero, List.zipWith_append hlength,
      zipWith_flatMap Line.length_levels, funext (Line.pieces_eq_zipWith width)]
    simp [hlast]
  refine ⟨?_, hzip⟩
  rw [hzip, List.length_zipWith, linesOf_program]
  simp [Line.length_levels, Line.pieces_zero, List.length_flatMap]

/-! ## Whose lines they are -/

section Owned

variable {valid : ValidGraph} {visit : Visit}

/-- Whether a line stands there for a visit. -/
def Line.owned (line : Line) : Bool :=
  line.visit.isSome

theorem filter_owned_orBlankLine (lines : List Line) :
    (orBlankLine lines).filter Line.owned = lines.filter Line.owned := by
  cases lines <;> rfl

theorem text_eq_of_mem_orBlankLine {lines : List Line}
    (h : ∀ line ∈ lines, line.visit = none → line.text = "") :
    ∀ line ∈ orBlankLine lines, line.visit = none → line.text = "" := by
  cases lines with
  | nil => simp [orBlankLine, Line.blank]
  | cons first rest => exact h

/-- A line of a tree that stands there for no visit is blank. -/
theorem Unfolding.text_eq_of_mem_lines (tree : Unfolding) (level : Nat) :
    ∀ line ∈ tree.lines level, line.visit = none → line.text = "" := by
  induction tree generalizing level with
  | nothing => simp [lines]
  | node block branch ih =>
    have hbody (slot : Slot) := text_eq_of_mem_orBlankLine (ih slot (level + 1))
    rw [lines]
    simp only [List.forall_mem_append, List.forall_mem_flatMap]
    refine ⟨fun part _ => ?_, ?_⟩
    · cases part with
      | line text =>
        intro line hline hnone
        rw [List.mem_singleton.1 hline] at hnone
        cases hnone
      | body slot => exact hbody slot
    · split
      · simp
      · exact ih .next level

/-- The lines of parts, those of bodies put behind those of the statement itself. -/
theorem owned_parts_perm (visit : Visit) (bodyLines : Slot → List Line) (parts : List Part) :
    ((parts.flatMap (Part.lines visit bodyLines)).filter Line.owned).Perm
      ((parts.filterMap Part.line?).map (⟨some visit, ·⟩) ++
        (parts.filterMap Part.body?).flatMap fun slot => (bodyLines slot).filter Line.owned) := by
  induction parts with
  | nil => exact .nil
  | cons part parts ih =>
    rw [List.flatMap_cons, List.filter_append]
    cases part with
    | line text => exact ih.cons _
    | body slot =>
      have hbody : (Part.lines visit bodyLines (.body slot)).filter Line.owned =
          (bodyLines slot).filter Line.owned := filter_owned_orBlankLine (bodyLines slot)
      rw [hbody]
      simp only [List.filterMap_cons, Part.line?, Part.body?, List.flatMap_cons]
      -- the body is moved behind the lines of the statement
      exact (ih.append_left _).trans (List.perm_append_comm_assoc _ _ _)

/-- The slots that a statement has inside are, before what comes next, those that lead on. -/
theorem Unfolding.visits_node (block : Block) (branch : Slot → Unfolding)
    (hbranch : ∀ slot, block.target? slot = none → branch slot = .nothing) (level : Nat) :
    (Unfolding.node block branch).visits level = ⟨block.id, level⟩ ::
      ((block.kind.layout.filterMap Part.body?).flatMap (fun slot =>
          (branch slot).visits (level + 1)) ++
        if block.isStart then [] else (branch .next).visits level) := by
  have hnothing {slot : Slot} (hslot : block.target? slot = none) (level : Nat) :
      (branch slot).visits level = [] := by
    rw [hbranch slot hslot, Unfolding.visits]
  rw [Unfolding.visits]
  cases hkind : block.kind <;>
    simp [Slot.inOrder, Block.levelOf, Block.nests, Block.isStart, BlockKind.layout,
      List.filterMap_cons, Part.body?, hkind, Block.target?, hnothing]

/-- The other lines of a link's tree are, in some order, the lines of the visits to it. -/
theorem ValidGraph.owned_unfold_perm (valid : ValidGraph) (link : Option BlockId)
    (hlink : valid.graph.Resolves link) (level : Nat) :
    (((valid.unfold link).lines level).filter Line.owned).Perm
      (((valid.unfold link).visits level).flatMap valid.ownLines) := by
  induction link, hlink using valid.link_induction generalizing level with
  | nothing =>
    rw [unfold_none]
    exact .nil
  | block id block hget ih =>
    have hid : block.id = id := (Graph.get?_eq_some_iff.1 hget).2
    have hown : valid.ownLines ⟨id, level⟩ =
        (block.kind.layout.filterMap Part.line?).map (⟨some ⟨id, level⟩, ·⟩) := by
      simp only [ownLines, hget, BlockKind.ownLines]
    have hvisits := Unfolding.visits_node block (fun slot => valid.unfold (block.target? slot))
      (fun slot hslot => by rw [hslot, unfold_none]) level
    rw [unfold_some hget, hvisits, Unfolding.lines, List.flatMap_cons, hid, hown,
      List.filter_append, List.flatMap_append, List.flatMap_assoc, ← List.append_assoc]
    refine ((owned_parts_perm ⟨id, level⟩ _ _).trans ?_).append ?_
    · exact (List.Perm.flatMap_left _ fun slot _ => ih slot (level + 1)).append_left _
    · split
      · exact .nil
      · exact ih .next level

/-- **Whose lines they are.** A program is laid out in lines that do not depend on the width. Apart
from blank ones they are, in some order, the lines that the statements of all visits consist of.
Each is written behind as many spaces as the width makes of the level of its visit, and if it has a
text with line feeds, what is behind these is written as the text has it. -/
theorem ValidGraph.program_lines_owned (valid : ValidGraph) :
    ∃ lines : List Line,
      (∀ width, linesOf (valid.program width) = lines.flatMap (Line.pieces width) ++ [""]) ∧
        (lines.filter Line.owned).Perm (valid.visits.flatMap valid.ownLines) ∧
          ∀ line ∈ lines, line.visit = none → line.text = "" := by
  refine ⟨valid.tree.lines 0, valid.linesOf_program, ?_, valid.tree.text_eq_of_mem_lines 0⟩
  rw [visits_eq]
  exact valid.owned_unfold_perm _ valid.resolves_entry 0

end Owned

/-- A program of one statement, which is code of two lines. -/
def twoLined : ValidGraph where
  graph := .ofList [⟨0, some 1, .start, .nil⟩, ⟨1, none, .code "a();\nb()", .nil⟩]
  entry := 0
  valid := by decide
  entry_eq := by decide

/-- The second line of the code belongs to the statement at level one, and is not indented. -/
theorem second_line_not_indented :
    twoLined.program 2 =
        "void setup() \x7b pinMode(12, OUTPUT); \x7d\nvoid loop()\n\x7b\n  a();\nb();\n\x7d\n" ∧
      ∃ visit ∈ twoLined.visits, ∃ line ∈ twoLined.ownLines visit, ∃ piece ∈ line.pieces 2,
        ¬ (indentation 2 visit.level).toList <+: piece.toList := by
  refine ⟨by decide, ⟨1, 1⟩, by decide, ⟨some ⟨1, 1⟩, "a();\nb();"⟩, ?_, "b();", ?_, by decide⟩
  · exact List.mem_singleton_self _
  · have hlines : linesOf "a();\nb();" = ["a();", "b();"] := by
      rw [linesOf_eq]
      decide
    rw [Line.pieces, hlines]
    exact List.mem_cons_of_mem _ (List.mem_singleton_self _)

end BlockDiagram
