/-
The statements of a program, and its lines.

Between the tree that a graph unfolds to and the text of its program lies a smaller tree, which has
only what a reader of the program can hope to see: rows of statements, conditions, bodies, and for
a statement that is a single one its text. Ids, references and attributes kept aside are gone from
it, and so is the difference between a block that is shared and copies of it.

Nothing of a program comes from anywhere else. Its text consists of lines, each with a line break
behind it, and the lines are given by recursion on the rows: the head of a compound statement takes
a line for its keyword and one for its brace, a body without statements takes a blank line. A text
from the diagram may hold line breaks of its own, so a line of this kind need not be a line of the
text; what else has to hold for that is not asked here.
-/
import BlockDiagram.Proofs.Program.Recursion

set_option autoImplicit false

namespace BlockDiagram

open Relation

/-! ## Statements -/

/-- Statements in a row, each with the bodies that it has. -/
inductive Statements where
  | none
  | leaf (text : String) (rest : Statements)
  | loop (condition : String) (body rest : Statements)
  | conditional (condition : String) (ifTrue ifFalse rest : Statements)
  deriving DecidableEq, Repr

/-- A statement of a kind in front of what follows, given the statements below each slot. A start
block is no statement: it stands for those that come next. -/
def BlockKind.statements (kind : BlockKind) (below : Slot → Statements) : Statements :=
  match kind with
  | .start => below .next
  | .loop condition _ => .loop condition (below .child) (below .next)
  | .conditional condition _ _ =>
    .conditional condition (below .ifTrue) (below .ifFalse) (below .next)
  | .read name pin => .leaf ((Fragment.readPin name pin).text "") (below .next)
  | .write pin level => .leaf ((Fragment.setPin pin level).text "") (below .next)
  | .sleep length => .leaf ((Fragment.wait length).text "") (below .next)
  | .code text => .leaf ((Fragment.verbatim text).text "") (below .next)
  | .declare name => .leaf ((Fragment.integer name).text "") (below .next)

/-- The statements of a tree. -/
def Unfolding.statements : Unfolding → Statements
  | .nothing => .none
  | .node block branch => block.kind.statements fun slot => (branch slot).statements

/-- The statements of a kind begin with one of its own, unless it marks the beginning. -/
theorem BlockKind.statements_ne_none {kind : BlockKind} (hkind : kind ≠ .start)
    (below : Slot → Statements) : kind.statements below ≠ .none := by
  cases kind with
  | start => exact absurd rfl hkind
  | _ => intro hnone; cases hnone

/-- A single statement at a level is its text behind the indentation. -/
theorem BlockKind.leaf_text {kind : BlockKind} {fragment : Fragment}
    (h : kind.leaf? = some fragment) (indent : String) :
    fragment.text indent = indent ++ fragment.text "" := by
  cases kind <;> cases h <;> simp [Fragment.text, String.append_assoc]

/-! ## Lines -/

/-- The lines of a body. Without statements it is one blank line. -/
def orBlank : List String → List String
  | [] => [""]
  | lines => lines

theorem orBlank_cons (line : String) (lines : List String) :
    orBlank (line :: lines) = line :: lines := rfl

theorem orBlank_of_ne_nil {lines : List String} (h : lines ≠ []) : orBlank lines = lines := by
  cases lines with
  | nil => exact absurd rfl h
  | cons line lines => rfl

namespace Statements

/-- The lines of statements at a level. -/
def lines (width : UInt64) (level : Nat) : Statements → List String
  | .none => []
  | .leaf text rest => (indentation width level ++ text) :: rest.lines width level
  | .loop condition body rest =>
    (indentation width level ++ ("while (" ++ condition ++ ")")) ::
      (indentation width level ++ "\x7b") ::
      (orBlank (body.lines width (level + 1)) ++
        (indentation width level ++ "\x7d") :: rest.lines width level)
  | .conditional condition ifTrue ifFalse rest =>
    (indentation width level ++ ("if (" ++ condition ++ ")")) ::
      (indentation width level ++ "\x7b") ::
      (orBlank (ifTrue.lines width (level + 1)) ++
        (indentation width level ++ "\x7d") ::
        (indentation width level ++ "else") ::
        (indentation width level ++ "\x7b") ::
        (orBlank (ifFalse.lines width (level + 1)) ++
          (indentation width level ++ "\x7d") :: rest.lines width level))

/-- The lines of the program with these statements. -/
def programLines (width : UInt64) (body : Statements) : List String :=
  "void setup() \x7b pinMode(12, OUTPUT); \x7d" :: "void loop()" :: "\x7b" ::
    (orBlank (body.lines width 1) ++ ["\x7d"])

theorem lines_ne_nil {width : UInt64} {level : Nat} {row : Statements} (h : row ≠ .none) :
    row.lines width level ≠ [] := by
  cases row with
  | none => exact absurd rfl h
  | _ => exact List.cons_ne_nil _ _

end Statements

/-- The text of lines, each with the line break that ends it. -/
def linesText (lines : List String) : String :=
  String.join (lines.map (· ++ "\n"))

@[simp] theorem linesText_nil : linesText [] = "" := by
  rw [linesText, List.map_nil, String.join_nil]

@[simp] theorem linesText_cons (line : String) (lines : List String) :
    linesText (line :: lines) = line ++ "\n" ++ linesText lines := by
  rw [linesText, List.map_cons, String.join_cons]
  rfl

@[simp] theorem linesText_append (lines lines' : List String) :
    linesText (lines ++ lines') = linesText lines ++ linesText lines' := by
  rw [linesText, List.map_append, String.join_append]
  rfl

theorem opening_break : ("\x7b\n" : String) = "\x7b" ++ "\n" := rfl

theorem closing_break : ("\x7d\n" : String) = "\x7d" ++ "\n" := rfl

/-! ## Blocks of a tree -/

/-- Whether all blocks of a tree have a property. -/
def Unfolding.All (P : Block → Prop) : Unfolding → Prop
  | .nothing => True
  | .node block branch => P block ∧ ∀ slot, (branch slot).All P

namespace ValidGraph

variable {valid : ValidGraph}

/-- What all blocks have that a link leads to, all blocks of its tree have. -/
theorem all_unfold (valid : ValidGraph) {P : Block → Prop} (link : Option BlockId)
    (hlink : valid.graph.Resolves link)
    (hP : ∀ first ∈ link, ∀ id block, ReflTransGen valid.graph.Refers first id →
      valid.graph.get? id = some block → P block) :
    (valid.unfold link).All P := by
  induction link, hlink using valid.link_induction with
  | nothing =>
    rw [unfold_none]
    trivial
  | block id block hget ih =>
    rw [unfold_some hget]
    refine ⟨hP id rfl id block .refl hget, fun slot => ih slot ?_⟩
    intro target htarget other found hway hfound
    have hstep : valid.graph.Refers id target :=
      ⟨slot, Graph.edge_iff.2 ⟨block, hget, htarget⟩⟩
    exact hP id rfl other found (.head hstep hway) hfound

/-- No start block comes after the entry: it would be the entry once more. -/
theorem kind_ne_start (valid : ValidGraph) {id : BlockId} {block : Block}
    (hway : TransGen valid.graph.Refers valid.entry id) (hget : valid.graph.get? id = some block) :
    block.kind ≠ .start := by
  intro hkind
  obtain ⟨hmem, hid⟩ := Graph.get?_eq_some_iff.1 hget
  have hentry : id = valid.entry := by
    rw [← hid]
    exact valid.beginsAt_entry.2 block hmem hkind
  rw [hentry] at hway
  exact valid.acyclic _ hway

/-- The tree of a valid graph is a start block over what comes next. -/
theorem exists_tree_eq (valid : ValidGraph) : ∃ block : Block, block.kind = .start ∧
    valid.graph.get? valid.entry = some block ∧
      valid.tree = .node block fun slot => valid.unfold (block.target? slot) := by
  obtain ⟨block, hget, hkind⟩ := valid.get?_entry
  exact ⟨block, hkind, hget, unfold_some hget⟩

end ValidGraph

/-! ## The text of a tree -/

namespace Unfolding

variable {width : UInt64} {level : Nat}

/-- What follows a statement, from its line break on, are the lines of a row of its own. -/
theorem rowText_sequel {tree : Unfolding} (hstart : tree.All fun block => block.kind ≠ .start)
    (h : rowText width (tree.placed level) ++ "\n" =
      linesText (orBlank (tree.statements.lines width level))) :
    rowText width (sequel level tree (tree.placed level)) ++ "\n" =
      "\n" ++ linesText (tree.statements.lines width level) := by
  cases tree with
  | nothing => simp [sequel, statements, Statements.lines]
  | node block branch =>
    have hrow : statements (.node block branch) ≠ .none :=
      BlockKind.statements_ne_none hstart.1 _
    rw [orBlank_of_ne_nil (Statements.lines_ne_nil hrow)] at h
    rw [sequel, rowText_cons, String.append_assoc, h]
    rfl

/-- The fragments of a tree without a start block, with a line break behind, are the lines of its
statements. -/
theorem rowText_placed (width : UInt64) (tree : Unfolding)
    (hstart : tree.All fun block => block.kind ≠ .start) (level : Nat) :
    rowText width (tree.placed level) ++ "\n" =
      linesText (orBlank (tree.statements.lines width level)) := by
  induction tree generalizing level with
  | nothing => simp [placed, statements, Statements.lines, orBlank]
  | node block branch ih =>
    obtain ⟨hkind, hbranch⟩ := hstart
    have hbody (slot : Slot) := ih slot (hbranch slot) (level + 1)
    have hsequel := rowText_sequel (hbranch .next) (ih .next (hbranch .next) level)
    have hleaf {fragment : Fragment} (hfragment : block.kind.leaf? = some fragment) :=
      BlockKind.leaf_text hfragment (indentation width level)
    -- what is left of the heads and of the bridge, cut at the line breaks
    have hparen : (")\n" : String) = ")" ++ "\n" := rfl
    have helse : ("else\n" : String) = "else" ++ "\n" := rfl
    rw [placed, statements]
    cases hblock : block.kind with
    | start => exact absurd hblock hkind
    | loop condition child =>
      simp only [BlockKind.statements, Statements.lines, orBlank_cons, rowText_append, rowText_cons,
        rowText_nil, linesText_append, linesText_cons, Placed.text, Fragment.text, ← hbody .child,
        hparen, opening_break, String.append_assoc, String.empty_append, hsequel]
    | conditional condition ifTrue ifFalse =>
      simp only [BlockKind.statements, Statements.lines, orBlank_cons, rowText_append, rowText_cons,
        rowText_nil, linesText_append, linesText_cons, Placed.text, Fragment.text,
        ← hbody .ifTrue, ← hbody .ifFalse, hparen, opening_break, closing_break, helse,
        String.append_assoc, String.empty_append, hsequel]
    | _ =>
      rw [hblock] at hleaf
      simp only [BlockKind.statements, Statements.lines, orBlank_cons, rowText_append, rowText_cons,
        rowText_nil, linesText_cons, Placed.text, hleaf rfl, String.append_assoc,
        String.empty_append, hsequel]

end Unfolding

/-! ## The text of a program -/

namespace ValidGraph

/-- Nothing below the entry is a start block. -/
theorem all_ne_start (valid : ValidGraph) {block : Block}
    (hget : valid.graph.get? valid.entry = some block) (slot : Slot) :
    (valid.unfold (block.target? slot)).All fun below => below.kind ≠ .start := by
  apply valid.all_unfold _ (valid.resolves_target? hget slot)
  intro first hfirst id found hway hfound
  have hstep : valid.graph.Refers valid.entry first :=
    ⟨slot, Graph.edge_iff.2 ⟨block, hget, hfirst⟩⟩
  exact valid.kind_ne_start (.head' hstep hway) hfound

/-- The program of a valid graph consists of the lines of its statements. -/
theorem program_eq_linesText (valid : ValidGraph) (width : UInt64) :
    valid.program width = linesText (valid.tree.statements.programLines width) := by
  obtain ⟨block, hkind, hget, htree⟩ := valid.exists_tree_eq
  have hbody := Unfolding.rowText_placed width _ (valid.all_ne_start hget .next) 1
  have hindent : indentation width 0 = "" := rfl
  have hsetup : ("void setup() \x7b pinMode(12, OUTPUT); \x7d\n" : String) =
      "void setup() \x7b pinMode(12, OUTPUT); \x7d" ++ "\n" := rfl
  have hloop : ("void loop()\n" : String) = "void loop()" ++ "\n" := rfl
  rw [program_eq, htree, Unfolding.placed, Unfolding.statements, hkind]
  simp only [BlockKind.statements, Statements.programLines, rowText_append, rowText_cons,
    rowText_nil, linesText_append, linesText_cons, linesText_nil, Placed.text, Fragment.text,
    hindent, hsetup, hloop, opening_break, closing_break, ← hbody, String.append_assoc,
    String.empty_append, String.append_empty]

end ValidGraph

end BlockDiagram
