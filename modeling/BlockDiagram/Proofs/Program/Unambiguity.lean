/-
Reading a program back.

Conditions, names and code go into a program as they are, and may look like anything: like a brace,
like a keyword, like a deeper level. At width zero there is no indentation to go by either. A
program can be read back all the same, as long as none of these texts has a line break, because the
layout never looks inside them. A line that begins a statement ends in `;` or `)`, since that is
what is put behind the text; a line that closes a body ends in `}`; and a body without statements is
a blank line, which no statement begins with. So the end of a line says which of the three it is,
and what stands in front of a text says the rest.

The statements are told apart with whatever comes behind them in view: two rows of statements, each
followed by lines that close something, have the same lines only if the rows are the same and so is
what follows. Then nothing has to be parsed, and one induction on a row covers every nesting.
-/
import BlockDiagram.Proofs.Program.Statements
import BlockDiagram.Proofs.Text.Segments

set_option autoImplicit false

namespace BlockDiagram

open Relation

/-! ## Lines of a text -/

/-- Lines without line breaks of their own are what their text is made of. -/
theorem linesText_inj {lines lines' : List String} (h : linesText lines = linesText lines')
    (hlines : ∀ line ∈ lines, '\n' ∉ line.toList)
    (hlines' : ∀ line ∈ lines', '\n' ∉ line.toList) : lines = lines' := by
  have hcons (line : String) (lines : List String) : (linesText (line :: lines)).toList =
      line.toList ++ '\n' :: (linesText lines).toList := by
    simp
  induction lines generalizing lines' with
  | nil =>
    cases lines' with
    | nil => rfl
    | cons line' lines' =>
      have hempty := congrArg String.toList h
      rw [hcons, linesText_nil] at hempty
      simp at hempty
  | cons line lines ih =>
    cases lines' with
    | nil =>
      have hempty := congrArg String.toList h
      rw [hcons, linesText_nil] at hempty
      simp at hempty
    | cons line' lines' =>
      have hsame := congrArg String.toList h
      rw [hcons, hcons] at hsame
      obtain ⟨hline, hrest⟩ := append_break_inj hsame (hlines line List.mem_cons_self)
        (hlines' line' List.mem_cons_self)
      have hrows := ih (String.toList_inj.1 hrest)
        (fun other hother => hlines other (List.mem_cons_of_mem _ hother))
        (fun other hother => hlines' other (List.mem_cons_of_mem _ hother))
      rw [String.toList_inj.1 hline, hrows]

/-- The last character of a line. -/
def lineEnd (line : String) : Option Char :=
  line.toList.getLast?

theorem lineEnd_append (s t : String) : lineEnd (s ++ t) = (lineEnd t).or (lineEnd s) := by
  rw [lineEnd, String.toList_append, List.getLast?_append]
  rfl

/-- Lines that come behind a row of statements: none, or at first one that closes a body. -/
def Closing (lines : List String) : Prop :=
  ∀ line ∈ lines.head?, lineEnd line = some '\x7d'

theorem closing_cons (indent : String) (lines : List String) :
    Closing ((indent ++ "\x7d") :: lines) := by
  rintro _ ⟨⟩
  rw [lineEnd_append]
  rfl

/-! ## Rows of statements -/

namespace Statements

/-- Whether no text in a row of statements has a line break, and every single statement ends the way
statements do. -/
def Plain : Statements → Prop
  | .none => True
  | .leaf text rest => '\n' ∉ text.toList ∧ lineEnd text = some ';' ∧ rest.Plain
  | .loop condition body rest => '\n' ∉ condition.toList ∧ body.Plain ∧ rest.Plain
  | .conditional condition ifTrue ifFalse rest =>
    '\n' ∉ condition.toList ∧ ifTrue.Plain ∧ ifFalse.Plain ∧ rest.Plain

variable {width : UInt64} {level : Nat}

theorem newline_notMem_indentation (width : UInt64) (level : Nat) :
    '\n' ∉ (indentation width level).toList := by
  rw [indentation, String.toList_ofList, List.mem_replicate]
  rintro ⟨-, heq⟩
  exact absurd heq (by decide)

/-- The line that a statement begins with ends in a way that no other line ends. -/
theorem exists_lines_eq (width : UInt64) (level : Nat) {row : Statements} (hplain : row.Plain)
    (hne : row ≠ .none) :
    ∃ line more, row.lines width level = line :: more ∧
      (lineEnd line = some ';' ∨ lineEnd line = some ')') := by
  cases row with
  | none => exact absurd rfl hne
  | leaf text rest =>
    refine ⟨_, _, rfl, .inl ?_⟩
    rw [lineEnd_append, hplain.2.1]
    rfl
  | loop condition body rest =>
    refine ⟨_, _, rfl, .inr ?_⟩
    rw [lineEnd_append, lineEnd_append]
    rfl
  | conditional condition ifTrue ifFalse rest =>
    refine ⟨_, _, rfl, .inr ?_⟩
    rw [lineEnd_append, lineEnd_append]
    rfl

/-- Lines that close something do not begin with a statement. -/
theorem eq_none_of_closing {row : Statements} (hplain : row.Plain) {lines lines' : List String}
    (hclosing : Closing lines') (h : row.lines width level ++ lines = lines') : row = .none := by
  by_contra hne
  obtain ⟨line, more, hlines, hend⟩ := exists_lines_eq width level hplain hne
  rw [hlines] at h
  have hbrace := hclosing line (by rw [← h]; rfl)
  rw [hbrace] at hend
  rcases hend with hend | hend <;> exact absurd hend (by decide)

/-- A body with what comes behind it is read back as soon as a row of statements is. A blank line
tells a body without statements from any other. -/
theorem orBlank_append_inj {row row' : Statements} (hrow : row.Plain) (hrow' : row'.Plain)
    {lines lines' : List String}
    (hread : row.lines width level ++ lines = row'.lines width level ++ lines' →
      row = row' ∧ lines = lines')
    (h : orBlank (row.lines width level) ++ lines = orBlank (row'.lines width level) ++ lines') :
    row = row' ∧ lines = lines' := by
  have hblank {row : Statements} (hplain : row.Plain) (hne : row ≠ .none)
      (lines lines' : List String) : row.lines width level ++ lines ≠ "" :: lines' := by
    obtain ⟨line, more, hlines, hend⟩ := exists_lines_eq width level hplain hne
    rw [hlines]
    intro heq
    rw [(List.cons.inj heq).1] at hend
    rcases hend with hend | hend <;> exact absurd hend (by decide)
  by_cases hnone : row = .none
  · by_cases hnone' : row' = .none
    · rw [hnone, hnone'] at h ⊢
      exact ⟨rfl, (List.cons.inj h).2⟩
    · rw [hnone, orBlank_of_ne_nil (lines_ne_nil hnone')] at h
      exact absurd h.symm (hblank hrow' hnone' _ _)
  · by_cases hnone' : row' = .none
    · rw [hnone', orBlank_of_ne_nil (lines_ne_nil hnone)] at h
      exact absurd h (hblank hrow hnone _ _)
    · rw [orBlank_of_ne_nil (lines_ne_nil hnone), orBlank_of_ne_nil (lines_ne_nil hnone')] at h
      exact hread h

/-- What is put behind a text shows, whatever the text ends in. -/
theorem ne_keyword {text : String} (hend : lineEnd text = some ';') (keyword condition : String) :
    text ≠ keyword ++ condition ++ ")" := by
  intro heq
  have hparen : lineEnd (keyword ++ condition ++ ")") = some ')' := by
    rw [lineEnd_append]
    rfl
  rw [heq, hparen] at hend
  exact absurd hend (by decide)

theorem while_ne_if (condition condition' : String) :
    "while (" ++ condition ++ ")" ≠ "if (" ++ condition' ++ ")" := by
  intro heq
  have hchars := congrArg String.toList heq
  simp at hchars

/-- Two rows of statements with closing lines behind have the same lines only if they are the same
row with the same lines behind. -/
theorem lines_append_inj {row row' : Statements} (hrow : row.Plain) (hrow' : row'.Plain)
    {lines lines' : List String} (hlines : Closing lines) (hlines' : Closing lines')
    (h : row.lines width level ++ lines = row'.lines width level ++ lines') :
    row = row' ∧ lines = lines' := by
  induction row generalizing row' level lines lines' with
  | none =>
    have hnone' : row' = .none := eq_none_of_closing hrow' hlines h.symm
    rw [hnone'] at h ⊢
    exact ⟨rfl, h⟩
  | leaf text rest ih =>
    cases row' with
    | none => cases eq_none_of_closing hrow hlines' h
    | leaf text' rest' =>
      simp only [Statements.lines, List.cons_append, List.cons.injEq, String.append_right_inj] at h
      obtain ⟨htext, hrest⟩ := h
      obtain ⟨rfl, hbehind⟩ := ih hrow.2.2 hrow'.2.2 hlines hlines' hrest
      exact ⟨by rw [htext], hbehind⟩
    | loop condition' body' rest' =>
      simp only [Statements.lines, List.cons_append, List.cons.injEq, String.append_right_inj] at h
      exact absurd h.1 (ne_keyword hrow.2.1 _ _)
    | conditional condition' ifTrue' ifFalse' rest' =>
      simp only [Statements.lines, List.cons_append, List.cons.injEq, String.append_right_inj] at h
      exact absurd h.1 (ne_keyword hrow.2.1 _ _)
  | loop condition body rest ihbody ihrest =>
    cases row' with
    | none => cases eq_none_of_closing hrow hlines' h
    | leaf text' rest' =>
      simp only [Statements.lines, List.cons_append, List.cons.injEq, String.append_right_inj] at h
      exact absurd h.1.symm (ne_keyword hrow'.2.1 _ _)
    | conditional condition' ifTrue' ifFalse' rest' =>
      simp only [Statements.lines, List.cons_append, List.cons.injEq, String.append_right_inj] at h
      exact absurd h.1 (while_ne_if _ _)
    | loop condition' body' rest' =>
      simp only [Statements.lines, List.cons_append, List.append_assoc, List.cons.injEq,
        String.append_right_inj, String.append_left_inj] at h
      obtain ⟨hcondition, -, hbodies⟩ := h
      obtain ⟨-, hbody, hrest⟩ := hrow
      obtain ⟨-, hbody', hrest'⟩ := hrow'
      -- the brace behind the body closes it, so the body can be read back before what follows
      obtain ⟨rfl, hbehind⟩ := orBlank_append_inj hbody hbody'
        (ihbody hbody hbody' (closing_cons _ _) (closing_cons _ _)) hbodies
      obtain ⟨rfl, hlast⟩ := ihrest hrest hrest' hlines hlines' (List.cons.inj hbehind).2
      exact ⟨by rw [hcondition], hlast⟩
  | conditional condition ifTrue ifFalse rest ihtrue ihfalse ihrest =>
    cases row' with
    | none => cases eq_none_of_closing hrow hlines' h
    | leaf text' rest' =>
      simp only [Statements.lines, List.cons_append, List.cons.injEq, String.append_right_inj] at h
      exact absurd h.1.symm (ne_keyword hrow'.2.1 _ _)
    | loop condition' body' rest' =>
      simp only [Statements.lines, List.cons_append, List.cons.injEq, String.append_right_inj] at h
      exact absurd h.1.symm (while_ne_if _ _)
    | conditional condition' ifTrue' ifFalse' rest' =>
      simp only [Statements.lines, List.cons_append, List.append_assoc, List.cons.injEq,
        String.append_right_inj, String.append_left_inj] at h
      obtain ⟨hcondition, -, harms⟩ := h
      obtain ⟨-, htrue, hfalse, hrest⟩ := hrow
      obtain ⟨-, htrue', hfalse', hrest'⟩ := hrow'
      obtain ⟨rfl, hbridge⟩ := orBlank_append_inj htrue htrue'
        (ihtrue htrue htrue' (closing_cons _ _) (closing_cons _ _)) harms
      simp only [List.cons.injEq, true_and] at hbridge
      obtain ⟨rfl, hbehind⟩ := orBlank_append_inj hfalse hfalse'
        (ihfalse hfalse hfalse' (closing_cons _ _) (closing_cons _ _)) hbridge
      obtain ⟨rfl, hlast⟩ := ihrest hrest hrest' hlines hlines' (List.cons.inj hbehind).2
      exact ⟨by rw [hcondition], hlast⟩

/-! ## No line breaks inside lines -/

theorem newline_notMem_orBlank {lines : List String} (h : ∀ line ∈ lines, '\n' ∉ line.toList) :
    ∀ line ∈ orBlank lines, '\n' ∉ line.toList := by
  cases lines with
  | nil =>
    intro line hline
    rw [orBlank, List.mem_singleton] at hline
    rw [hline]
    exact List.not_mem_nil
  | cons first more => exact h

theorem newline_notMem_lines {row : Statements} (hplain : row.Plain) (width : UInt64)
    (level : Nat) : ∀ line ∈ row.lines width level, '\n' ∉ line.toList := by
  have hindent (level : Nat) := newline_notMem_indentation width level
  induction row generalizing level with
  | none =>
    intro line hline
    cases hline
  | leaf text rest ih =>
    obtain ⟨htext, -, hrest⟩ := hplain
    have hbehind := ih hrest level
    simp only [Statements.lines, List.forall_mem_cons]
    refine ⟨?_, hbehind⟩
    simp [hindent, htext]
  | loop condition body rest ihbody ihrest =>
    obtain ⟨hcondition, hbody, hrest⟩ := hplain
    have hinner := newline_notMem_orBlank (ihbody hbody (level + 1))
    have hbehind := ihrest hrest level
    simp only [Statements.lines, List.forall_mem_cons, List.forall_mem_append]
    refine ⟨?_, ?_, hinner, ?_, hbehind⟩ <;> simp [hindent, hcondition]
  | conditional condition ifTrue ifFalse rest ihtrue ihfalse ihrest =>
    obtain ⟨hcondition, htrue, hfalse, hrest⟩ := hplain
    have hfirst := newline_notMem_orBlank (ihtrue htrue (level + 1))
    have hsecond := newline_notMem_orBlank (ihfalse hfalse (level + 1))
    have hbehind := ihrest hrest level
    simp only [Statements.lines, List.forall_mem_cons, List.forall_mem_append]
    refine ⟨?_, ?_, hfirst, ?_, ?_, ?_, hsecond, ?_, hbehind⟩ <;> simp [hindent, hcondition]

theorem newline_notMem_programLines {body : Statements} (hplain : body.Plain) (width : UInt64) :
    ∀ line ∈ body.programLines width, '\n' ∉ line.toList := by
  have hbody := newline_notMem_orBlank (newline_notMem_lines hplain width 1)
  simp only [programLines, List.forall_mem_cons, List.forall_mem_append]
  refine ⟨?_, ?_, ?_, hbody, ?_⟩ <;> simp

/-- The lines of a program tell its statements. -/
theorem programLines_inj {body body' : Statements} (hbody : body.Plain) (hbody' : body'.Plain)
    (h : body.programLines width = body'.programLines width) : body = body' := by
  have hlast : Closing ["\x7d"] := by
    rintro _ ⟨⟩
    rfl
  simp only [programLines, List.cons.injEq, true_and] at h
  exact (orBlank_append_inj hbody hbody' (lines_append_inj hbody hbody' hlast hlast) h).1

end Statements

/-! ## Texts of a diagram -/

/-- The texts that a kind has from the diagram. -/
def BlockKind.texts : BlockKind → List String
  | .loop condition _ => [condition]
  | .conditional condition _ _ => [condition]
  | .read name _ => [name]
  | .code text => [text]
  | .declare name => [name]
  | _ => []

/-- Whether no text of a kind has a line break. -/
def BlockKind.SingleLined (kind : BlockKind) : Prop :=
  ∀ text ∈ kind.texts, '\n' ∉ text.toList

/-- A single statement has no line break but those of its text, and ends in a semicolon. -/
theorem BlockKind.plain_leaf {kind : BlockKind} (htexts : kind.SingleLined) {fragment : Fragment}
    (hleaf : kind.leaf? = some fragment) :
    '\n' ∉ (fragment.text "").toList ∧ lineEnd (fragment.text "") = some ';' := by
  have hnumber := newline_notMem_decimal
  constructor
  · cases kind <;> cases hleaf <;>
      simp_all [BlockKind.SingleLined, BlockKind.texts, Fragment.text]
  · cases kind <;> cases hleaf <;> rw [Fragment.text, lineEnd_append] <;> rfl

/-- Without line breaks in its texts a kind makes a statement that can be told from its lines. -/
theorem BlockKind.plain_statements {kind : BlockKind} (htexts : kind.SingleLined)
    {below : Slot → Statements} (hbelow : ∀ slot, (below slot).Plain) :
    (kind.statements below).Plain := by
  cases kind with
  | start => exact hbelow .next
  | loop condition child =>
    exact ⟨htexts condition List.mem_cons_self, hbelow .child, hbelow .next⟩
  | conditional condition ifTrue ifFalse =>
    exact ⟨htexts condition List.mem_cons_self, hbelow .ifTrue, hbelow .ifFalse, hbelow .next⟩
  | _ =>
    obtain ⟨hbreak, hend⟩ := plain_leaf htexts rfl
    exact ⟨hbreak, hend, hbelow .next⟩

theorem Unfolding.plain_statements {tree : Unfolding}
    (htexts : tree.All fun block => block.kind.SingleLined) : tree.statements.Plain := by
  induction tree with
  | nothing => trivial
  | node block branch ih =>
    exact BlockKind.plain_statements htexts.1 fun slot => ih slot (htexts.2 slot)

namespace ValidGraph

/-- Whether no text has a line break in the blocks that the entry leads to. -/
def SingleLined (valid : ValidGraph) : Prop :=
  ∀ id block, ReflTransGen valid.graph.Refers valid.entry id →
    valid.graph.get? id = some block → block.kind.SingleLined

theorem singleLined_of_blocks {valid : ValidGraph}
    (h : ∀ block ∈ valid.graph.blocks, block.kind.SingleLined) : valid.SingleLined := by
  intro id block _ hget
  exact h block (Graph.get?_eq_some_iff.1 hget).1

theorem plain_tree {valid : ValidGraph} (h : valid.SingleLined) : valid.tree.statements.Plain := by
  apply Unfolding.plain_statements
  apply valid.all_unfold _ valid.resolves_entry
  rintro _ ⟨⟩ id block hway hget
  exact h id block hway hget

/-- Two valid graphs whose texts have no line breaks have the same program, at any one width,
exactly if they unfold to the same statements: the same rows, conditions and bodies, and the same
texts of single statements. -/
theorem program_eq_iff_statements_eq {g h : ValidGraph} (hg : g.SingleLined) (hh : h.SingleLined)
    (width : UInt64) :
    g.program width = h.program width ↔ g.tree.statements = h.tree.statements := by
  rw [program_eq_linesText, program_eq_linesText]
  constructor
  · intro htext
    have hlines := linesText_inj htext
      (Statements.newline_notMem_programLines (plain_tree hg) width)
      (Statements.newline_notMem_programLines (plain_tree hh) width)
    exact Statements.programLines_inj (plain_tree hg) (plain_tree hh) hlines
  · intro hstatements
    rw [hstatements]

end ValidGraph

/-- A loop with texts that look like parts of the layout, and a sleep behind it. -/
def masked : ValidGraph where
  graph := .ofList
    [⟨0, some 1, .start, .nil⟩, ⟨1, some 3, .loop "a)" (some 2), .nil⟩,
      ⟨2, some 4, .code "  while (x)", .nil⟩, ⟨4, none, .code "\x7d", .nil⟩,
      ⟨3, none, .sleep 5, .nil⟩]
  entry := 0
  valid := by decide
  entry_eq := by decide

/-- The same loop, with code behind it that does what the sleep does. -/
def disguised : ValidGraph where
  graph := .ofList
    [⟨9, some 8, .start, .nil⟩, ⟨8, some 6, .loop "a)" (some 7), .nil⟩,
      ⟨7, some 5, .code "  while (x)", .nil⟩, ⟨5, none, .code "\x7d", .nil⟩,
      ⟨6, none, .code "delay(5)", .nil⟩]
  entry := 9
  valid := by decide
  entry_eq := by decide

theorem singleLined_masked : masked.SingleLined := by
  apply ValidGraph.singleLined_of_blocks
  unfold BlockKind.SingleLined
  decide

theorem singleLined_disguised : disguised.SingleLined := by
  apply ValidGraph.singleLined_of_blocks
  unfold BlockKind.SingleLined
  decide

/-- Without any indentation the two have one program, so they unfold to the same statements. -/
theorem statements_masked_eq_statements_disguised :
    masked.SingleLined ∧ disguised.SingleLined ∧ masked.program 0 = disguised.program 0 ∧
      masked.tree.statements = disguised.tree.statements := by
  have hprogram : masked.program 0 = disguised.program 0 := by decide
  exact ⟨singleLined_masked, singleLined_disguised, hprogram,
    (ValidGraph.program_eq_iff_statements_eq singleLined_masked singleLined_disguised 0).1
      hprogram⟩

end BlockDiagram
