/-
Graphs with the same program.

Much of a graph leaves no trace in its program: which ids the blocks have, which blocks the entry
does not lead to, which attributes were kept aside, and whether a chain that occurs twice is there
twice or is referred to twice. What does leave a trace is what a block shows of its own and which
slots lead on, so two graphs have the same program as soon as their blocks can be related in such a
way that both agree along every reference.

The relation need not be one to one. A block of one graph that several references share stands for
as many copies in the other as there are references, so it is related to all of them, and a count
of blocks or a renaming of ids would not do. That the two runs go hand in hand is not said of their
stacks either: both programs are written from the same statements.
-/
import BlockDiagram.Proofs.Program.Statements

set_option autoImplicit false

namespace BlockDiagram

/-! ## What a kind shows -/

/-- A kind without its references. -/
def BlockKind.bare : BlockKind → BlockKind
  | .loop condition _ => .loop condition none
  | .conditional condition _ _ => .conditional condition .empty .empty
  | kind => kind

/-- The statement of a kind takes nothing from its references but what is below them. -/
theorem BlockKind.statements_bare (kind : BlockKind) (below : Slot → Statements) :
    kind.bare.statements below = kind.statements below := by
  cases kind <;> rfl

/-! ## Bisimulations -/

instance {R : BlockId → BlockId → Prop} [DecidableRel R] (link other : Option BlockId) :
    Decidable (Option.Rel R link other) :=
  match link, other with
  | none, none => isTrue .none
  | some a, some b => decidable_of_iff (R a b) ⟨.some, fun | .some h => h⟩
  | none, some _ => isFalse nofun
  | some _, none => isFalse nofun

/-- Whether a relation between the blocks of two graphs is kept along the references: related blocks
have kinds that are the same but for the references, and in every slot both have no reference or
both have one, to related blocks. -/
structure Bisimulation (g h : Graph) (R : BlockId → BlockId → Prop) : Prop where
  bare : ∀ x ∈ g.blocks, ∀ y ∈ h.blocks, R x.id y.id → x.kind.bare = y.kind.bare
  target : ∀ slot, ∀ x ∈ g.blocks, ∀ y ∈ h.blocks, R x.id y.id →
    Option.Rel R (x.target? slot) (y.target? slot)

namespace ValidGraph

variable {g h : ValidGraph} {R : BlockId → BlockId → Prop}

/-- Related links unfold to the same statements. The induction is on the link of one graph; the
other graph is followed along, and may share where the first does not. -/
theorem statements_unfold_eq (hR : Bisimulation g.graph h.graph R) (link : Option BlockId)
    (hlink : g.graph.Resolves link) (other : Option BlockId) (hother : h.graph.Resolves other)
    (hrel : Option.Rel R link other) :
    (g.unfold link).statements = (h.unfold other).statements := by
  induction link, hlink using g.link_induction generalizing other with
  | nothing =>
    cases hrel
    rw [unfold_none, unfold_none]
  | block id x hx ih =>
    cases hrel with
    | @some _ b hab =>
      obtain ⟨y, hy⟩ := Graph.get?_of_contains (Graph.resolves_some.1 hother)
      obtain ⟨hxmem, rfl⟩ := Graph.get?_eq_some_iff.1 hx
      obtain ⟨hymem, rfl⟩ := Graph.get?_eq_some_iff.1 hy
      have hbelow (slot : Slot) : (g.unfold (x.target? slot)).statements =
          (h.unfold (y.target? slot)).statements :=
        ih slot _ (h.resolves_target? hy slot) (hR.target slot x hxmem y hymem hab)
      have hbare : x.kind.bare = y.kind.bare := hR.bare x hxmem y hymem hab
      rw [unfold_some hx, unfold_some hy, Unfolding.statements, Unfolding.statements,
        ← x.kind.statements_bare, ← y.kind.statements_bare, hbare]
      simp only [hbelow]

/-- Two graphs whose blocks are related, entry to entry, by a relation that is kept along the
references have the same program, however wide a level is. -/
theorem program_eq_of_bisimulation (hR : Bisimulation g.graph h.graph R)
    (hentry : R g.entry h.entry) (width : UInt64) : g.program width = h.program width := by
  have hstatements : g.tree.statements = h.tree.statements :=
    statements_unfold_eq hR _ g.resolves_entry _ h.resolves_entry (.some hentry)
  rw [program_eq_linesText, program_eq_linesText, hstatements]

end ValidGraph

/-- A conditional whose arms share their only block. -/
def sharing : ValidGraph where
  graph := .ofList
    [⟨0, some 1, .start, .nil⟩, ⟨1, none, .conditional "x" (.to 2) (.to 2), .nil⟩,
      ⟨2, none, .write 4 .high, .nil⟩]
  entry := 0
  valid := by decide
  entry_eq := by decide

/-- The same with a block for each arm, other ids, an attribute kept aside and a block that nothing
leads to. -/
def copying : ValidGraph where
  graph := .ofList
    [⟨7, some 9, .start, .nil⟩, ⟨9, none, .conditional "x" (.to 3) (.to 5), .nil⟩,
      ⟨3, none, .write 4 .high, .cons "color" trivial (.string "red") .nil⟩,
      ⟨5, none, .write 4 .high, .nil⟩, ⟨8, some 9, .sleep 1, .nil⟩]
  entry := 7
  valid := by decide
  entry_eq := by decide

/-- Which blocks of the two do the same. -/
def copies : List (BlockId × BlockId) := [(0, 7), (1, 9), (2, 3), (2, 5)]

theorem bisimulation_sharing_copying :
    Bisimulation sharing.graph copying.graph fun a b => (a, b) ∈ copies where
  bare := by decide
  target slot := by cases slot <;> decide

/-- The shared block is related to both of its copies. -/
theorem program_sharing_eq_program_copying :
    (Bisimulation sharing.graph copying.graph fun a b => (a, b) ∈ copies) ∧
      (sharing.entry, copying.entry) ∈ copies ∧
      sharing.program 3 = copying.program 3 :=
  ⟨bisimulation_sharing_copying, by decide,
    ValidGraph.program_eq_of_bisimulation bisimulation_sharing_copying (by decide) 3⟩

end BlockDiagram
