/-
Which graphs are valid.

A graph is accepted when the list of its violations is empty. Most of the checks say what they look
for; two do not. The search for cycles stands for a statement about paths of any length, and the
check for references to the start block looks at the blocks that can be reached only. This file says
what is accepted without either: a graph is well formed when it has one start block, every reference
leads somewhere, every conditional has both arms, every text that a statement needs says something,
and no block leads back to itself.

References to the start block do not occur in that list. The check for them is the last resort of a
graph with several start blocks, or with cycles; where neither is the case it finds nothing, for a
block that can be reached is one that the only start block leads to.
-/
import BlockDiagram.Proofs.Validation.CycleSearch
import BlockDiagram.Proofs.Validation.Reachability
import BlockDiagram.Validation.Check

set_option autoImplicit false

namespace BlockDiagram

open Relation

/-! ## What is asked of a graph -/

/-- Whether a text says something: one of its characters is not blank. -/
def HasText (text : String) : Prop :=
  ∃ c ∈ text.toList, isBlank c = false

/-- Whether the texts that the statement of a kind cannot do without say something. -/
def BlockKind.Worded : BlockKind → Prop
  | .loop condition _ => HasText condition
  | .conditional condition _ _ => HasText condition
  | .read name _ => HasText name
  | .declare name => HasText name
  | _ => True

/-- Whether no arm of a kind is missing. An empty arm is not missing. -/
def BlockKind.HasArms : BlockKind → Prop
  | .conditional _ ifTrue ifFalse => ifTrue ≠ .missing ∧ ifFalse ≠ .missing
  | _ => True

namespace Graph

variable {graph : Graph}

/-- Whether an id is that of a start block, and no other block is one. -/
def BeginsAt (graph : Graph) (id : BlockId) : Prop :=
  (∃ block ∈ graph.blocks, block.id = id ∧ block.kind = .start) ∧
    ∀ block ∈ graph.blocks, block.kind = .start → block.id = id

/-- Whether a program can be generated from a graph. -/
structure WellFormed (graph : Graph) : Prop where
  /-- There is exactly one start block. -/
  begins : ∃ id, graph.BeginsAt id
  /-- Every reference leads to a block. -/
  closed : graph.Closed
  /-- Every conditional has both arms. -/
  arms : ∀ block ∈ graph.blocks, block.kind.HasArms
  /-- Every text that a statement needs says something. -/
  worded : ∀ block ∈ graph.blocks, block.kind.Worded
  /-- No block leads back to itself. -/
  acyclic : graph.Acyclic

/-! ## The start block -/

/-- No id occurs twice among the start blocks, since none does in the graph. -/
theorem starts_nodup (graph : Graph) : graph.starts.Nodup := by
  have hlt : graph.starts.Pairwise (· < ·) := by
    rw [starts, List.pairwise_map]
    exact graph.ascending.filter _
  exact hlt.imp fun hab => UInt32.ne_of_lt hab

/-- The list of the start blocks has one member where the graph has one start block. -/
theorem starts_eq_singleton_iff {id : BlockId} : graph.starts = [id] ↔ graph.BeginsAt id := by
  constructor
  · intro hstarts
    refine ⟨mem_starts.1 (by rw [hstarts]; exact List.mem_singleton_self id), ?_⟩
    intro block hmem hkind
    have hstart : block.id ∈ graph.starts := mem_starts.2 ⟨block, hmem, rfl, hkind⟩
    rw [hstarts] at hstart
    exact List.mem_singleton.1 hstart
  · -- neither list has a member twice, so it suffices that they have the same members
    rintro ⟨hexists, honly⟩
    apply List.perm_singleton.1
    rw [List.perm_ext_iff_of_nodup graph.starts_nodup (List.nodup_singleton id)]
    intro other
    rw [List.mem_singleton, mem_starts]
    constructor
    · rintro ⟨block, hmem, rfl, hkind⟩
      exact honly block hmem hkind
    · rintro rfl
      exact hexists

theorem entry?_eq_some_iff {id : BlockId} : graph.entry? = some id ↔ graph.BeginsAt id := by
  rw [← starts_eq_singleton_iff]
  unfold entry?
  split
  · rename_i only honly
    rw [honly, Option.some.injEq, List.cons.injEq]
    exact (and_iff_left rfl).symm
  · rename_i hmany
    constructor
    · intro hnone
      cases hnone
    · intro hsingle
      exact absurd hsingle (hmany id)

theorem startViolations_eq_nil_iff :
    graph.startViolations = [] ↔ ∃ id, graph.BeginsAt id := by
  simp only [← starts_eq_singleton_iff]
  unfold startViolations
  split
  · rename_i hnone
    simp [hnone]
  · rename_i only honly
    simp [honly]
  · rename_i hmany
    refine iff_of_false (List.cons_ne_nil _ _) ?_
    rintro ⟨id, hsingle⟩
    exact hmany id hsingle

/-! ## References -/

/-- The check for references passes over an edge that leads to a block, unless that is a start block
and the edge can be reached. -/
theorem referenceViolations_eq_nil_iff :
    graph.referenceViolations = [] ↔ graph.Closed ∧
      ∀ edge ∈ graph.edges, edge.source ∈ graph.reachable → edge.target ∉ graph.starts := by
  rw [referenceViolations, List.filterMap_eq_nil_iff, Closed, ← forall₂_and]
  -- edge by edge: both conditions are about what is found at the target
  refine forall₂_congr fun edge _ => ?_
  rw [contains]
  cases hget : graph.get? edge.target with
  | none => simp
  | some block =>
    rw [mem_starts_iff hget]
    by_cases hreach : edge.source ∈ graph.reachable
    · cases hstart : block.isStart <;> simp [hreach, hstart]
    · simp [hreach]

/-- A reachable block that refers to the only start block is led to by that start block, so the
reference closes a cycle. -/
theorem not_mem_starts_of_reachable {id : BlockId} (hstarts : graph.starts = [id])
    (hacyclic : graph.Acyclic) :
    ∀ edge ∈ graph.edges, edge.source ∈ graph.reachable → edge.target ∉ graph.starts := by
  intro edge hedge hreach htarget
  -- the block was reached from some start block, and there is one only
  obtain ⟨start, hstart, hway⟩ := mem_reachable_iff.1 hreach
  rw [hstarts, List.mem_singleton] at hstart htarget
  have hlinks : graph.Links ≤ graph.Refers := Along.mono fun _ hother => hother.1
  have hforth : ReflTransGen graph.Refers id edge.source := by
    rw [← hstart]
    exact ReflTransGen.mono hlinks _ _ hway
  have hback : graph.Refers edge.source id := by
    rw [← htarget]
    exact ⟨edge.slot, hedge⟩
  exact hacyclic id (.tail' hforth hback)

/-! ## Attributes -/

theorem missingArms_eq_nil_iff {block : Block} :
    block.missingArms = [] ↔ block.kind.HasArms := by
  unfold Block.missingArms BlockKind.HasArms
  cases block.kind <;> simp

theorem armViolations_eq_nil_iff :
    graph.armViolations = [] ↔ ∀ block ∈ graph.blocks, block.kind.HasArms := by
  rw [armViolations, List.flatMap_eq_nil_iff]
  refine forall₂_congr fun block _ => ?_
  rw [List.map_eq_nil_iff, missingArms_eq_nil_iff]

theorem isBlankText_eq_false_iff {text : String} : isBlankText text = false ↔ HasText text := by
  unfold isBlankText HasText
  simp

/-- A required text that says something is the only thing that the check for attributes looks at;
kinds without such a text have nothing to be worded. -/
theorem attributeViolations_eq_nil_iff :
    graph.attributeViolations = [] ↔ ∀ block ∈ graph.blocks, block.kind.Worded := by
  rw [attributeViolations, List.filterMap_eq_nil_iff]
  refine forall₂_congr fun block _ => ?_
  have htext (id : BlockId) (name text : String) :
      (if isBlankText text then some (Violation.at id (.emptyAttribute name)) else none) = none ↔
        HasText text := by
    rw [← isBlankText_eq_false_iff]
    cases isBlankText text <;> simp
  cases hkind : block.kind with
  | loop condition child => exact htext block.id "condition" condition
  | conditional condition ifTrue ifFalse => exact htext block.id "condition" condition
  | read name pin => exact htext block.id "variable" name
  | declare name => exact htext block.id "name" name
  | _ => exact iff_of_true rfl trivial

theorem cycleViolations_eq_nil_iff : graph.cycleViolations = [] ↔ graph.Acyclic := by
  rw [cycleViolations, List.map_eq_nil_iff, cycleEdges_eq_nil_iff]

/-! ## All checks together -/

/-- The checks find nothing exactly where the graph is well formed. -/
theorem violations_eq_nil_iff : graph.violations = [] ↔ graph.WellFormed := by
  unfold violations
  simp only [List.append_eq_nil_iff, startViolations_eq_nil_iff, referenceViolations_eq_nil_iff,
    armViolations_eq_nil_iff, attributeViolations_eq_nil_iff, cycleViolations_eq_nil_iff]
  constructor
  · rintro ⟨⟨⟨⟨hbegins, hclosed, -⟩, harms⟩, hworded⟩, hacyclic⟩
    exact ⟨hbegins, hclosed, harms, hworded, hacyclic⟩
  · rintro ⟨⟨id, hbegins⟩, hclosed, harms, hworded, hacyclic⟩
    -- the second half of the check for references has nothing left to find
    have hstarts := starts_eq_singleton_iff.2 hbegins
    exact ⟨⟨⟨⟨⟨id, hbegins⟩, hclosed, not_mem_starts_of_reachable hstarts hacyclic⟩, harms⟩,
      hworded⟩, hacyclic⟩

end Graph

/-! ## Valid graphs -/

theorem ValidGraph.wellFormed (valid : ValidGraph) : valid.graph.WellFormed :=
  Graph.violations_eq_nil_iff.1 valid.valid

theorem ValidGraph.beginsAt_entry (valid : ValidGraph) : valid.graph.BeginsAt valid.entry :=
  Graph.entry?_eq_some_iff.1 valid.entry_eq

/-- What validation gives back: the graph and its entry where nothing was found, and what was found
otherwise. A graph without violations has an entry, so there is no third case. -/
theorem Graph.validated_cases (graph : Graph) :
    (∃ valid, graph.validated = .ok valid ∧ valid.graph = graph ∧ graph.violations = []) ∨
      graph.validated = .error ⟨graph.violations⟩ ∧ graph.violations ≠ [] := by
  unfold Graph.validated
  split
  · rename_i entry hvalid hentry
    exact .inl ⟨_, rfl, rfl, hvalid⟩
  · rename_i hvalid hentry
    obtain ⟨id, hbegins⟩ := (Graph.violations_eq_nil_iff.1 hvalid).begins
    rw [Graph.entry?_eq_some_iff.2 hbegins] at hentry
    cases hentry
  · rename_i violation violations hfound
    rw [hfound]
    exact .inr ⟨rfl, List.cons_ne_nil _ _⟩

/-- A graph is valid in one way only, since it has one entry. -/
theorem ValidGraph.eq_of_graph_eq {valid other : ValidGraph} (h : valid.graph = other.graph) :
    valid = other := by
  have hentry : some valid.entry = some other.entry := by
    rw [← valid.entry_eq, ← other.entry_eq, h]
  cases valid
  cases other
  cases h
  cases hentry
  rfl

/-- Validating the graph of a valid graph gives it back. -/
theorem ValidGraph.validated_graph (valid : ValidGraph) : valid.graph.validated = .ok valid := by
  rcases valid.graph.validated_cases with ⟨other, hok, hgraph, -⟩ | ⟨-, hfound⟩
  · rw [hok, ValidGraph.eq_of_graph_eq hgraph]
  · exact absurd valid.valid hfound

/-- Validation accepts the well-formed graphs and no others. What it gives back for one is that
graph, entered at its only start block; for any other graph it gives back the whole list of
violations. -/
theorem Graph.validated_ok_iff_wellFormed (graph : Graph) :
    ((∃ valid, graph.validated = .ok valid) ↔ graph.WellFormed) ∧
      (∀ valid, graph.validated = .ok valid → valid.graph = graph ∧ graph.BeginsAt valid.entry) ∧
      ∀ report, graph.validated = .error report → report.violations = graph.violations := by
  rcases graph.validated_cases with ⟨valid, hok, hgraph, hnil⟩ | ⟨herror, hfound⟩
  · rw [hok]
    refine ⟨iff_of_true ⟨valid, rfl⟩ (Graph.violations_eq_nil_iff.1 hnil), ?_, ?_⟩
    · intro other hother
      cases hother
      refine ⟨hgraph, ?_⟩
      rw [← hgraph]
      exact valid.beginsAt_entry
    · intro report hreport
      cases hreport
  · rw [herror]
    refine ⟨iff_of_false ?_ ?_, ?_, ?_⟩
    · rintro ⟨valid, hok⟩
      cases hok
    · intro hwell
      exact hfound (Graph.violations_eq_nil_iff.2 hwell)
    · intro valid hok
      cases hok
    · intro report hreport
      cases hreport
      rfl

end BlockDiagram
