/-
Blocks that a program does not reach.

An editor leaves blocks lying about that nothing leads to, and they do no harm: a program is made of
the blocks that its entry leads to, and validation asks no more of the others than that they are in
order by themselves. So a graph may be given another block, and it may be cut down to what its entry
leads to, without a trace in the program.

Both changes put one graph inside another. A new block has an id that no block had, and in a valid
graph no reference leads to such an id; whatever the new block refers to, no way leads back to it,
and no way of the others goes through it. In the other direction, what the entry leads to is closed
under references. What is common to both is said once, of any two graphs of which one has only
blocks of the other.
-/
import BlockDiagram.Proofs.Graph.Building
import BlockDiagram.Proofs.Program.Bisimulation

set_option autoImplicit false

namespace BlockDiagram

open Relation

/-! ## Graphs within graphs -/

/-- Whether the blocks of a graph are blocks of another one. -/
def Graph.Within (part whole : Graph) : Prop :=
  ∀ block ∈ part.blocks, block ∈ whole.blocks

section Within

variable {part whole : Graph}

theorem Graph.Within.refers_le (h : part.Within whole) : part.Refers ≤ whole.Refers := by
  apply Along.mono
  intro edge hedge
  obtain ⟨block, hblock, hid, hreference⟩ := Graph.mem_edges_iff.1 hedge
  exact Graph.mem_edges_iff.2 ⟨block, h block hblock, hid, hreference⟩

/-- Within a well-formed graph, a graph is well formed if it has the start block and what its own
blocks refer to. -/
theorem Graph.Within.wellFormed (h : part.Within whole) (hwhole : whole.WellFormed)
    (hstart : ∃ block ∈ part.blocks, block.kind = .start) (hclosed : part.Closed) :
    part.WellFormed where
  begins := by
    obtain ⟨id, -, honly⟩ := hwhole.begins
    obtain ⟨start, hmem, hkind⟩ := hstart
    have hid : start.id = id := honly start (h start hmem) hkind
    exact ⟨id, ⟨start, hmem, hid, hkind⟩, fun block hblock => honly block (h block hblock)⟩
  closed := hclosed
  arms block hblock := hwhole.arms block (h block hblock)
  worded block hblock := hwhole.worded block (h block hblock)
  acyclic id hcycle := hwhole.acyclic id (TransGen.mono h.refers_le _ _ hcycle)

/-- Blocks of the same id are the same block, so they have the same references. -/
theorem Graph.Within.bisimulation (h : part.Within whole) : Bisimulation part whole Eq := by
  constructor
  · intro x hx y hy hid
    rw [Graph.eq_of_id_eq (h x hx) hy hid]
  · intro slot x hx y hy hid
    rw [Graph.eq_of_id_eq (h x hx) hy hid]
    cases y.target? slot with
    | none => exact .none
    | some target => exact .some rfl

end Within

namespace ValidGraph

variable {part whole : ValidGraph}

theorem entry_eq_of_within (h : part.graph.Within whole.graph) : part.entry = whole.entry := by
  obtain ⟨⟨start, hmem, hid, hkind⟩, -⟩ := part.beginsAt_entry
  rw [← hid]
  exact whole.beginsAt_entry.2 start (h start hmem) hkind

/-- A valid graph within a valid graph has the same program: whatever the larger one has besides is
out of reach. -/
theorem program_eq_of_within (h : part.graph.Within whole.graph) (width : UInt64) :
    part.program width = whole.program width := by
  have hstatements : part.tree.statements = whole.tree.statements :=
    statements_unfold_eq h.bisimulation _ part.resolves_entry _ whole.resolves_entry
      (.some (entry_eq_of_within h))
  rw [program_eq_linesText, program_eq_linesText, hstatements]

end ValidGraph

/-- A well-formed graph is accepted as it is. -/
theorem Graph.WellFormed.exists_validated {graph : Graph} (h : graph.WellFormed) :
    ∃ valid, graph.validated = .ok valid ∧ valid.graph = graph := by
  rcases graph.validated_cases with ⟨valid, hok, hgraph, -⟩ | ⟨-, hfound⟩
  · exact ⟨valid, hok, hgraph⟩
  · exact absurd (violations_eq_nil_iff.2 h) hfound

/-! ## One block more -/

namespace Graph

/-- Whether a block can be added to a graph as one that nothing leads to. What it refers to itself
may be any block of the graph, the start block not excluded. -/
structure Admits (graph : Graph) (block : Block) : Prop where
  /-- The id is new. -/
  fresh : graph.contains block.id = false
  plain : block.kind ≠ .start
  /-- Every reference leads to a block that is there already. -/
  resolved : ∀ reference ∈ block.references, graph.contains reference.2 = true
  arms : block.kind.HasArms
  worded : block.kind.Worded

variable {graph : Graph} {block : Block} {a b : BlockId}

namespace Admits

theorem mem_blocks_insert (h : graph.Admits block) {other : Block} :
    other ∈ (graph.insert block).blocks ↔ other = block ∨ other ∈ graph.blocks := by
  rw [Graph.mem_blocks_insert]
  refine or_congr_right (and_iff_left_of_imp fun hother hid => ?_)
  have hcontains : graph.contains block.id = true := by
    rw [← hid]
    exact contains_of_get? (get?_eq_some_iff.2 ⟨hother, rfl⟩)
  rw [h.fresh] at hcontains
  cases hcontains

theorem within (h : graph.Admits block) : graph.Within (graph.insert block) :=
  fun _ hother => h.mem_blocks_insert.2 (.inr hother)

/-- Every reference of the larger graph leads into the smaller one, and is one of its own unless it
comes from the new block. -/
theorem of_refers (h : graph.Admits block) (hclosed : graph.Closed)
    (hrefers : (graph.insert block).Refers a b) :
    graph.contains b = true ∧ (a = block.id ∨ graph.Refers a b) := by
  obtain ⟨slot, hedge⟩ := hrefers
  obtain ⟨source, hsource, rfl, hreference⟩ := mem_edges_iff.1 hedge
  rcases h.mem_blocks_insert.1 hsource with rfl | hsource
  · exact ⟨h.resolved _ hreference, .inl rfl⟩
  · have hedge' : ⟨source.id, slot, b⟩ ∈ graph.edges :=
      mem_edges_iff.2 ⟨source, hsource, rfl, hreference⟩
    exact ⟨hclosed _ hedge', .inr ⟨slot, hedge'⟩⟩

/-- No reference leads to the new block. -/
theorem not_refers (h : graph.Admits block) (hclosed : graph.Closed) :
    ¬ (graph.insert block).Refers a block.id := by
  intro hrefers
  have hcontains := (h.of_refers hclosed hrefers).1
  rw [h.fresh] at hcontains
  cases hcontains

/-- A way that does not begin at the new block does not come to it either. -/
theorem transGen_refers (h : graph.Admits block) (hclosed : graph.Closed)
    (hway : TransGen (graph.insert block).Refers a b) (hne : a ≠ block.id) :
    TransGen graph.Refers a b := by
  -- reference by reference from the front; what a reference leads to is not the new block
  induction hway using TransGen.head_induction_on with
  | single hrefers =>
    exact .single ((h.of_refers hclosed hrefers).2.resolve_left hne)
  | head hrefers _ ih =>
    refine .head ((h.of_refers hclosed hrefers).2.resolve_left hne) (ih ?_)
    rintro rfl
    exact h.not_refers hclosed hrefers

theorem acyclic (h : graph.Admits block) (hwell : graph.WellFormed) :
    (graph.insert block).Acyclic := by
  intro id hcycle
  obtain ⟨last, -, hrefers⟩ := TransGen.tail'_iff.1 hcycle
  have hne : id ≠ block.id := by
    rintro rfl
    exact h.not_refers hwell.closed hrefers
  exact hwell.acyclic id (h.transGen_refers hwell.closed hcycle hne)

/-- Adding such a block keeps a graph well formed. -/
theorem wellFormed (h : graph.Admits block) (hwell : graph.WellFormed) :
    (graph.insert block).WellFormed where
  begins := by
    obtain ⟨id, ⟨start, hmem, hid, hkind⟩, honly⟩ := hwell.begins
    refine ⟨id, ⟨start, h.within start hmem, hid, hkind⟩, fun other hother hstart => ?_⟩
    rcases h.mem_blocks_insert.1 hother with rfl | hother
    · exact absurd hstart h.plain
    · exact honly other hother hstart
  closed edge hedge := by
    have htarget := (h.of_refers hwell.closed ⟨edge.slot, hedge⟩).1
    obtain ⟨target, hget⟩ := get?_of_contains htarget
    obtain ⟨hmem, hid⟩ := get?_eq_some_iff.1 hget
    exact contains_of_get? (get?_eq_some_iff.2 ⟨h.within target hmem, hid⟩)
  arms other hother := by
    rcases h.mem_blocks_insert.1 hother with rfl | hother
    · exact h.arms
    · exact hwell.arms other hother
  worded other hother := by
    rcases h.mem_blocks_insert.1 hother with rfl | hother
    · exact h.worded
    · exact hwell.worded other hother
  acyclic := h.acyclic hwell

end Admits

end Graph

/-! ## Nothing but what is reached -/

/-- The blocks of a graph that can be reached from where the program begins. -/
def Graph.pruned (graph : Graph) : Graph where
  blocks := graph.blocks.filter fun block => graph.reachable.contains block.id
  ascending := graph.ascending.filter _

namespace ValidGraph

/-- What is left are the blocks that the entry leads to, itself included. -/
theorem mem_pruned_iff (valid : ValidGraph) {block : Block} :
    block ∈ valid.graph.pruned.blocks ↔
      block ∈ valid.graph.blocks ∧ ReflTransGen valid.graph.Refers valid.entry block.id := by
  have hstarts : valid.graph.starts = [valid.entry] :=
    Graph.starts_eq_singleton_iff.2 valid.beginsAt_entry
  -- where every reference leads to a block, to refer and to link is the same
  have hlinks : valid.graph.Links = valid.graph.Refers := by
    funext a b
    refine propext ⟨fun ⟨slot, hedge, _⟩ => ⟨slot, hedge⟩, fun ⟨slot, hedge⟩ => ?_⟩
    exact ⟨slot, hedge, valid.closed _ hedge⟩
  rw [Graph.pruned, List.mem_filter, List.contains_iff_mem, Graph.mem_reachable_iff, hstarts,
    hlinks]
  simp

theorem within_pruned (valid : ValidGraph) : valid.graph.pruned.Within valid.graph :=
  fun _ hblock => (valid.mem_pruned_iff.1 hblock).1

/-- What a block refers to that the entry leads to, the entry leads to as well. -/
theorem closed_pruned (valid : ValidGraph) : valid.graph.pruned.Closed := by
  intro edge hedge
  obtain ⟨block, hblock, hid, hreference⟩ := Graph.mem_edges_iff.1 hedge
  obtain ⟨hmem, hway⟩ := valid.mem_pruned_iff.1 hblock
  have hedge' : edge ∈ valid.graph.edges := Graph.mem_edges_iff.2 ⟨block, hmem, hid, hreference⟩
  obtain ⟨target, hget⟩ := Graph.get?_of_contains (valid.closed edge hedge')
  obtain ⟨htarget, hid'⟩ := Graph.get?_eq_some_iff.1 hget
  have hway' : ReflTransGen valid.graph.Refers valid.entry target.id := by
    rw [hid] at hway
    rw [hid']
    exact hway.tail ⟨edge.slot, hedge'⟩
  have hkept : target ∈ valid.graph.pruned.blocks := valid.mem_pruned_iff.2 ⟨htarget, hway'⟩
  exact Graph.contains_of_get? (Graph.get?_eq_some_iff.2 ⟨hkept, hid'⟩)

theorem wellFormed_pruned (valid : ValidGraph) : valid.graph.pruned.WellFormed := by
  apply valid.within_pruned.wellFormed valid.wellFormed _ valid.closed_pruned
  obtain ⟨⟨start, hmem, hid, hkind⟩, -⟩ := valid.beginsAt_entry
  exact ⟨start, valid.mem_pruned_iff.2 ⟨hmem, hid ▸ .refl⟩, hkind⟩

/-- **Blocks out of reach.** A valid graph remains valid with a block added that it admits, and cut
down to the blocks that its entry leads to; in both cases it has the same entry and the same
program, however wide a level is. -/
theorem program_unreached (valid : ValidGraph) :
    (∀ block, valid.graph.Admits block → ∃ more, (valid.graph.insert block).validated = .ok more ∧
        more.entry = valid.entry ∧ ∀ width, more.program width = valid.program width) ∧
      (∀ block, block ∈ valid.graph.pruned.blocks ↔
        block ∈ valid.graph.blocks ∧ ReflTransGen valid.graph.Refers valid.entry block.id) ∧
      ∃ less, valid.graph.pruned.validated = .ok less ∧
        less.entry = valid.entry ∧ ∀ width, less.program width = valid.program width := by
  refine ⟨fun block hadmits => ?_, fun _ => valid.mem_pruned_iff, ?_⟩
  · obtain ⟨more, hok, hgraph⟩ := (hadmits.wellFormed valid.wellFormed).exists_validated
    have hwithin : valid.graph.Within more.graph := by
      rw [hgraph]
      exact hadmits.within
    exact ⟨more, hok, (entry_eq_of_within hwithin).symm,
      fun width => (program_eq_of_within hwithin width).symm⟩
  · obtain ⟨less, hok, hgraph⟩ := valid.wellFormed_pruned.exists_validated
    have hwithin : less.graph.Within valid.graph := by
      rw [hgraph]
      exact valid.within_pruned
    exact ⟨less, hok, entry_eq_of_within hwithin, program_eq_of_within hwithin⟩

end ValidGraph

/-- A loop that lies about: it goes on at the start block and has a shared block for its body. -/
def stray : Block := ⟨9, some 0, .loop "x" (some 2), .nil⟩

theorem admits_stray : sharing.graph.Admits stray where
  fresh := by decide
  plain := by decide
  resolved := by decide
  arms := trivial
  worded := ⟨'x', by decide⟩

/-- The start block is referred to, and still the program is the same. -/
theorem program_sharing_insert_stray : sharing.graph.Admits stray ∧
    ∃ more, (sharing.graph.insert stray).validated = .ok more ∧ more.entry = 0 ∧
      more.program 4 = sharing.program 4 := by
  obtain ⟨more, hok, hentry, hprogram⟩ := sharing.program_unreached.1 stray admits_stray
  exact ⟨admits_stray, more, hok, hentry, hprogram 4⟩

end BlockDiagram
