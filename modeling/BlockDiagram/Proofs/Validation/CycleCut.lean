/-
Which references are reported as closing a cycle.

There is more than one way to break all cycles of a graph by taking references away, and the search
picks one of them by the order in which it goes. Whatever it picks, it does not pick too much: each
reference that it reports closes a cycle with references none of which was reported, so leaving out
a single one of the reports leaves a cycle in place. Together with the fact that nothing goes round
once all of them are taken away, the reports are a minimal cut.

Only references from a block to a block can take part in a cycle. The search passes over the ones
that lead into the void, and so does this file.
-/
import BlockDiagram.Proofs.Validation.CycleSearch
import BlockDiagram.Proofs.Validation.Findings
import Mathlib.Order.Minimal

set_option autoImplicit false

namespace BlockDiagram

open Relation

/-! ## No reference is reported twice -/

namespace Search

variable {graph : Graph} {search : Search}

theorem found_settle (search : Search) : search.settle.found = search.found := by
  rcases settle_cases search with
    ⟨-, hsettle⟩ | ⟨-, -, hsettle⟩ | ⟨-, _, _, _, -, -, -, hsettle⟩ <;> rw [hsettle]
  rfl

/-- Following the edge on hand reports it once at most: it was not reported before. -/
theorem Sound.nodup_follow {edge : Edge} (h : Sound graph (some edge) search)
    (hnodup : search.found.Nodup) : (search.follow graph edge).found.Nodup := by
  rcases follow_cases graph search edge with ⟨-, hfollow⟩ | ⟨-, hfollow⟩ | ⟨-, _, -, hfollow⟩
  · rw [hfollow, Search.report]
    exact List.nodup_append.2 ⟨hnodup, List.nodup_singleton edge, fun other hother _ hedge heq =>
      h.onHand_notMem_found rfl (List.mem_singleton.1 hedge ▸ heq ▸ hother)⟩
  · rwa [hfollow]
  · rwa [hfollow]

theorem Sound.nodup_step {next : Search} (h : Sound graph none search)
    (hnodup : search.found.Nodup) (hstep : step? graph search = some next) : next.found.Nodup := by
  rcases step_cases hstep with ⟨id, stack, -, rfl⟩ | ⟨id, slot, target, left, stack, hstack, rfl⟩
  · rwa [found_settle]
  · exact (h.take hstack).nodup_follow hnodup

end Search

namespace Graph

theorem nodup_cycleEdges (graph : Graph) : graph.cycleEdges.Nodup := by
  have hstart : (Search.start graph).found.Nodup := by
    rw [Search.start, Search.found_settle]
    exact List.nodup_nil
  exact (drive_preserves (P := fun search => Search.Sound graph none search ∧ search.found.Nodup)
    (fun _ _ h hstep => ⟨h.1.step hstep, h.1.nodup_step h.2 hstep⟩) graph.weight
    ⟨Search.sound_start graph, hstart⟩).2

/-! ## References from block to block -/

/-- The references that lead from a block of the graph to a block of the graph. -/
def innerEdges (graph : Graph) : Set Edge :=
  {edge | edge ∈ graph.edges ∧ graph.contains edge.source = true ∧
    graph.contains edge.target = true}

/-- The references among them that the search reported. -/
def reportedEdges (graph : Graph) : Set Edge :=
  {edge | edge ∈ graph.cycleEdges}

/-- Whether taking some of these references away leaves no block that leads back to itself. -/
structure Breaks (graph : Graph) (cut : Set Edge) : Prop where
  subset : cut ⊆ graph.innerEdges
  acyclic : ∀ id, ¬ TransGen (Along (· ∈ graph.innerEdges \ cut)) id id

variable {graph : Graph}

theorem mem_innerEdges_iff {edge : Edge} :
    edge ∈ graph.innerEdges ↔ edge ∈ graph.edges ∧ graph.contains edge.target = true := by
  constructor
  · rintro ⟨hedge, -, htarget⟩
    exact ⟨hedge, htarget⟩
  · rintro ⟨hedge, htarget⟩
    exact ⟨hedge, Refers.contains ⟨edge.slot, hedge⟩, htarget⟩

/-- A way that ends at a block goes along references from block to block: what it comes to on the
way refers to something, and is a block for that reason. -/
theorem inner_of_unreported {a b : BlockId} (hb : graph.contains b = true)
    (h : ReflTransGen (Along graph.Unreported) a b) :
    graph.contains a = true ∧
      ReflTransGen (Along (· ∈ graph.innerEdges \ graph.reportedEdges)) a b := by
  induction h using ReflTransGen.head_induction_on with
  | refl => exact ⟨hb, .refl⟩
  | head hab _ ih =>
    obtain ⟨slot, hedge, hreported⟩ := hab
    obtain ⟨hcontains, hrest⟩ := ih
    refine ⟨Refers.contains ⟨slot, hedge⟩, .head ⟨slot, ?_, hreported⟩ hrest⟩
    exact mem_innerEdges_iff.2 ⟨hedge, hcontains⟩

/-- A reported reference leads from a block to a block, and back again without the help of another
reported one. -/
theorem closes_of_mem_cycleEdges {edge : Edge} (h : edge ∈ graph.cycleEdges) :
    edge ∈ graph.innerEdges ∧
      ReflTransGen (Along (· ∈ graph.innerEdges \ graph.reportedEdges)) edge.target
        edge.source := by
  obtain ⟨hedge, hback⟩ := of_mem_cycleEdges h
  obtain ⟨htarget, hback⟩ := inner_of_unreported (Refers.contains ⟨edge.slot, hedge⟩) hback
  exact ⟨mem_innerEdges_iff.2 ⟨hedge, htarget⟩, hback⟩

/-! ## The cut -/

theorem breaks_reportedEdges (graph : Graph) : graph.Breaks graph.reportedEdges where
  subset _ hedge := (closes_of_mem_cycleEdges hedge).1
  acyclic id hcycle := by
    refine graph.not_transGen_unreported id (TransGen.mono (Along.mono ?_) _ _ hcycle)
    rintro edge ⟨⟨hedge, -, -⟩, hreported⟩
    exact ⟨hedge, hreported⟩

/-- A cut that leaves a reported reference in place leaves the cycle that this one closes in place
as well, unless it takes away a reference that was not reported. -/
theorem Breaks.reportedEdges_subset {cut : Set Edge} (h : graph.Breaks cut)
    (hcut : cut ⊆ graph.reportedEdges) : graph.reportedEdges ⊆ cut := by
  intro edge hreported
  by_contra hnot
  obtain ⟨hedge, hback⟩ := closes_of_mem_cycleEdges hreported
  have hkept : Along (· ∈ graph.innerEdges \ graph.reportedEdges)
      ≤ Along (· ∈ graph.innerEdges \ cut) :=
    Along.mono fun other hother => ⟨hother.1, fun hmem => hother.2 (hcut hmem)⟩
  exact h.acyclic edge.source
    (.head' ⟨edge.slot, hedge, hnot⟩ (ReflTransGen.mono hkept _ _ hback))

/-- **The references reported.** The violations about cycles name references from block to block,
each of them once. Without these no block leads back to itself; each of them closes a cycle with
references that are not among them; and so no part of them would do. -/
theorem cycleEdges_minimal_cut (graph : Graph) :
    graph.violations.filter Violation.isCycle
        = graph.cycleEdges.map (fun edge => .at edge.source (.cycle edge.slot edge.target)) ∧
      graph.cycleEdges.Nodup ∧
      (∀ edge ∈ graph.cycleEdges, edge ∈ graph.innerEdges ∧
        ReflTransGen (Along (· ∈ graph.innerEdges \ graph.reportedEdges)) edge.target
          edge.source) ∧
      Minimal graph.Breaks graph.reportedEdges := by
  refine ⟨graph.filter_isCycle, graph.nodup_cycleEdges, fun _ => closes_of_mem_cycleEdges, ?_⟩
  exact ⟨graph.breaks_reportedEdges, fun _ hbreaks hcut => hbreaks.reportedEdges_subset hcut⟩

/-- Minimal is not least. Both references from block 2 back to block 1 are reported, and neither can
be left out; taking away the one from block 1 to block 2 would have done as well. -/
example :
    (Graph.ofList [⟨1, some 2, .code "", .nil⟩,
      ⟨2, some 1, .loop "x" (some 1), .nil⟩]).cycleEdges = [⟨2, .next, 1⟩, ⟨2, .child, 1⟩] := by
  decide

end Graph

end BlockDiagram
