/-
Ids as mere names.

What the ids of a diagram are is of no concern to anyone who reads it, as long as different blocks
have different ones. Validation goes by them nevertheless: the checks take the blocks in ascending
order of id, and so do the two searches, so a diagram under other ids is searched from other blocks
along other ways, and another reference may be the one that is blamed for a cycle. The renaming
below sends a graph to one that has the same references between renamed blocks. It is shown that
the blocks that can be reached are the renamed ones, that a block leads back to itself under its new
id exactly if it did before, and with these that every check but the one for cycles reports the
same, and that one reports something in both graphs or in neither.

A renaming need not be injective. It has to keep apart the ids that occur, those of missing blocks
included: a dangling reference that comes to lead to a block is not dangling any more.
-/
import BlockDiagram.Proofs.Graph.Building
import BlockDiagram.Proofs.Validation.Findings

set_option autoImplicit false

namespace BlockDiagram

open Relation

/-! ## Renaming -/

/-- An arm under other ids. -/
def Arm.rename (r : BlockId → BlockId) : Arm → Arm
  | .to target => .to (r target)
  | arm => arm

/-- A kind under other ids. -/
def BlockKind.rename (r : BlockId → BlockId) : BlockKind → BlockKind
  | .loop condition child => .loop condition (child.map r)
  | .conditional condition ifTrue ifFalse =>
    .conditional condition (ifTrue.rename r) (ifFalse.rename r)
  | kind => kind

/-- A block under other ids. What it keeps besides is not looked into. -/
def Block.rename (r : BlockId → BlockId) (block : Block) : Block :=
  { block with id := r block.id, next := block.next.map r, kind := block.kind.rename r }

/-- A reference under other ids. -/
def Edge.rename (r : BlockId → BlockId) (edge : Edge) : Edge :=
  ⟨r edge.source, edge.slot, r edge.target⟩

/-- A graph under other ids. -/
def Graph.rename (r : BlockId → BlockId) (graph : Graph) : Graph :=
  .ofList (graph.blocks.map (Block.rename r))

/-- The ids that occur in a graph, of blocks and of what they refer to. -/
def Graph.names (graph : Graph) : List BlockId :=
  graph.ids ++ graph.edges.map Edge.target

/-- A defect under other ids. Where ids are listed, they are put in ascending order again. -/
def Defect.rename (r : BlockId → BlockId) : Defect → Defect
  | .multipleStarts ids => .multipleStarts ((ids.map r).insertionSort (· ≤ ·))
  | .dangling slot target => .dangling slot (r target)
  | .cycle slot target => .cycle slot (r target)
  | defect => defect

/-- A violation under other ids. -/
def Violation.rename (r : BlockId → BlockId) (violation : Violation) : Violation :=
  ⟨violation.block.map r, violation.defect.rename r⟩

/-! ## What a renamed block is -/

namespace Block

variable (r : BlockId → BlockId) (block : Block)

/-- The references of a block lead from the same slots to the renamed targets. -/
theorem references_rename :
    (block.rename r).references =
      block.references.map fun reference => (reference.1, r reference.2) := by
  have hone (slot : Slot) (target : Option BlockId) : reference? slot (target.map r) =
      (reference? slot target).map fun reference => (reference.1, r reference.2) := by
    cases target <;> rfl
  have harm (arm : Arm) : (arm.rename r).target? = arm.target?.map r := by cases arm <;> rfl
  obtain ⟨id, next, kind, extra⟩ := block
  cases kind <;> simp [references, Block.rename, BlockKind.rename, hone, harm]

@[simp] theorem isStart_rename : (block.rename r).isStart = block.isStart := by
  obtain ⟨id, next, kind, extra⟩ := block
  cases kind <;> rfl

/-- A renamed arm is missing if the arm was. -/
@[simp] theorem missingArms_rename : (block.rename r).missingArms = block.missingArms := by
  have harm (arm : Arm) : arm.rename r = .missing ↔ arm = .missing := by
    cases arm <;> simp [Arm.rename]
  obtain ⟨id, next, kind, extra⟩ := block
  cases kind <;> simp [missingArms, Block.rename, BlockKind.rename, harm]

@[simp] theorem requiredText?_rename :
    (block.rename r).kind.requiredText? = block.kind.requiredText? := by
  obtain ⟨id, next, kind, extra⟩ := block
  cases kind <;> rfl

end Block

/-! ## Ways -/

/-- Where steps lead from and to places that are kept apart, the ways along renamed steps from a
renamed place are the renamed ways. -/
theorem reflTransGen_map_iff {α : Type} {R : α → α → Prop} {r : α → α} {places : Set α}
    (hinj : Set.InjOn r places) (hR : ∀ a b, R a b → a ∈ places ∧ b ∈ places) {a : α}
    (ha : a ∈ places) {c : α} :
    ReflTransGen (Relation.Map R r r) (r a) c ↔ ∃ b ∈ places, r b = c ∧ ReflTransGen R a b := by
  constructor
  · intro hway
    induction hway with
    | refl => exact ⟨a, ha, rfl, .refl⟩
    | tail _ hstep ih =>
      obtain ⟨b, hb, hbc, hway⟩ := ih
      obtain ⟨b', d, hstep, hbc', rfl⟩ := hstep
      obtain ⟨hb', hd⟩ := hR b' d hstep
      -- the step goes on from where the way has come to
      obtain rfl : b = b' := hinj hb hb' (hbc.trans hbc'.symm)
      exact ⟨d, hd, rfl, hway.tail hstep⟩
  · rintro ⟨b, -, rfl, hway⟩
    exact hway.lift r fun x y hstep => ⟨x, y, hstep, rfl, rfl⟩

/-- Renamed references lead from renamed blocks to renamed blocks. -/
theorem along_rename {r : BlockId → BlockId} {edges edges' : Edge → Prop}
    (h : ∀ edge', edges' edge' ↔ ∃ edge, edges edge ∧ edge.rename r = edge') :
    Along edges' = Relation.Map (Along edges) r r := by
  funext a b
  refine propext ⟨?_, ?_⟩
  · rintro ⟨slot, hrenamed⟩
    obtain ⟨edge, hedge, heq⟩ := (h _).1 hrenamed
    cases heq
    exact ⟨_, _, ⟨edge.slot, hedge⟩, rfl, rfl⟩
  · rintro ⟨a, b, ⟨slot, hedge⟩, rfl, rfl⟩
    exact ⟨slot, (h _).2 ⟨_, hedge, rfl⟩⟩

namespace Graph

variable {graph : Graph} {r : BlockId → BlockId}

/-! ## What a renamed graph is -/

theorem mem_names_of_mem_blocks {block : Block} (h : block ∈ graph.blocks) :
    block.id ∈ graph.names :=
  List.mem_append_left _ (List.mem_map_of_mem h)

theorem mem_names_of_mem_edges {edge : Edge} (h : edge ∈ graph.edges) :
    edge.source ∈ graph.names ∧ edge.target ∈ graph.names := by
  obtain ⟨block, hblock, hid, -⟩ := mem_edges_iff.1 h
  rw [← hid]
  exact ⟨mem_names_of_mem_blocks hblock, List.mem_append_right _ (List.mem_map_of_mem h)⟩

theorem Refers.mem_names {a b : BlockId} (h : graph.Refers a b) :
    a ∈ graph.names ∧ b ∈ graph.names := by
  obtain ⟨slot, hedge⟩ := h
  exact mem_names_of_mem_edges hedge

theorem startViolations_of_lt (hmany : 1 < graph.starts.length) :
    graph.startViolations = [.ofGraph (.multipleStarts graph.starts)] := by
  unfold startViolations
  match graph.starts, hmany with
  | _ :: _ :: _, _ => rfl

section Renamed

variable (hinj : Set.InjOn r {id | id ∈ graph.names})

include hinj

/-- No two blocks are given the same id, so none is lost. -/
theorem blocks_rename_perm :
    (graph.rename r).blocks.Perm (graph.blocks.map (Block.rename r)) := by
  apply blocks_ofList_perm
  have hids : (graph.blocks.map (Block.rename r)).map Block.id = graph.ids.map r := by
    simp only [ids, List.map_map]
    rfl
  rw [hids]
  refine graph.nodup_ids.map_on fun a ha b hb heq => ?_
  exact hinj (List.mem_append_left _ ha) (List.mem_append_left _ hb) heq

theorem edges_rename_perm : (graph.rename r).edges.Perm (graph.edges.map (Edge.rename r)) := by
  have hblocks := (blocks_rename_perm hinj).flatMap_right fun block =>
    block.references.map fun reference => Edge.mk block.id reference.1 reference.2
  have hblock (block : Block) :
      ((block.rename r).references.map fun reference =>
          Edge.mk (block.rename r).id reference.1 reference.2) =
        (block.references.map fun reference =>
          Edge.mk block.id reference.1 reference.2).map (Edge.rename r) := by
    rw [Block.references_rename, List.map_map, List.map_map]
    rfl
  rw [List.flatMap_map, List.flatMap_congr fun block _ => hblock block, ← List.map_flatMap]
    at hblocks
  exact hblocks

theorem mem_edges_rename {edge : Edge} :
    edge ∈ (graph.rename r).edges ↔ ∃ edge' ∈ graph.edges, edge'.rename r = edge := by
  rw [(edges_rename_perm hinj).mem_iff, List.mem_map]

/-- Under the new name of an id is found what was found under the id. -/
theorem get?_rename {id : BlockId} (hid : id ∈ graph.names) :
    (graph.rename r).get? (r id) = (graph.get? id).map (Block.rename r) := by
  cases hget : graph.get? id with
  | some block =>
    obtain ⟨hmem, rfl⟩ := get?_eq_some_iff.1 hget
    refine get?_eq_some_iff.2 ⟨?_, rfl⟩
    exact (blocks_rename_perm hinj).mem_iff.2 (List.mem_map_of_mem hmem)
  | none =>
    refine get?_eq_none_iff.2 fun other hother heq => ?_
    obtain ⟨block, hblock, rfl⟩ := List.mem_map.1 ((blocks_rename_perm hinj).mem_iff.1 hother)
    have hsame : block.id = id := hinj (mem_names_of_mem_blocks hblock) hid heq
    exact get?_eq_none_iff.1 hget block hblock hsame

theorem starts_rename : (graph.rename r).starts = (graph.starts.map r).insertionSort (· ≤ ·) := by
  have hperm : (graph.rename r).starts.Perm (graph.starts.map r) := by
    have hstarts := ((blocks_rename_perm hinj).filter Block.isStart).map Block.id
    have hstart : Block.isStart ∘ Block.rename r = Block.isStart :=
      funext fun block => block.isStart_rename r
    rw [List.filter_map, hstart, List.map_map] at hstarts
    rw [starts, starts, List.map_map]
    exact hstarts
  -- both lists are in ascending order
  refine (hperm.trans (List.perm_insertionSort _ _).symm).eq_of_pairwise
    (fun a b _ _ hab hba => UInt32.le_antisymm hab hba) ?_ (List.pairwise_insertionSort _ _)
  exact (graph.rename r).starts_ascending.imp fun hlt => UInt32.le_of_lt hlt

theorem mem_starts_rename {id : BlockId} :
    id ∈ (graph.rename r).starts ↔ ∃ start ∈ graph.starts, r start = id := by
  rw [starts_rename hinj, List.mem_insertionSort, List.mem_map]

theorem refers_rename : (graph.rename r).Refers = Relation.Map graph.Refers r r :=
  along_rename fun _ => mem_edges_rename hinj

/-- A reference leads to a block under the new names if it did before. -/
theorem links_rename : (graph.rename r).Links = Relation.Map graph.Links r r := by
  have hcontains {edge : Edge} (hedge : edge ∈ graph.edges) :
      (graph.rename r).contains (r edge.target) = graph.contains edge.target := by
    have htarget := (mem_names_of_mem_edges hedge).2
    rw [contains, contains, get?_rename hinj htarget, Option.isSome_map]
  refine along_rename fun edge' => ?_
  constructor
  · rintro ⟨hrenamed, hexists⟩
    obtain ⟨edge, hedge, rfl⟩ := (mem_edges_rename hinj).1 hrenamed
    exact ⟨edge, ⟨hedge, (hcontains hedge).symm.trans hexists⟩, rfl⟩
  · rintro ⟨edge, ⟨hedge, hexists⟩, rfl⟩
    exact ⟨(mem_edges_rename hinj).2 ⟨edge, hedge, rfl⟩, (hcontains hedge).trans hexists⟩

/-- What can be reached is what could be reached before. -/
theorem mem_reachable_rename {id : BlockId} (hid : id ∈ graph.names) :
    r id ∈ (graph.rename r).reachable ↔ id ∈ graph.reachable := by
  have hlinks (a b : BlockId) (h : graph.Links a b) : a ∈ graph.names ∧ b ∈ graph.names :=
    Refers.mem_names (Along.mono (fun _ hedge => hedge.1) a b h)
  have hstart {start : BlockId} (h : start ∈ graph.starts) : start ∈ graph.names := by
    obtain ⟨block, hblock, rfl, -⟩ := mem_starts.1 h
    exact mem_names_of_mem_blocks hblock
  rw [mem_reachable_iff, mem_reachable_iff, links_rename hinj]
  constructor
  · rintro ⟨_, hrenamed, hmap⟩
    obtain ⟨start, hmem, rfl⟩ := (mem_starts_rename hinj).1 hrenamed
    obtain ⟨other, hother, heq, hway⟩ := (reflTransGen_map_iff hinj hlinks (hstart hmem)).1 hmap
    obtain rfl : other = id := hinj hother hid heq
    exact ⟨start, hmem, hway⟩
  · rintro ⟨start, hmem, hway⟩
    refine ⟨r start, (mem_starts_rename hinj).2 ⟨start, hmem, rfl⟩, ?_⟩
    exact (reflTransGen_map_iff hinj hlinks (hstart hmem)).2 ⟨id, hid, rfl, hway⟩

/-- A block leads back to itself if it did before. -/
theorem acyclic_rename_iff : (graph.rename r).Acyclic ↔ graph.Acyclic := by
  have hcycle (id : BlockId) :
      TransGen (graph.rename r).Refers id id ↔
        ∃ id', r id' = id ∧ TransGen graph.Refers id' id' := by
    rw [refers_rename hinj]
    constructor
    · -- the way is followed from its second block on, which ends where the first step began
      intro hmap
      obtain ⟨_, ⟨a, b, hstep, rfl, rfl⟩, hrest⟩ := TransGen.head'_iff.1 hmap
      obtain ⟨ha, hb⟩ := hstep.mem_names
      obtain ⟨a', ha', heq, hway⟩ :=
        (reflTransGen_map_iff hinj (fun _ _ => Refers.mem_names) hb).1 hrest
      obtain rfl : a' = a := hinj ha' ha heq
      exact ⟨a', rfl, TransGen.head' hstep hway⟩
    · rintro ⟨id, rfl, hway⟩
      exact hway.lift r fun a b hstep => ⟨a, b, hstep, rfl, rfl⟩
  simp only [Acyclic, hcycle]
  constructor
  · intro h id hway
    exact h (r id) ⟨id, rfl, hway⟩
  · rintro h _ ⟨id, -, hway⟩
    exact h id hway

/-! ## Check by check -/

theorem startViolations_rename :
    (graph.rename r).startViolations = graph.startViolations.map (Violation.rename r) := by
  have hsorted := starts_rename hinj
  rcases hstarts : graph.starts with _ | ⟨first, _ | ⟨second, rest⟩⟩
  · rw [hstarts] at hsorted
    simp [startViolations, hstarts, hsorted, Violation.rename, Violation.ofGraph, Defect.rename]
  · rw [hstarts] at hsorted
    simp [startViolations, hstarts, hsorted]
  · -- sorting keeps several ids several
    have hmany : 1 < graph.starts.length := by simp [hstarts]
    have hmany' : 1 < (graph.rename r).starts.length := by simpa [hsorted] using hmany
    rw [startViolations_of_lt hmany, startViolations_of_lt hmany', hsorted]
    rfl

theorem referenceViolations_rename :
    (graph.rename r).referenceViolations.Perm
      (graph.referenceViolations.map (Violation.rename r)) := by
  unfold referenceViolations
  refine ((edges_rename_perm hinj).filterMap _).trans ?_
  rw [List.filterMap_map, List.map_filterMap]
  refine .of_eq (List.filterMap_congr fun edge hedge => ?_)
  obtain ⟨hsource, htarget⟩ := mem_names_of_mem_edges hedge
  have hreach : (graph.rename r).reachable.contains (r edge.source) =
      graph.reachable.contains edge.source := by
    rw [Bool.eq_iff_iff, List.contains_iff_mem, List.contains_iff_mem,
      mem_reachable_rename hinj hsource]
  simp only [Function.comp_apply, Edge.rename, get?_rename hinj htarget, hreach]
  cases graph.get? edge.target with
  | none => rfl
  | some found =>
    simp only [Option.map_some, Block.isStart_rename]
    split <;> rfl

theorem armViolations_rename :
    (graph.rename r).armViolations.Perm (graph.armViolations.map (Violation.rename r)) := by
  unfold armViolations
  refine ((blocks_rename_perm hinj).flatMap_right _).trans ?_
  rw [List.flatMap_map, List.map_flatMap]
  refine .of_eq (List.flatMap_congr fun block _ => ?_)
  rw [Block.missingArms_rename, List.map_map]
  rfl

theorem attributeViolations_rename :
    (graph.rename r).attributeViolations.Perm
      (graph.attributeViolations.map (Violation.rename r)) := by
  unfold attributeViolations
  refine ((blocks_rename_perm hinj).filterMap _).trans ?_
  rw [List.filterMap_map, List.map_filterMap]
  refine .of_eq (List.filterMap_congr fun block _ => ?_)
  rw [Function.comp_apply, Block.requiredText?_rename]
  cases block.kind.requiredText? with
  | none => rfl
  | some required =>
    dsimp only
    split <;> rfl

theorem findings_rename :
    (graph.rename r).findings.Perm (graph.findings.map (Violation.rename r)) := by
  rw [findings_eq, findings_eq, List.map_append, List.map_append, List.map_append]
  refine List.Perm.append (.append (.append ?_ ?_) ?_) ?_
  · exact .of_eq (startViolations_rename hinj)
  · exact referenceViolations_rename hinj
  · exact armViolations_rename hinj
  · exact attributeViolations_rename hinj

theorem exists_isCycle_rename_iff :
    (∃ v ∈ (graph.rename r).violations, v.isCycle) ↔ ∃ v ∈ graph.violations, v.isCycle := by
  have hany (graph : Graph) : (∃ v ∈ graph.violations, v.isCycle) ↔ ¬ graph.Acyclic := by
    rw [← cycleViolations_eq_nil_iff, ← filter_isCycle, List.filter_eq_nil_iff]
    push Not
    rfl
  rw [hany, hany, acyclic_rename_iff hinj]

/-! ## All checks together -/

theorem violations_rename_eq_nil_iff :
    (graph.rename r).violations = [] ↔ graph.violations = [] := by
  have hnil (graph : Graph) :
      graph.violations = [] ↔ graph.findings = [] ∧ ¬ ∃ v ∈ graph.violations, v.isCycle := by
    rw [findings, List.filter_eq_nil_iff, List.eq_nil_iff_forall_not_mem]
    constructor
    · intro hnone
      refine ⟨fun v hv => absurd hv (hnone v), ?_⟩
      rintro ⟨v, hv, -⟩
      exact hnone v hv
    · rintro ⟨hall, hnone⟩ v hv
      refine hall v hv ?_
      rw [Bool.not_eq_true', ← Bool.not_eq_true]
      exact fun hcycle => hnone ⟨v, hv, hcycle⟩
  have hfindings : (graph.rename r).findings = [] ↔ graph.findings = [] := by
    rw [← List.length_eq_zero_iff, (findings_rename hinj).length_eq, List.length_map,
      List.length_eq_zero_iff]
  rw [hnil, hnil, hfindings, exists_isCycle_rename_iff hinj]

/-- The program of a renamed graph begins at the renamed entry. -/
theorem exists_validated_rename {valid : ValidGraph} (hgraph : valid.graph = graph) :
    ∃ renamed, (graph.rename r).validated = .ok renamed ∧ renamed.entry = r valid.entry := by
  subst hgraph
  have hstarts : valid.graph.starts = [valid.entry] :=
    starts_eq_singleton_iff.2 valid.beginsAt_entry
  have hstarts' : (valid.graph.rename r).starts = [r valid.entry] := by
    rw [starts_rename hinj, hstarts]
    rfl
  rcases (valid.graph.rename r).validated_cases with ⟨renamed, hok, hgraph, -⟩ | ⟨-, hfound⟩
  · refine ⟨renamed, hok, ?_⟩
    have hentry := renamed.entry_eq
    rw [hgraph, entry?_eq_some_iff.2 (starts_eq_singleton_iff.1 hstarts'), Option.some.injEq]
      at hentry
    exact hentry.symm
  · exact absurd ((violations_rename_eq_nil_iff hinj).2 valid.valid) hfound

end Renamed

/-- **Validation under other ids.** Let a renaming keep apart the ids that occur in a graph. What is
reported about the renamed graph, cycles aside, is what was reported about the graph, with the ids
renamed, though in another order; a cycle is reported about both graphs or about neither. So both
are accepted or neither is, and the entry of the one is the renamed entry of the other. -/
theorem validation_rename (graph : Graph) (r : BlockId → BlockId)
    (hinj : Set.InjOn r {id | id ∈ graph.names}) :
    (graph.rename r).findings.Perm (graph.findings.map (Violation.rename r)) ∧
      ((∃ v ∈ (graph.rename r).violations, v.isCycle) ↔ ∃ v ∈ graph.violations, v.isCycle) ∧
      (∀ valid, graph.validated = .ok valid →
        ∃ renamed, (graph.rename r).validated = .ok renamed ∧ renamed.entry = r valid.entry) ∧
      ∀ report, graph.validated = .error report →
        ∃ report', (graph.rename r).validated = .error report' := by
  refine ⟨findings_rename hinj, exists_isCycle_rename_iff hinj, ?_, ?_⟩
  · intro valid hok
    obtain ⟨other, hother, hgraph, -⟩ | ⟨herror, -⟩ := graph.validated_cases
    · rw [hother, Except.ok.injEq] at hok
      subst hok
      exact exists_validated_rename hinj hgraph
    · rw [herror] at hok
      cases hok
  · intro report herror
    obtain ⟨other, hother, -⟩ | ⟨-, hfound⟩ := graph.validated_cases
    · rw [hother] at herror
      cases herror
    · obtain ⟨other, -, hgraph, -⟩ | ⟨herror', -⟩ := (graph.rename r).validated_cases
      · have hvalid := other.valid
        rw [hgraph, violations_rename_eq_nil_iff hinj] at hvalid
        exact absurd hvalid hfound
      · exact ⟨_, herror'⟩

/-- Ids counted from the other end, as far as nine. -/
def mirrored (id : BlockId) : BlockId :=
  .ofNat (9 - id.toNat)

/-- Two start blocks, a conditional and a block that goes back to it, and a reference into the
void. -/
def tangle : Graph :=
  .ofList [⟨0, some 1, .start, .nil⟩, ⟨1, some 2, .conditional " " .missing (.to 7), .nil⟩,
    ⟨2, some 1, .code "", .nil⟩, ⟨5, none, .start, .nil⟩]

/-- The blocks are searched in the opposite order. -/
theorem validation_rename_tangle : Set.InjOn mirrored {id | id ∈ tangle.names} ∧
    (tangle.rename mirrored).findings.Perm
      [.ofGraph (.multipleStarts [4, 9]), .at 8 (.dangling .ifFalse 2),
        .at 8 (.missingArm .ifTrue), .at 8 (.emptyAttribute "condition")] ∧
    ∃ v ∈ (tangle.rename mirrored).violations, v.isCycle := by
  have hnames : tangle.names = [0, 1, 2, 5, 1, 2, 7, 1] := by decide
  have hback : ∀ id ∈ tangle.names, mirrored (mirrored id) = id := by simp [hnames, mirrored]
  have hinj : Set.InjOn mirrored {id | id ∈ tangle.names} := Set.LeftInvOn.injOn hback
  obtain ⟨hfindings, hcycle, -⟩ := tangle.validation_rename mirrored hinj
  have hrenamed : tangle.findings.map (Violation.rename mirrored) =
      [.ofGraph (.multipleStarts [4, 9]), .at 8 (.dangling .ifFalse 2),
        .at 8 (.missingArm .ifTrue), .at 8 (.emptyAttribute "condition")] := by decide
  rw [hrenamed] at hfindings
  exact ⟨hinj, hfindings, hcycle.2 ⟨.at 2 (.cycle .next 1), by decide, rfl⟩⟩

end Graph

end BlockDiagram
