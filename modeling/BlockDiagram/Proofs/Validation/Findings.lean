/-
What the checks find.

Validation reports everything that is wrong with a graph, and whatever is wrong in one place is
reported no matter what is wrong elsewhere. Below every single defect is said as a fact about the
graph, without the checks and without regard to other defects, and the list of violations is shown
to consist of these and no others. A list is more than its members: violations are in an order, in
which those of an earlier check come first and those of one check follow the ids of the blocks and
the slots of their references. The order never has two violations in one place, so none is listed
twice, and it leaves nothing open about the list.

Cycles are left aside. They have no place of their own in this order; which references are reported
as closing one is a question about the search, and is answered where the search is. Reports about
them come after all others.
-/
import BlockDiagram.Proofs.Validation.Acceptance

set_option autoImplicit false

namespace BlockDiagram

open Relation

/-! ## Defects -/

/-- Whether a violation is about a cycle. -/
def Violation.isCycle (violation : Violation) : Bool :=
  match violation.defect with
  | .cycle .. => true
  | _ => false

/-- The violations that are not about a cycle. -/
def Graph.findings (graph : Graph) : List Violation :=
  graph.violations.filter fun violation => !violation.isCycle

/-- The text that the statement of a kind cannot do without, under the name of its attribute. -/
inductive BlockKind.Needs : BlockKind → String → String → Prop
  | loop (condition : String) (child : Option BlockId) :
    Needs (.loop condition child) "condition" condition
  | conditional (condition : String) (ifTrue ifFalse : Arm) :
    Needs (.conditional condition ifTrue ifFalse) "condition" condition
  | read (name : String) (pin : Pin) : Needs (.read name pin) "variable" name
  | declare (name : String) : Needs (.declare name) "name" name

/-- Everything that can be wrong with a graph, cycles aside, and how it is reported. -/
inductive Graph.Finding (graph : Graph) : Violation → Prop
  | noStart (h : ∀ block ∈ graph.blocks, block.kind ≠ .start) : graph.Finding (.ofGraph .noStart)
  /-- Several start blocks are one defect, with all of their ids. -/
  | multipleStarts {ids : List BlockId} (hmany : 1 < ids.length) (hascending : ids.Pairwise (· < ·))
    (hids : ∀ id, id ∈ ids ↔ ∃ block ∈ graph.blocks, block.id = id ∧ block.kind = .start) :
    graph.Finding (.ofGraph (.multipleStarts ids))
  | dangling {edge : Edge} (h : edge ∈ graph.edges)
    (hnone : ∀ block ∈ graph.blocks, block.id ≠ edge.target) :
    graph.Finding (.at edge.source (.dangling edge.slot edge.target))
  /-- A reference to a start block is a defect where some start block, not necessarily that one,
  leads to it. -/
  | startReferenced {edge : Edge} {target start : Block} (h : edge ∈ graph.edges)
    (htarget : target ∈ graph.blocks) (hid : target.id = edge.target) (hkind : target.kind = .start)
    (hstart : start ∈ graph.blocks) (hstart' : start.kind = .start)
    (hreach : ReflTransGen graph.Links start.id edge.source) :
    graph.Finding (.at edge.source (.startReferenced edge.slot))
  | missingTrue {block : Block} {condition : String} {ifFalse : Arm} (h : block ∈ graph.blocks)
    (hkind : block.kind = .conditional condition .missing ifFalse) :
    graph.Finding (.at block.id (.missingArm .ifTrue))
  | missingFalse {block : Block} {condition : String} {ifTrue : Arm} (h : block ∈ graph.blocks)
    (hkind : block.kind = .conditional condition ifTrue .missing) :
    graph.Finding (.at block.id (.missingArm .ifFalse))
  | emptyAttribute {block : Block} {name text : String} (h : block ∈ graph.blocks)
    (hneeds : block.kind.Needs name text) (hblank : ¬ HasText text) :
    graph.Finding (.at block.id (.emptyAttribute name))

/-! ## The order -/

/-- The number of the check that reports a defect. -/
def Defect.check : Defect → Nat
  | .noStart | .multipleStarts _ => 0
  | .dangling .. | .startReferenced _ => 1
  | .missingArm _ => 2
  | .emptyAttribute _ => 3
  | .cycle .. => 4

/-- The number of the slot that a defect is about. -/
def Defect.rank : Defect → Nat
  | .dangling slot _ | .startReferenced slot | .missingArm slot | .cycle slot _ => slot.rank
  | .noStart | .multipleStarts _ | .emptyAttribute _ => 0

/-- Whether one violation is reported before another one: by an earlier check, or by the same check
at a block with a lower id, or at the same block for an earlier slot. -/
def Violation.Before (v w : Violation) : Prop :=
  v.defect.check < w.defect.check ∨ v.defect.check = w.defect.check ∧
    ∃ id id', v.block = some id ∧ w.block = some id' ∧
      (id < id' ∨ id = id' ∧ v.defect.rank < w.defect.rank)

theorem Violation.Before.ne {v w : Violation} (h : v.Before w) : v ≠ w := by
  rintro rfl
  rcases h with hlt | ⟨-, id, id', hid, hid', hlt⟩
  · exact Nat.lt_irrefl _ hlt
  · cases hid.symm.trans hid'
    rcases hlt with hlt | ⟨-, hlt⟩
    · exact UInt32.lt_irrefl _ hlt
    · exact Nat.lt_irrefl _ hlt

/-- Within a check, violations at blocks are in the order of their ids and slots. -/
theorem Violation.before_of_check_eq {id id' : BlockId} {d d' : Defect}
    (hcheck : d.check = d'.check) (h : id < id' ∨ id = id' ∧ d.rank < d'.rank) :
    (Violation.at id d).Before (.at id' d') :=
  .inr ⟨hcheck, id, id', rfl, rfl, h⟩

/-- What a check makes of places that are in order is in order, if it stays at each place. -/
theorem Violation.pairwise_filterMap {α : Type} {places : List α} {source : α → BlockId}
    {rank : α → Nat} {report : α → Option Violation} (n : Nat)
    (hplaces : places.Pairwise fun a b =>
      source a < source b ∨ source a = source b ∧ rank a < rank b)
    (hreport : ∀ a v, report a = some v →
      ∃ defect, v = .at (source a) defect ∧ defect.check = n ∧ defect.rank = rank a) :
    (places.filterMap report).Pairwise Violation.Before := by
  rw [List.pairwise_filterMap]
  refine hplaces.imp fun hlt v hv w hw => ?_
  obtain ⟨defect, rfl, hcheck, hrank⟩ := hreport _ v hv
  obtain ⟨defect', rfl, hcheck', hrank'⟩ := hreport _ w hw
  refine Violation.before_of_check_eq (hcheck.trans hcheck'.symm) ?_
  rwa [hrank, hrank']

/-! ## Check by check -/

namespace Graph

variable {graph : Graph} {v : Violation}

/-! ### Start blocks -/

theorem starts_ascending (graph : Graph) : graph.starts.Pairwise (· < ·) := by
  rw [starts, List.pairwise_map]
  exact graph.ascending.filter _

theorem mem_startViolations_iff :
    v ∈ graph.startViolations ↔ graph.starts = [] ∧ v = .ofGraph .noStart ∨
      1 < graph.starts.length ∧ v = .ofGraph (.multipleStarts graph.starts) := by
  unfold startViolations
  split
  · rename_i hnone
    simp [hnone]
  · rename_i only honly
    simp [honly]
  · rename_i hnone hmany
    -- the list is neither empty nor a single id
    have hne : graph.starts ≠ [] := hnone
    have hlength : 1 < graph.starts.length := by
      match hstarts : graph.starts with
      | [] => exact absurd hstarts hne
      | [only] => exact absurd hstarts (hmany only)
      | _ :: _ :: _ => simp
    simp [hne, hlength]

theorem finding_of_mem_startViolations (h : v ∈ graph.startViolations) : graph.Finding v := by
  rcases mem_startViolations_iff.1 h with ⟨hnone, rfl⟩ | ⟨hmany, rfl⟩
  · refine .noStart fun block hblock hkind => ?_
    have hmem : block.id ∈ graph.starts := mem_starts.2 ⟨block, hblock, rfl, hkind⟩
    rw [hnone] at hmem
    exact List.not_mem_nil hmem
  · exact .multipleStarts hmany graph.starts_ascending fun id => mem_starts

theorem check_of_mem_startViolations (h : v ∈ graph.startViolations) : v.defect.check = 0 := by
  rcases mem_startViolations_iff.1 h with ⟨-, rfl⟩ | ⟨-, rfl⟩ <;> rfl

theorem pairwise_startViolations (graph : Graph) :
    graph.startViolations.Pairwise Violation.Before := by
  unfold startViolations
  split <;> simp

/-! ### References -/

theorem mem_referenceViolations_iff :
    v ∈ graph.referenceViolations ↔ ∃ edge ∈ graph.edges,
      (graph.get? edge.target = none ∧ v = .at edge.source (.dangling edge.slot edge.target)) ∨
        (edge.target ∈ graph.starts ∧ edge.source ∈ graph.reachable ∧
          v = .at edge.source (.startReferenced edge.slot)) := by
  rw [referenceViolations, List.mem_filterMap]
  refine exists_congr fun edge => and_congr_right fun _ => ?_
  cases hget : graph.get? edge.target with
  | none =>
    have hnot : edge.target ∉ graph.starts := by
      intro hmem
      obtain ⟨block, hblock, hid, -⟩ := mem_starts.1 hmem
      rw [get?_eq_some_iff.2 ⟨hblock, hid⟩] at hget
      cases hget
    simp [hnot, @eq_comm _ v]
  | some block => simp [mem_starts_iff hget, @eq_comm _ v, and_assoc]

theorem finding_of_mem_referenceViolations (h : v ∈ graph.referenceViolations) :
    graph.Finding v := by
  obtain ⟨edge, hedge, ⟨hget, rfl⟩ | ⟨htarget, hsource, rfl⟩⟩ := mem_referenceViolations_iff.1 h
  · exact .dangling hedge (get?_eq_none_iff.1 hget)
  · obtain ⟨target, hmem, hid, hkind⟩ := mem_starts.1 htarget
    obtain ⟨id, hstart, hreach⟩ := mem_reachable_iff.1 hsource
    obtain ⟨start, hmem', rfl, hkind'⟩ := mem_starts.1 hstart
    exact .startReferenced hedge hmem hid hkind hmem' hkind' hreach

theorem check_of_mem_referenceViolations (h : v ∈ graph.referenceViolations) :
    v.defect.check = 1 := by
  obtain ⟨edge, -, ⟨-, rfl⟩ | ⟨-, -, rfl⟩⟩ := mem_referenceViolations_iff.1 h <;> rfl

theorem pairwise_referenceViolations (graph : Graph) :
    graph.referenceViolations.Pairwise Violation.Before := by
  refine Violation.pairwise_filterMap 1 graph.edges_ascending fun edge v h => ?_
  split at h
  · cases h
    exact ⟨_, rfl, rfl, rfl⟩
  · split at h <;> cases h
    exact ⟨_, rfl, rfl, rfl⟩

/-! ### Arms -/

theorem mem_armViolations_iff :
    v ∈ graph.armViolations ↔
      ∃ block ∈ graph.blocks, ∃ arm ∈ block.missingArms, v = .at block.id (.missingArm arm) := by
  simp [armViolations, @eq_comm _ v]

theorem mem_missingArms_iff {block : Block} {arm : Slot} :
    arm ∈ block.missingArms ↔ ∃ condition ifTrue ifFalse,
      block.kind = .conditional condition ifTrue ifFalse ∧
        (arm = .ifTrue ∧ ifTrue = .missing ∨ arm = .ifFalse ∧ ifFalse = .missing) := by
  unfold Block.missingArms
  cases block.kind with
  | conditional condition ifTrue ifFalse =>
    by_cases htrue : ifTrue = .missing <;> by_cases hfalse : ifFalse = .missing <;>
      simp [htrue, hfalse]
  | _ => simp

/-- The true arm is looked at first. -/
theorem missingArms_pairwise (block : Block) :
    block.missingArms.Pairwise fun a b => a.rank < b.rank := by
  unfold Block.missingArms
  split
  · split <;> split <;> simp [Slot.rank]
  · exact .nil

theorem finding_of_mem_armViolations (h : v ∈ graph.armViolations) : graph.Finding v := by
  obtain ⟨block, hblock, arm, harm, rfl⟩ := mem_armViolations_iff.1 h
  obtain ⟨condition, ifTrue, ifFalse, hkind, ⟨rfl, rfl⟩ | ⟨rfl, rfl⟩⟩ := mem_missingArms_iff.1 harm
  · exact .missingTrue hblock hkind
  · exact .missingFalse hblock hkind

theorem check_of_mem_armViolations (h : v ∈ graph.armViolations) : v.defect.check = 2 := by
  obtain ⟨block, -, arm, -, rfl⟩ := mem_armViolations_iff.1 h
  rfl

theorem pairwise_armViolations (graph : Graph) :
    graph.armViolations.Pairwise Violation.Before := by
  rw [armViolations, List.pairwise_flatMap]
  constructor
  · intro block _
    rw [List.pairwise_map]
    refine (missingArms_pairwise block).imp ?_
    intro arm arm' hlt
    exact Violation.before_of_check_eq rfl (.inr ⟨rfl, hlt⟩)
  · refine graph.ascending.imp fun hlt v hv w hw => ?_
    obtain ⟨arm, -, rfl⟩ := List.mem_map.1 hv
    obtain ⟨arm', -, rfl⟩ := List.mem_map.1 hw
    exact Violation.before_of_check_eq rfl (.inl hlt)

/-! ### Texts -/

theorem requiredText?_eq_some_iff {kind : BlockKind} {name text : String} :
    kind.requiredText? = some (name, text) ↔ kind.Needs name text := by
  constructor
  · intro h
    cases kind <;> cases h <;> constructor
  · rintro ⟨⟩ <;> rfl

theorem mem_attributeViolations_iff :
    v ∈ graph.attributeViolations ↔ ∃ block ∈ graph.blocks, ∃ name text,
      block.kind.Needs name text ∧ ¬ HasText text ∧ v = .at block.id (.emptyAttribute name) := by
  rw [attributeViolations, List.mem_filterMap]
  refine exists_congr fun block => and_congr_right fun _ => ?_
  simp only [← requiredText?_eq_some_iff, ← isBlankText_eq_false_iff, Bool.not_eq_false]
  cases block.kind.requiredText? with
  | none => simp
  | some required =>
    obtain ⟨name, text⟩ := required
    cases hblank : isBlankText text <;> simp [hblank, @eq_comm _ v]

theorem finding_of_mem_attributeViolations (h : v ∈ graph.attributeViolations) :
    graph.Finding v := by
  obtain ⟨block, hblock, name, text, hneeds, hblank, rfl⟩ := mem_attributeViolations_iff.1 h
  exact .emptyAttribute hblock hneeds hblank

theorem check_of_mem_attributeViolations (h : v ∈ graph.attributeViolations) :
    v.defect.check = 3 := by
  obtain ⟨block, -, name, text, -, -, rfl⟩ := mem_attributeViolations_iff.1 h
  rfl

theorem pairwise_attributeViolations (graph : Graph) :
    graph.attributeViolations.Pairwise Violation.Before := by
  have hplaces : graph.blocks.Pairwise fun a b => a.id < b.id ∨ a.id = b.id ∧ 0 < 0 :=
    graph.ascending.imp fun hlt => .inl hlt
  refine Violation.pairwise_filterMap 3 hplaces fun block v h => ?_
  split at h
  · split at h <;> cases h
    exact ⟨_, rfl, rfl, rfl⟩
  · cases h

/-! ### Cycles -/

theorem isCycle_iff {v : Violation} : v.isCycle = true ↔ v.defect.check = 4 := by
  unfold Violation.isCycle
  cases v.defect <;> simp [Defect.check]

theorem check_of_mem_cycleViolations (h : v ∈ graph.cycleViolations) : v.defect.check = 4 := by
  obtain ⟨edge, -, rfl⟩ := List.mem_map.1 h
  rfl

/-! ## All checks together -/

/-- What the checks before the one for cycles report. -/
theorem check_lt_of_mem (h : v ∈ graph.startViolations ++ graph.referenceViolations ++
    graph.armViolations ++ graph.attributeViolations) : v.defect.check < 4 := by
  simp only [List.mem_append] at h
  rcases h with ((h | h) | h) | h
  · rw [check_of_mem_startViolations h]; decide
  · rw [check_of_mem_referenceViolations h]; decide
  · rw [check_of_mem_armViolations h]; decide
  · rw [check_of_mem_attributeViolations h]; decide

theorem filter_isCycle (graph : Graph) :
    graph.violations.filter Violation.isCycle = graph.cycleViolations := by
  have hnone : (graph.startViolations ++ graph.referenceViolations ++ graph.armViolations ++
      graph.attributeViolations).filter Violation.isCycle = [] := by
    rw [List.filter_eq_nil_iff]
    intro v hv hcycle
    exact absurd (isCycle_iff.1 hcycle) (check_lt_of_mem hv).ne
  have hall : graph.cycleViolations.filter Violation.isCycle = graph.cycleViolations :=
    List.filter_eq_self.2 fun v hv => isCycle_iff.2 (check_of_mem_cycleViolations hv)
  rw [violations, List.filter_append, hnone, hall, List.nil_append]

theorem findings_eq (graph : Graph) :
    graph.findings = graph.startViolations ++ graph.referenceViolations ++ graph.armViolations ++
      graph.attributeViolations := by
  have hall : (graph.startViolations ++ graph.referenceViolations ++ graph.armViolations ++
      graph.attributeViolations).filter (fun v => !v.isCycle) = graph.startViolations ++
        graph.referenceViolations ++ graph.armViolations ++ graph.attributeViolations := by
    rw [List.filter_eq_self]
    intro v hv
    rw [Bool.not_eq_true', ← Bool.not_eq_true, isCycle_iff]
    exact (check_lt_of_mem hv).ne
  have hnone : graph.cycleViolations.filter (fun v => !v.isCycle) = [] := by
    rw [List.filter_eq_nil_iff]
    intro v hv
    simp [isCycle_iff.2 (check_of_mem_cycleViolations hv)]
  rw [findings, violations, List.filter_append, hall, hnone, List.append_nil]

theorem mem_findings_of_finding (h : graph.Finding v) : v ∈ graph.findings := by
  rw [findings_eq]
  simp only [List.mem_append]
  cases h with
  | noStart h =>
    refine .inl (.inl (.inl (mem_startViolations_iff.2 (.inl ⟨?_, rfl⟩))))
    rw [List.eq_nil_iff_forall_not_mem]
    intro id hmem
    obtain ⟨block, hblock, -, hkind⟩ := mem_starts.1 hmem
    exact h block hblock hkind
  | @multipleStarts ids hmany hascending hids =>
    -- two ascending lists of the same ids are the same
    have hsame : ids = graph.starts := by
      have hnodup : ids.Nodup := hascending.imp fun hlt => UInt32.ne_of_lt hlt
      have hperm : ids.Perm graph.starts := by
        rw [List.perm_ext_iff_of_nodup hnodup graph.starts_nodup]
        intro id
        rw [hids, mem_starts]
      refine hperm.eq_of_pairwise ?_ hascending graph.starts_ascending
      exact fun a b _ _ hab hba => absurd hba (UInt32.lt_asymm hab)
    subst hsame
    exact .inl (.inl (.inl (mem_startViolations_iff.2 (.inr ⟨hmany, rfl⟩))))
  | dangling h hnone =>
    refine .inl (.inl (.inr (mem_referenceViolations_iff.2 ⟨_, h, .inl ⟨?_, rfl⟩⟩)))
    exact get?_eq_none_iff.2 hnone
  | startReferenced h htarget hid hkind hstart hstart' hreach =>
    refine .inl (.inl (.inr (mem_referenceViolations_iff.2 ⟨_, h, .inr ⟨?_, ?_, rfl⟩⟩)))
    · exact mem_starts.2 ⟨_, htarget, hid, hkind⟩
    · exact mem_reachable_iff.2 ⟨_, mem_starts.2 ⟨_, hstart, rfl, hstart'⟩, hreach⟩
  | missingTrue h hkind =>
    refine .inl (.inr (mem_armViolations_iff.2 ⟨_, h, _, ?_, rfl⟩))
    exact mem_missingArms_iff.2 ⟨_, _, _, hkind, .inl ⟨rfl, rfl⟩⟩
  | missingFalse h hkind =>
    refine .inl (.inr (mem_armViolations_iff.2 ⟨_, h, _, ?_, rfl⟩))
    exact mem_missingArms_iff.2 ⟨_, _, _, hkind, .inr ⟨rfl, rfl⟩⟩
  | emptyAttribute h hneeds hblank =>
    exact .inr (mem_attributeViolations_iff.2 ⟨_, h, _, _, hneeds, hblank, rfl⟩)

theorem mem_findings_iff : v ∈ graph.findings ↔ graph.Finding v := by
  refine ⟨fun h => ?_, mem_findings_of_finding⟩
  rw [findings_eq] at h
  simp only [List.mem_append] at h
  rcases h with ((h | h) | h) | h
  · exact finding_of_mem_startViolations h
  · exact finding_of_mem_referenceViolations h
  · exact finding_of_mem_armViolations h
  · exact finding_of_mem_attributeViolations h

theorem pairwise_findings (graph : Graph) : graph.findings.Pairwise Violation.Before := by
  rw [findings_eq]
  simp only [List.pairwise_append, List.mem_append]
  refine ⟨⟨⟨graph.pairwise_startViolations, graph.pairwise_referenceViolations, ?_⟩,
    graph.pairwise_armViolations, ?_⟩, graph.pairwise_attributeViolations, ?_⟩
  · intro v hv w hw
    left
    rw [check_of_mem_startViolations hv, check_of_mem_referenceViolations hw]
    decide
  · intro v hv w hw
    left
    rw [check_of_mem_armViolations hw]
    rcases hv with hv | hv
    · rw [check_of_mem_startViolations hv]; decide
    · rw [check_of_mem_referenceViolations hv]; decide
  · intro v hv w hw
    left
    rw [check_of_mem_attributeViolations hw]
    rcases hv with (hv | hv) | hv
    · rw [check_of_mem_startViolations hv]; decide
    · rw [check_of_mem_referenceViolations hv]; decide
    · rw [check_of_mem_armViolations hv]; decide

/-- **The violations reported.** The violations of a graph are, first, everything that is wrong
with it but for cycles, each defect once and in order, and then the violations about cycles. -/
theorem violations_eq_findings_append (graph : Graph) :
    graph.violations = graph.findings ++ graph.violations.filter Violation.isCycle ∧
      (∀ v, v ∈ graph.findings ↔ graph.Finding v) ∧
      graph.findings.Pairwise Violation.Before ∧ graph.findings.Nodup := by
  refine ⟨?_, fun _ => mem_findings_iff, graph.pairwise_findings,
    graph.pairwise_findings.imp fun hbefore => hbefore.ne⟩
  rw [filter_isCycle, findings_eq, violations]

/-- Block 1 has every defect that a conditional can have, in a graph with two start blocks, and it
leads back to the one that it comes from. -/
example :
    (Graph.ofList [⟨0, some 1, .start, .nil⟩, ⟨1, some 0, .conditional " " .missing (.to 7), .nil⟩,
      ⟨5, none, .start, .nil⟩]).findings =
      [.ofGraph (.multipleStarts [0, 5]), .at 1 (.startReferenced .next),
        .at 1 (.dangling .ifFalse 7), .at 1 (.missingArm .ifTrue),
        .at 1 (.emptyAttribute "condition")] := by decide

end Graph

end BlockDiagram
