/-
The graph that a document depicts.

A document depicts a graph if each member of its block object describes one block, each block is
described by one member, and every reference leads to a block. This says nothing about loading, and
it names all parts of the document that matter: nothing else in it, be it beside the block object or
beside the type, the `next` link and the attributes of a block, has any influence. A document
depicts one graph at most. Loading gives the graph that the document depicts, and succeeds exactly
if there is one.
-/
import BlockDiagram.Proofs.Document.Defect

set_option autoImplicit false

namespace BlockDiagram

open Json (Value)

/-- Whether a document describes the blocks of a graph, wherever their references lead. -/
structure Outlines (document : Value) (graph : Graph) : Prop where
  table : ∃ members blocks, document = .object members ∧
    members.get? "blocks" = some (.object blocks)
  /-- No member is lost. -/
  kept : ∀ key value, HasMember document key value → ∃ block ∈ graph.blocks,
    Numeral key block.id.toNat ∧ ∃ members, value = .object members ∧ Describes members block
  /-- No block is invented. -/
  invented : ∀ block ∈ graph.blocks, ∃ key members, HasMember document key (.object members) ∧
    Numeral key block.id.toNat ∧ Describes members block
  /-- No two members are merged. -/
  merged : ∀ key key' value value' n, HasMember document key value →
    HasMember document key' value' → Numeral key n → Numeral key' n → key = key'

/-- Whether a document depicts a graph: it describes the blocks, and every reference leads to one of
them. -/
structure Depicts (document : Value) (graph : Graph) : Prop extends Outlines document graph where
  closed : graph.Closed

/-! ## What is given is not at fault -/

section Given

variable {α : Type} {default : α} {denotes : Value → α → Prop} {sent : Option Value} {a b : α}

theorem Given.unique {read : Value → Except AttributeFault α}
    (hread : ∀ {value a}, read value = .ok a ↔ Given default denotes (some value) a)
    (ha : Given default denotes sent a) (hb : Given default denotes sent b) : a = b := by
  cases sent with
  | none =>
    cases ha
    cases hb
    rfl
  | some value =>
    have hok := hread.2 ha
    rw [hread.2 hb] at hok
    exact (Except.ok.inj hok).symm

theorem Given.not_fault {read : Value → Except AttributeFault α} {form : Form} {value : Value}
    {fault : AttributeFault}
    (hread : ∀ {value a}, read value = .ok a ↔ Given default denotes (some value) a)
    (hfault : ∀ {value fault}, read value = .error fault ↔ form.Fault value fault)
    (ha : Given default denotes sent a) (hsent : sent = some value) : ¬ form.Fault value fault := by
  rw [← hfault]
  subst hsent
  rw [hread.2 ha]
  simp

end Given

variable {sent : String → Option Value} {arms : Option Value} {tag name : String}
  {kind kind' : BlockKind} {value : Value} {fault : AttributeFault}

theorem ArmGiven.unique {arm arm' : Arm} (h : ArmGiven arms arm) (h' : ArmGiven arms arm') :
    arm = arm' := by
  cases h with
  | missing => cases h'; rfl
  | empty =>
    cases h' with
    | empty => rfl
    | target h => cases h
  | target h =>
    cases h' with
    | empty => cases h
    | target h' => rw [UInt32.toNat_inj.1 (h.unique h')]

theorem ArmsGiven.unique {ifTrue ifTrue' ifFalse ifFalse' : Arm}
    (h : ArmsGiven arms ifTrue ifFalse) (h' : ArmsGiven arms ifTrue' ifFalse') :
    ifTrue = ifTrue' ∧ ifFalse = ifFalse' := by
  cases h with
  | missing => cases h'; exact ⟨rfl, rfl⟩
  | sent htrue hfalse =>
    cases h' with
    | sent htrue' hfalse' => exact ⟨htrue.unique htrue', hfalse.unique hfalse'⟩

theorem NameGiven.unique {long short : Option Value} {name name' : String}
    (h : NameGiven long short name) (h' : NameGiven long short name') : name = name' := by
  cases h with
  | long hsent hname =>
    cases h' with
    | long _ hname' => exact hname.unique readString_eq_ok_iff hname'
    | short hnone => exact absurd hnone hsent
  | short hnone hname =>
    cases h' with
    | long hsent => exact absurd hnone hsent
    | short _ hname' => exact hname.unique readString_eq_ok_iff hname'

/-- The tag says which kind it is. -/
theorem KindGiven.exists_ofTag? (h : KindGiven sent arms tag kind) :
    ∃ base, BlockKind.ofTag? tag = some base ∧ base.tag = kind.tag ∧ base.form? = kind.form? := by
  cases h with
  | read htag => rcases htag with rfl | rfl <;> exact ⟨_, rfl, rfl, rfl⟩
  | write htag => rcases htag with rfl | rfl <;> exact ⟨_, rfl, rfl, rfl⟩
  | _ => exact ⟨_, rfl, rfl, rfl⟩

/-- The attributes say which one of its kind it is. -/
theorem KindGiven.unique {tag' : String} (h : KindGiven sent arms tag kind)
    (h' : KindGiven sent arms tag' kind') (htag : kind.tag = kind'.tag) : kind = kind' := by
  cases h with
  | start =>
    cases h' with
    | start => rfl
    | _ => simp [BlockKind.tag] at htag
  | loop hcondition hchild =>
    cases h' with
    | loop hcondition' hchild' =>
      rw [hcondition.unique readCondition_eq_ok_iff hcondition',
        hchild.unique readLink_eq_ok_iff hchild']
    | _ => simp [BlockKind.tag] at htag
  | conditional hcondition harms =>
    cases h' with
    | conditional hcondition' harms' =>
      obtain ⟨rfl, rfl⟩ := harms.unique harms'
      rw [hcondition.unique readCondition_eq_ok_iff hcondition']
    | _ => simp [BlockKind.tag] at htag
  | read _ hname hpin =>
    cases h' with
    | read _ hname' hpin' => rw [hname.unique hname', hpin.unique readPin_eq_ok_iff hpin']
    | _ => simp [BlockKind.tag] at htag
  | write _ hpin hlevel =>
    cases h' with
    | write _ hpin' hlevel' =>
      rw [hpin.unique readPin_eq_ok_iff hpin', hlevel.unique readLevel_eq_ok_iff hlevel']
    | _ => simp [BlockKind.tag] at htag
  | sleep hlength =>
    cases h' with
    | sleep hlength' => rw [hlength.unique readLength_eq_ok_iff hlength']
    | _ => simp [BlockKind.tag] at htag
  | code htext =>
    cases h' with
    | code htext' => rw [htext.unique readString_eq_ok_iff htext']
    | _ => simp [BlockKind.tag] at htag
  | declare hname =>
    cases h' with
    | declare hname' => rw [hname.unique readString_eq_ok_iff hname']
    | _ => simp [BlockKind.tag] at htag

/-- No attribute that a kind is given by is at fault. -/
theorem KindGiven.not_fault {form : Form} (h : KindGiven sent arms tag kind)
    (hform : kind.form? name = some form) (hsent : sent name = some value) :
    ¬ form.Fault value fault := by
  -- for each kind, the forms of the attributes that it knows
  cases h with
  | start => cases hform
  | loop hcondition hchild =>
    unfold BlockKind.form? at hform
    dsimp only at hform
    split at hform <;> cases hform
    · exact hcondition.not_fault readCondition_eq_ok_iff readCondition_eq_error_iff hsent
    · exact hchild.not_fault readLink_eq_ok_iff readLink_eq_error_iff hsent
  | conditional hcondition =>
    unfold BlockKind.form? at hform
    dsimp only at hform
    split at hform <;> cases hform
    · exact hcondition.not_fault readCondition_eq_ok_iff readCondition_eq_error_iff hsent
    · exact fun hfault => hfault.2
  | read _ hname hpin =>
    unfold BlockKind.form? at hform
    dsimp only at hform
    split at hform <;> cases hform
    · cases hname with
      | long _ hname => exact hname.not_fault readString_eq_ok_iff readString_eq_error_iff hsent
      | short hnone => cases hnone.symm.trans hsent
    · -- the shorter name is read even where it does not count
      cases hname with
      | long _ _ hshort =>
        obtain ⟨other, hother⟩ := hshort
        exact hother.not_fault readString_eq_ok_iff readString_eq_error_iff hsent
      | short _ hname => exact hname.not_fault readString_eq_ok_iff readString_eq_error_iff hsent
    · exact hpin.not_fault readPin_eq_ok_iff readPin_eq_error_iff hsent
  | write _ hpin hlevel =>
    unfold BlockKind.form? at hform
    dsimp only at hform
    split at hform <;> cases hform
    · exact hpin.not_fault readPin_eq_ok_iff readPin_eq_error_iff hsent
    · exact hlevel.not_fault readLevel_eq_ok_iff readLevel_eq_error_iff hsent
  | sleep hlength =>
    unfold BlockKind.form? at hform
    dsimp only at hform
    split at hform <;> cases hform
    rename_i heq
    subst heq
    exact hlength.not_fault readLength_eq_ok_iff readLength_eq_error_iff hsent
  | code htext =>
    unfold BlockKind.form? at hform
    dsimp only at hform
    split at hform <;> cases hform
    rename_i heq
    subst heq
    exact htext.not_fault readString_eq_ok_iff readString_eq_error_iff hsent
  | declare hname =>
    unfold BlockKind.form? at hform
    dsimp only at hform
    split at hform <;> cases hform
    rename_i heq
    subst heq
    exact hname.not_fault readString_eq_ok_iff readString_eq_error_iff hsent

/-! ## What is described has no defect -/

section Describes

variable {members : Json.Object} {block block' : Block} {id : BlockId} {part : DescriptionPart}
  {e : LoadError}

theorem Describes.unique (h : Describes members block) (h' : Describes members block')
    (hid : block.id = block'.id) : block = block' := by
  obtain ⟨tag, htag, hkind⟩ := h.kind
  obtain ⟨tag', htag', hkind'⟩ := h'.kind
  obtain ⟨value, hvalue, hnext⟩ := h.next
  obtain ⟨value', hvalue', hnext'⟩ := h'.next
  cases htag.symm.trans htag'
  cases hvalue.symm.trans hvalue'
  have hbase : block.kind.tag = block'.kind.tag := by
    obtain ⟨base, hbase, hsame, -⟩ := hkind.exists_ofTag?
    obtain ⟨base', hbase', hsame', -⟩ := hkind'.exists_ofTag?
    cases hbase.symm.trans hbase'
    rw [← hsame, hsame']
  have hkinds := hkind.unique hkind' hbase
  have hextra : block.extra = block'.extra := by
    apply Json.Members.eq_of_get?
    intro name
    rw [h.extra, h'.extra, hkinds]
  have hlinks := hnext.unique readLink_eq_ok_iff hnext'
  cases block
  cases block'
  simp_all

theorem ArmGiven.not_fault {arm : Arm} (h : ArmGiven (some value) arm) :
    ¬ Form.link.Fault value fault := by
  rw [← readLink_eq_error_iff]
  cases h with
  | empty => simp [readLink]
  | target h => simp [readLink_eq_ok_iff.2 (.value (.link h))]

theorem Describes.not_defect (h : Describes members block) :
    ¬ DescriptionDefect id members part e := by
  obtain ⟨tag, htag, hkind⟩ := h.kind
  obtain ⟨value, hvalue, hnext⟩ := h.next
  intro hdefect
  cases hdefect with
  | noType hnone => cases hnone _ htag
  | badType hsent _ htext =>
    cases htag.symm.trans hsent
    exact htext tag rfl
  | unknownType hsent hnone =>
    cases htag.symm.trans hsent
    obtain ⟨base, hbase, -⟩ := hkind.exists_ofTag?
    cases hnone.symm.trans hbase
  | missingNext hnone => cases hnone.symm.trans hvalue
  | badNext hsent hfault =>
    exact hnext.not_fault readLink_eq_ok_iff readLink_eq_error_iff (hvalue.symm.trans hsent) hfault
  | badAttributes hsent hnull hobject =>
    rcases h.attributes _ hsent with rfl | ⟨attributes, rfl⟩
    · exact hnull rfl
    · exact hobject attributes rfl
  | badArms hcond hsent hobject =>
    obtain ⟨_, _, _, -, harms⟩ := h.exists_conditional hcond
    rw [hsent] at harms
    cases harms with
    | sent => exact hobject _ rfl
  | badTrueArm hcond hsent harm hfault =>
    obtain ⟨_, _, _, -, harms⟩ := h.exists_conditional hcond
    rw [hsent] at harms
    cases harms with
    | sent htrue =>
      rw [harm] at htrue
      exact htrue.not_fault hfault
  | badFalseArm hcond hsent harm hfault =>
    obtain ⟨_, _, _, -, harms⟩ := h.exists_conditional hcond
    rw [hsent] at harms
    cases harms with
    | sent _ hfalse =>
      rw [harm] at hfalse
      exact hfalse.not_fault hfault
  | badAttribute hsent hbase hform hvalue hfault =>
    cases htag.symm.trans hsent
    obtain ⟨base, hbase', -, hforms⟩ := hkind.exists_ofTag?
    cases hbase.symm.trans hbase'
    rw [hforms] at hform
    exact hkind.not_fault hform hvalue hfault

end Describes

/-! ## What is depicted -/

section Depicts

variable {document document' : Value} {graph graph' : Graph} {place : Place} {e : LoadError}

theorem Outlines.unique (h : Outlines document graph) (h' : Outlines document graph') :
    graph = graph' := by
  have hmem {graph graph' : Graph} (h : Outlines document graph) (h' : Outlines document graph')
      {block : Block} (hblock : block ∈ graph.blocks) : block ∈ graph'.blocks := by
    obtain ⟨key, members, hmember, hkey, hdescribes⟩ := h.invented block hblock
    obtain ⟨block', hblock', hkey', members', hvalue, hdescribes'⟩ := h'.kept key _ hmember
    cases hvalue
    rw [hdescribes.unique hdescribes' (hkey.id_eq hkey')]
    exact hblock'
  apply Graph.ext_get?
  intro id
  ext block
  rw [Graph.get?_eq_some_iff, Graph.get?_eq_some_iff]
  constructor
  · rintro ⟨hblock, hid⟩
    exact ⟨hmem h h' hblock, hid⟩
  · rintro ⟨hblock, hid⟩
    exact ⟨hmem h' h hblock, hid⟩

theorem Outlines.portrays (h : Outlines document graph) : Portrays document graph := by
  constructor
  · intro block hblock
    obtain ⟨key, members, hmember, hkey, hdescribes⟩ := h.invented block hblock
    exact ⟨members, ⟨key, hmember, hkey⟩, hdescribes⟩
  · rintro id members ⟨key, hmember, hkey⟩
    obtain ⟨block, hblock, hkey', members', hvalue, hdescribes⟩ := h.kept key _ hmember
    cases hvalue
    exact ⟨block, hblock, hkey'.id_eq hkey, hdescribes⟩

/-- The only defects of a document that describes the blocks of a graph are in their references. -/
theorem Outlines.pass_of_defect (h : Outlines document graph)
    (hdefect : DocumentDefect document place e) : place.pass = 3 := by
  obtain ⟨members, blocks, hdocument, hblocks⟩ := h.table
  cases hdefect with
  | noObject hobject => exact absurd hdocument (hobject members)
  | noBlocks hdocument' hnull =>
    cases hdocument.symm.trans hdocument'
    cases hnull _ hblocks
  | noBlockTable hdocument' hvalue _ hobject =>
    cases hdocument.symm.trans hdocument'
    cases hblocks.symm.trans hvalue
    exact absurd rfl (hobject blocks)
  | badKey hmember hkey =>
    obtain ⟨block, -, hkey', -⟩ := h.kept _ _ hmember
    exact absurd hkey' (hkey _ block.id.toNat_lt)
  | noDescription hmember _ hobject =>
    obtain ⟨_, -, -, members', hvalue, -⟩ := h.kept _ _ hmember
    exact absurd hvalue (hobject members')
  | duplicateId hmember hkey hearlier hlt hsame =>
    rw [h.merged _ _ _ _ _ hearlier hmember hsame hkey] at hlt
    exact absurd hlt (List.lt_irrefl _)
  | description hmembers hdefect =>
    obtain ⟨block, -, -, hdescribes⟩ := h.portrays.drawn _ _ hmembers
    exact absurd hdefect hdescribes.not_defect
  | dangling => rfl

/-- A document that depicts a graph has no defect. -/
theorem Depicts.not_defect (h : Depicts document graph) : ¬ DocumentDefect document place e := by
  intro hdefect
  have hpass := h.toOutlines.pass_of_defect hdefect
  have hportrays := h.toOutlines.portrays
  cases hdefect with
  | @dangling id target members slot hmembers hrefers hnone =>
    obtain ⟨block, hblock, rfl, hdescribes⟩ := hportrays.drawn _ _ hmembers
    have htarget := (hdescribes.target?_eq_some_iff slot).2 hrefers
    have hget : graph.get? block.id = some block := Graph.get?_eq_some_iff.2 ⟨hblock, rfl⟩
    have hcontains := h.closed ⟨block.id, slot, target⟩ (Graph.edge_iff.2 ⟨block, hget, htarget⟩)
    obtain ⟨other, hother⟩ := Graph.get?_of_contains hcontains
    obtain ⟨hmem, rfl⟩ := Graph.get?_eq_some_iff.1 hother
    obtain ⟨members', hmembers', -⟩ := hportrays.described other hmem
    exact hnone members' hmembers'
  | _ => cases hpass

theorem resolved_eq_ok_iff : resolved graph = .ok graph' ↔ graph = graph' ∧ graph.Closed := by
  unfold resolved
  cases hfind : graph.edges.find? fun edge => !graph.contains edge.target with
  | some edge =>
    have hbad := List.find?_some hfind
    have hedge := List.mem_of_find?_eq_some hfind
    constructor
    · intro h
      cases h
    · rintro ⟨-, hclosed⟩
      simp [hclosed edge hedge] at hbad
  | none =>
    have hclosed : graph.Closed := by
      intro edge hedge
      simpa using List.find?_eq_none.1 hfind edge hedge
    simp [hclosed]

/-- A graph that was loaded is depicted. -/
theorem depicts_of_ofDocument (h : Graph.ofDocument document = .ok graph) :
    Depicts document graph := by
  obtain ⟨table, htable, h⟩ := bind_eq_ok_iff.1 h
  obtain ⟨blocks, hblocks, hfold⟩ := bind_eq_ok_iff.1 htable
  obtain ⟨drawn, hdrawn, hresolved⟩ := bind_eq_ok_iff.1 h
  obtain ⟨rfl, hclosed⟩ := resolved_eq_ok_iff.1 hresolved
  have htabled := tabled_foldlM hfold
  have hportrays := portrays_ofList hblocks htabled hdrawn
  obtain ⟨members, hdocument, hget⟩ := blockObject_eq_ok_iff.1 hblocks
  have hmem {key : String} {value : Value} (hmember : HasMember document key value) :
      (key, value) ∈ blocks.toList :=
    Json.Members.mem_toList_iff.2 ((hasMember_iff hblocks).1 hmember)
  refine ⟨?_, hclosed⟩
  constructor
  case table => exact ⟨members, blocks, hdocument, hget⟩
  case kept =>
    intro key value hmember
    obtain ⟨d, members', hvalue, hkey, -⟩ := htabled.gives _ (hmem hmember)
    dsimp only at hvalue hkey
    subst hvalue
    obtain ⟨block, hblock, hid, hdescribes⟩ := hportrays.drawn d.id members' ⟨key, hmember, hkey⟩
    rw [← hid] at hkey
    exact ⟨block, hblock, hkey, members', rfl, hdescribes⟩
  case invented =>
    intro block hblock
    obtain ⟨members', ⟨key, hmember, hkey⟩, hdescribes⟩ := hportrays.described block hblock
    exact ⟨key, members', hmember, hkey, hdescribes⟩
  case merged =>
    intro key key' value value' n hmember hmember' hkey hkey'
    obtain ⟨d, _, -, hid, -⟩ := htabled.gives _ (hmem hmember)
    cases hkey.unique hid
    cases htabled.unique _ (hmem hmember) _ (hmem hmember') d.id hkey hkey'
    rfl

theorem ofDocument_eq_ok_iff : Graph.ofDocument document = .ok graph ↔ Depicts document graph := by
  constructor
  · exact depicts_of_ofDocument
  · intro h
    cases hload : Graph.ofDocument document with
    | error e =>
      obtain ⟨place, e', hdefect⟩ := (inspects_ofDocument document).exists_error_iff.1 ⟨e, hload⟩
      exact absurd hdefect h.not_defect
    | ok loaded =>
      -- what was loaded is depicted as well, so it is the same graph
      rw [(depicts_of_ofDocument hload).toOutlines.unique h.toOutlines]

/-- Of a document that describes the blocks of a graph, what is left to do is to look up where
their references lead. -/
theorem Outlines.ofDocument_eq (h : Outlines document graph) :
    Graph.ofDocument document = resolved graph := by
  -- both go over the same defects: outside the references there are none
  have hresolved : Inspects Place.Before (DocumentDefect document) Set.univ (resolved graph) :=
    (inspects_resolved h.portrays).congr fun p e hdefect =>
      iff_of_true (h.pass_of_defect hdefect) trivial
  cases hload : Graph.ofDocument document with
  | ok loaded =>
    have hdepicts := depicts_of_ofDocument hload
    have hsame := h.unique hdepicts.toOutlines
    exact (resolved_eq_ok_iff.2 ⟨hsame, hsame ▸ hdepicts.closed⟩).symm
  | error e =>
    rw [(inspects_ofDocument document).eq_error_iff fun p q hpq => hpq.asymm,
      ← hresolved.eq_error_iff fun p q hpq => hpq.asymm] at hload
    exact hload.symm

end Depicts

/-! ## What has no influence -/

/-- Whether two members of a block object describe the same, which they do if they agree in what
makes up a description. -/
inductive SameDescription : Value → Value → Prop
  | object {members members' : Json.Object} (htype : members.get? "type" = members'.get? "type")
    (hnext : members.get? "next" = members'.get? "next")
    (hattributes : members.get? "attributes" = members'.get? "attributes") :
    SameDescription (.object members) (.object members')

/-- Whether two documents describe the same blocks under the same keys. What else there is in them
does not matter. -/
def SameBlocks (document document' : Value) : Prop :=
  ∃ members members' blocks blocks', document = .object members ∧ document' = .object members' ∧
    members.get? "blocks" = some (.object blocks) ∧
    members'.get? "blocks" = some (.object blocks') ∧
    ∀ key, Option.Rel SameDescription (blocks.get? key) (blocks'.get? key)

section Same

variable {document document' : Value} {graph : Graph}

theorem SameDescription.symm {value value' : Value} (h : SameDescription value value') :
    SameDescription value' value := by
  cases h with
  | object htype hnext hattributes => exact .object htype.symm hnext.symm hattributes.symm

theorem SameDescription.describes {members members' : Json.Object} {block : Block}
    (h : SameDescription (.object members) (.object members'))
    (hdescribes : Describes members block) : Describes members' block := by
  cases h with
  | object htype hnext hattributes =>
    have hsent : attributeOf members' = attributeOf members := by
      funext name
      rw [attributeOf, attributeOf, hattributes]
    constructor
    · rw [← hnext]
      exact hdescribes.next
    · rw [← hattributes]
      exact hdescribes.attributes
    · rw [← htype, hsent]
      exact hdescribes.kind
    · rw [hsent]
      exact hdescribes.extra

theorem SameBlocks.symm (h : SameBlocks document document') : SameBlocks document' document := by
  obtain ⟨members, members', blocks, blocks', hdocument, hdocument', hget, hget', hsame⟩ := h
  refine ⟨members', members, blocks', blocks, hdocument', hdocument, hget', hget, fun key => ?_⟩
  have hkey := hsame key
  generalize blocks.get? key = sent at hkey
  generalize blocks'.get? key = sent' at hkey
  cases hkey with
  | some h => exact .some h.symm
  | none => exact .none

theorem SameBlocks.exists_member (h : SameBlocks document document') {key : String} {value : Value}
    (hmember : HasMember document key value) :
    ∃ value', HasMember document' key value' ∧ SameDescription value value' := by
  obtain ⟨members, members', blocks, blocks', rfl, rfl, hget, hget', hsame⟩ := h
  obtain ⟨_, _, ⟨⟩, hget'', hvalue⟩ := hmember
  cases hget.symm.trans hget''
  have hkey := hsame key
  rw [hvalue] at hkey
  generalize hvalue' : blocks'.get? key = sent at hkey
  cases hkey with
  | some h => exact ⟨_, ⟨members', blocks', rfl, hget', hvalue'⟩, h⟩

theorem SameBlocks.outlines (h : SameBlocks document document')
    (houtlines : Outlines document graph) : Outlines document' graph := by
  constructor
  case table =>
    obtain ⟨_, members', _, blocks', -, hdocument', -, hget', -⟩ := h
    exact ⟨members', blocks', hdocument', hget'⟩
  case kept =>
    intro key value' hmember'
    obtain ⟨value, hmember, hsame⟩ := h.symm.exists_member hmember'
    obtain ⟨block, hblock, hkey, members, rfl, hdescribes⟩ := houtlines.kept key value hmember
    cases hsame with
    | object htype hnext hattributes =>
      have hsame := SameDescription.object htype hnext hattributes
      exact ⟨block, hblock, hkey, _, rfl, hsame.symm.describes hdescribes⟩
  case invented =>
    intro block hblock
    obtain ⟨key, members, hmember, hkey, hdescribes⟩ := houtlines.invented block hblock
    obtain ⟨value', hmember', hsame⟩ := h.exists_member hmember
    cases hsame with
    | object htype hnext hattributes =>
      have hsame := SameDescription.object htype hnext hattributes
      exact ⟨key, _, hmember', hkey, hsame.describes hdescribes⟩
  case merged =>
    intro key key' value value' n hmember hmember' hkey hkey'
    obtain ⟨held, hheld, -⟩ := h.symm.exists_member hmember
    obtain ⟨held', hheld', -⟩ := h.symm.exists_member hmember'
    exact houtlines.merged key key' held held' n hheld hheld' hkey hkey'

theorem SameBlocks.depicts (h : SameBlocks document document') (hdepicts : Depicts document graph) :
    Depicts document' graph :=
  ⟨h.outlines hdepicts.toOutlines, hdepicts.closed⟩

end Same

/-- **The graph loaded.** Loading a document gives the graph that the document depicts, and nothing
in the document but the descriptions of its blocks has an influence on it. -/
theorem Graph.ofDocument_eq_ok_iff_depicts (document : Value) (graph : Graph) :
    (Graph.ofDocument document = .ok graph ↔ Depicts document graph) ∧
      ∀ document', SameBlocks document document' →
        (Graph.ofDocument document' = .ok graph ↔ Graph.ofDocument document = .ok graph) := by
  refine ⟨ofDocument_eq_ok_iff, fun document' hsame => ?_⟩
  rw [ofDocument_eq_ok_iff, ofDocument_eq_ok_iff]
  exact ⟨hsame.symm.depicts, hsame.depicts⟩

/-- A start block that leads to a sleep. The length is sent as text, and the color is kept. -/
def plainDocument : Value :=
  .ofMembers [("blocks", .ofMembers
    [("0", .ofMembers [("next", .natural 1), ("type", .string "start")]),
      ("01", .ofMembers [("attributes", .ofMembers
          [("color", .string "red"), ("length", .string " +250")]),
        ("next", .null), ("type", .string "sleep")])])]

/-- The same blocks as an editor may save them, with where they stand and a version. -/
def savedDocument : Value :=
  .ofMembers [("blocks", .ofMembers
    [("0", .ofMembers [("loc", .ofMembers [("x", .natural 40), ("y", .natural 40)]),
        ("next", .natural 1), ("type", .string "start")]),
      ("01", .ofMembers [("attributes", .ofMembers
          [("color", .string "red"), ("length", .string " +250")]),
        ("loc", .null), ("next", .null), ("type", .string "sleep")])]),
    ("version", .natural 3)]

/-- The graph of both. -/
def sleepGraph : Graph :=
  .ofList [⟨0, some 1, .start, .nil⟩,
    ⟨1, none, .sleep 250, .ofList [("color", .string "red")]⟩]

theorem sameBlocks_plain_saved : SameBlocks plainDocument savedDocument := by
  refine ⟨_, _, _, _, rfl, rfl, rfl, rfl, fun key => ?_⟩
  by_cases hfirst : key = "0"
  · subst hfirst
    refine .some (.object ?_ ?_ ?_) <;> rfl
  by_cases hsecond : key = "01"
  · subst hsecond
    refine .some (.object ?_ ?_ ?_) <;> rfl
  have hnone (held held' : Value) : [("0", held), ("01", held')].lookup key = none := by
    simp [List.lookup_cons, beq_eq_false_iff_ne.2 hfirst, beq_eq_false_iff_ne.2 hsecond]
  change Option.Rel _ ([("0", _), ("01", _)].lookup key) ([("0", _), ("01", _)].lookup key)
  rw [hnone, hnone]
  exact .none

theorem ofDocument_savedDocument : SameBlocks plainDocument savedDocument ∧
    Graph.ofDocument savedDocument = .ok sleepGraph :=
  ⟨sameBlocks_plain_saved,
    ((Graph.ofDocument_eq_ok_iff_depicts plainDocument sleepGraph).2 savedDocument
      sameBlocks_plain_saved).2 rfl⟩

end BlockDiagram
