/-
The defect that a document is refused for.

Loading goes over a document three times, each time in an order of its own: the members of the block
object by the bytes of their keys, the blocks by id, the references by id and slot. It stops at the
first defect and says nothing about the rest. What is wrong with a document can be said without
loading it: below is every defect that there is, with the place where it is, as a fact about the
document alone. The places are in one order, in which those of an earlier pass come first, and a
document is refused for the defect that is first in this order. There is no other reason.

The last pass asks whether the block that a reference leads to exists, which is the case if any of
the keys denotes its id. So a block may refer to one that is described later, and what is wrong with
the description of that block has been reported before.
-/
import BlockDiagram.Proofs.Document.Table

set_option autoImplicit false

namespace BlockDiagram

open Json (Value)

/-! ## Places -/

/-- What is looked at in a member of the block object. -/
inductive MemberPart where
  | key
  | value
  | id

/-- The number of a part in the order of parts. -/
def MemberPart.rank : MemberPart → Nat
  | .key => 0
  | .value => 1
  | .id => 2

/-- The places of a document that may have a defect. -/
inductive Place where
  /-- The document as a whole. -/
  | document
  /-- A member of the block object. -/
  | member (key : String) (part : MemberPart)
  /-- The description of a block. -/
  | block (id : BlockId) (part : DescriptionPart)
  /-- A reference from a block. -/
  | reference (id : BlockId) (slot : Slot)

/-- The number of the pass that comes to a place. -/
def Place.pass : Place → Nat
  | .document => 0
  | .member .. => 1
  | .block .. => 2
  | .reference .. => 3

/-- Whether a place comes before another one: in an earlier pass, or in the order of their pass.
Members are in the order of the bytes of their keys, blocks in the order of their ids. -/
def Place.Before (p q : Place) : Prop :=
  p.pass < q.pass ∨
    match p, q with
    | .member key part, .member key' part' =>
      utf8 key < utf8 key' ∨ key = key' ∧ part.rank < part'.rank
    | .block id part, .block id' part' => id < id' ∨ id = id' ∧ part.Before part'
    | .reference id slot, .reference id' slot' => id < id' ∨ id = id' ∧ slot.rank < slot'.rank
    | _, _ => False

/-- Of two pairs in lexicographic order only one comes first, if that holds of what they are made
of. -/
theorem asymm_of_lex {α β : Type} (lt : α → α → Prop) {lt' : β → β → Prop} {a b : α} {x y : β}
    (hlt : lt a b → ¬ lt b a) (hirrefl : ¬ lt a a) (hlt' : lt' x y → ¬ lt' y x)
    (h : lt a b ∨ a = b ∧ lt' x y) : ¬ (lt b a ∨ b = a ∧ lt' y x) := by
  rintro (hba | ⟨rfl, hyx⟩)
  · rcases h with hab | ⟨rfl, -⟩
    · exact hlt hab hba
    · exact hirrefl hba
  · rcases h with hab | ⟨-, hxy⟩
    · exact hirrefl hab
    · exact hlt' hxy hyx

theorem Place.Before.asymm {p q : Place} (h : p.Before q) : ¬ q.Before p := by
  rcases h with hpass | h
  · rintro (hpass' | h')
    · omega
    · -- within a pass there is no earlier one
      cases p <;> cases q <;> first | exact h' | exact absurd hpass (Nat.lt_irrefl _)
  · rintro (hpass' | h')
    · cases p <;> cases q <;> first | exact h | exact absurd hpass' (Nat.lt_irrefl _)
    · cases p <;> cases q <;> try exact h
      · exact asymm_of_lex (fun a b : String => utf8 a < utf8 b) List.lt_asymm (List.lt_irrefl _)
          Nat.lt_asymm h h'
      · exact asymm_of_lex (· < ·) UInt32.lt_asymm (UInt32.lt_irrefl _)
          DescriptionPart.Before.asymm h h'
      · exact asymm_of_lex (· < ·) UInt32.lt_asymm (UInt32.lt_irrefl _) Nat.lt_asymm h h'

/-! ## Defects -/

/-- Whether a document has a member in its block object. -/
def HasMember (document : Value) (key : String) (value : Value) : Prop :=
  ∃ members blocks, document = .object members ∧ members.get? "blocks" = some (.object blocks) ∧
    blocks.get? key = some value

/-- Whether a document describes the block with an id by an object. -/
def HasDescription (document : Value) (id : BlockId) (members : Json.Object) : Prop :=
  ∃ key, HasMember document key (.object members) ∧ Numeral key id.toNat

/-- Whether the description of a block refers to another block in a slot. -/
inductive RefersTo (members : Json.Object) : Slot → BlockId → Prop
  | next {value : Value} {target : BlockId} (h : members.get? "next" = some value)
    (hvalue : Denotes value target.toNat) : RefersTo members .next target
  | child {value : Value} {target : BlockId} (htag : members.get? "type" = some (.string "loop"))
    (h : attributeOf members "child" = some value) (hvalue : Denotes value target.toNat) :
    RefersTo members .child target
  | ifTrue {arms : Json.Object} {value : Value} {target : BlockId}
    (htag : members.get? "type" = some (.string "conditional"))
    (h : attributeOf members "children" = some (.object arms))
    (harm : arms.get? "true" = some value) (hvalue : Denotes value target.toNat) :
    RefersTo members .ifTrue target
  | ifFalse {arms : Json.Object} {value : Value} {target : BlockId}
    (htag : members.get? "type" = some (.string "conditional"))
    (h : attributeOf members "children" = some (.object arms))
    (harm : arms.get? "false" = some value) (hvalue : Denotes value target.toNat) :
    RefersTo members .ifFalse target

/-- Whether a document has a defect at a place, and how it is reported. -/
inductive DocumentDefect (document : Value) : Place → LoadError → Prop
  | noObject (h : ∀ members, document ≠ .object members) :
    DocumentDefect document .document .noObject
  /-- There are no blocks, or they are null. -/
  | noBlocks {members : Json.Object} (hdocument : document = .object members)
    (h : ∀ value, members.get? "blocks" = some value → value = .null) :
    DocumentDefect document .document .noBlocks
  | noBlockTable {members : Json.Object} {value : Value} (hdocument : document = .object members)
    (h : members.get? "blocks" = some value) (hnull : value ≠ .null)
    (hobject : ∀ blocks, value ≠ .object blocks) : DocumentDefect document .document .noBlockTable
  /-- The key of a block is no numeral below 2^32. -/
  | badKey {key : String} {value : Value} (h : HasMember document key value)
    (hkey : ∀ n < UInt32.size, ¬ Numeral key n) :
    DocumentDefect document (.member key .key) (.badKey key)
  | noDescription {key : String} {value : Value} {id : BlockId} (h : HasMember document key value)
    (hkey : Numeral key id.toNat) (hobject : ∀ members, value ≠ .object members) :
    DocumentDefect document (.member key .value) (.noDescription id)
  /-- An earlier key denotes the same id. -/
  | duplicateId {key earlier : String} {value value' : Value} {id : BlockId}
    (h : HasMember document key value) (hkey : Numeral key id.toNat)
    (hearlier : HasMember document earlier value') (hlt : utf8 earlier < utf8 key)
    (hsame : Numeral earlier id.toNat) :
    DocumentDefect document (.member key .id) (.duplicateId id)
  | description {id : BlockId} {members : Json.Object} {part : DescriptionPart} {e : LoadError}
    (h : HasDescription document id members) (hdefect : DescriptionDefect id members part e) :
    DocumentDefect document (.block id part) e
  /-- There is no block with the id that is referred to. -/
  | dangling {id target : BlockId} {members : Json.Object} {slot : Slot}
    (h : HasDescription document id members) (hrefers : RefersTo members slot target)
    (hnone : ∀ members, ¬ HasDescription document target members) :
    DocumentDefect document (.reference id slot) (.dangling id slot target)

/-! ## References of a block -/

variable {id target : BlockId}

theorem link_eq_some_iff {sent : Option Value} {link : Option BlockId}
    (h : Given none DenotesLink sent link) :
    link = some id ↔ ∃ value, sent = some value ∧ Denotes value id.toNat := by
  cases h with
  | absent => simp
  | null =>
    constructor
    · intro h
      cases h
    · rintro ⟨_, ⟨⟩, ⟨⟩⟩
  | @value value link h =>
    cases h with
    | @link other h =>
      constructor
      · rintro ⟨⟩
        exact ⟨value, rfl, h⟩
      · rintro ⟨_, ⟨⟩, hid⟩
        rw [UInt32.toNat_inj.1 (h.unique hid)]

theorem ArmGiven.target?_eq_some_iff {sent : Option Value} {arm : Arm} (h : ArmGiven sent arm) :
    arm.target? = some id ↔ ∃ value, sent = some value ∧ Denotes value id.toNat := by
  cases h with
  | missing => simp [Arm.target?]
  | empty =>
    constructor
    · intro h
      cases h
    · rintro ⟨_, ⟨⟩, ⟨⟩⟩
  | @target value other h =>
    constructor
    · rintro ⟨⟩
      exact ⟨value, rfl, h⟩
    · rintro ⟨_, ⟨⟩, hid⟩
      rw [Arm.target?, UInt32.toNat_inj.1 (h.unique hid)]

/-- Each of the arms begins with the block that the object of the arms says. -/
theorem ArmsGiven.target?_eq_some_iff {sent : Option Value} {ifTrue ifFalse : Arm}
    (h : ArmsGiven sent ifTrue ifFalse) :
    (ifTrue.target? = some id ↔ ∃ arms value, sent = some (.object arms) ∧
        arms.get? "true" = some value ∧ Denotes value id.toNat) ∧
      (ifFalse.target? = some id ↔ ∃ arms value, sent = some (.object arms) ∧
        arms.get? "false" = some value ∧ Denotes value id.toNat) := by
  cases h with
  | missing => simp [Arm.target?]
  | sent htrue hfalse => simp [htrue.target?_eq_some_iff, hfalse.target?_eq_some_iff]

section Links

variable {members : Json.Object} {next : Option BlockId} {kind : BlockKind} {extra : Json.Object}

theorem target?_next_iff (h : Describes members ⟨id, next, kind, extra⟩) :
    next = some target ↔ RefersTo members .next target := by
  obtain ⟨value, hnext, hlink⟩ := h.next
  rw [link_eq_some_iff hlink]
  constructor
  · rintro ⟨_, ⟨⟩, hvalue⟩
    exact .next hnext hvalue
  · intro hrefers
    cases hrefers with
    | next hget hvalue =>
      cases hnext.symm.trans hget
      exact ⟨_, rfl, hvalue⟩

theorem target?_child_iff (h : Describes members ⟨id, next, kind, extra⟩) :
    Block.target? ⟨id, next, kind, extra⟩ .child = some target ↔
      RefersTo members .child target := by
  constructor
  · intro htarget
    obtain ⟨tag, htag, hkind⟩ := h.kind
    cases hkind with
    | loop _ hchild =>
      obtain ⟨value, hsent, hvalue⟩ := (link_eq_some_iff hchild).1 htarget
      exact .child htag hsent hvalue
    | _ => cases htarget
  · intro hrefers
    cases hrefers with
    | child htag hsent hvalue =>
      obtain ⟨condition, child, hkind, hchild⟩ := h.exists_loop htag
      cases hkind
      exact (link_eq_some_iff hchild).2 ⟨_, hsent, hvalue⟩

theorem target?_ifTrue_iff (h : Describes members ⟨id, next, kind, extra⟩) :
    Block.target? ⟨id, next, kind, extra⟩ .ifTrue = some target ↔
      RefersTo members .ifTrue target := by
  constructor
  · intro htarget
    cases kind with
    | conditional condition ifTrue ifFalse =>
      obtain ⟨htag, harms⟩ := h.arms rfl
      obtain ⟨arms, value, hsent, harm, hvalue⟩ := harms.target?_eq_some_iff.1.1 htarget
      exact .ifTrue htag hsent harm hvalue
    | _ => cases htarget
  · intro hrefers
    cases hrefers with
    | ifTrue htag hsent harm hvalue =>
      obtain ⟨condition, ifTrue, ifFalse, hkind, harms⟩ := h.exists_conditional htag
      cases hkind
      exact harms.target?_eq_some_iff.1.2 ⟨_, _, hsent, harm, hvalue⟩

theorem target?_ifFalse_iff (h : Describes members ⟨id, next, kind, extra⟩) :
    Block.target? ⟨id, next, kind, extra⟩ .ifFalse = some target ↔
      RefersTo members .ifFalse target := by
  constructor
  · intro htarget
    cases kind with
    | conditional condition ifTrue ifFalse =>
      obtain ⟨htag, harms⟩ := h.arms rfl
      obtain ⟨arms, value, hsent, harm, hvalue⟩ := harms.target?_eq_some_iff.2.1 htarget
      exact .ifFalse htag hsent harm hvalue
    | _ => cases htarget
  · intro hrefers
    cases hrefers with
    | ifFalse htag hsent harm hvalue =>
      obtain ⟨condition, ifTrue, ifFalse, hkind, harms⟩ := h.exists_conditional htag
      cases hkind
      exact harms.target?_eq_some_iff.2.2 ⟨_, _, hsent, harm, hvalue⟩

end Links

/-- A block refers to others where its description does. -/
theorem Describes.target?_eq_some_iff {members : Json.Object} {block : Block}
    (h : Describes members block) (slot : Slot) :
    block.target? slot = some target ↔ RefersTo members slot target := by
  cases slot with
  | next => exact target?_next_iff h
  | child => exact target?_child_iff h
  | ifTrue => exact target?_ifTrue_iff h
  | ifFalse => exact target?_ifFalse_iff h

/-! ## The members of the block object -/

variable {document : Value} {blocks : Json.Object} {e : LoadError}

theorem blockObject_eq_ok_iff :
    blockObject document = .ok blocks ↔
      ∃ members, document = .object members ∧ members.get? "blocks" = some (.object blocks) := by
  unfold blockObject
  constructor
  · intro h
    split at h
    · rename_i members
      split at h
      · cases h
      · rename_i hblocks
        cases h
        exact ⟨members, rfl, (given?_eq_some_iff.1 hblocks).1⟩
      · cases h
    · cases h
  · rintro ⟨members, rfl, hblocks⟩
    have hgiven : (members.get? "blocks").bind Value.given? = some (.object blocks) :=
      given?_eq_some_iff.2 ⟨hblocks, by simp⟩
    dsimp only
    rw [hgiven]

theorem blockObject_eq_error_iff :
    blockObject document = .error e ↔ DocumentDefect document .document e := by
  unfold blockObject
  constructor
  · intro h
    split at h
    · split at h
      · rename_i hnone
        cases h
        exact .noBlocks rfl (given?_eq_none_iff.1 hnone)
      · cases h
      · rename_i value hobject hsome
        cases h
        obtain ⟨hblocks, hnull⟩ := given?_eq_some_iff.1 hsome
        exact .noBlockTable rfl hblocks hnull hobject
    · rename_i hobject
      cases h
      exact .noObject hobject
  · intro h
    cases h with
    | noObject h =>
      split
      · rename_i members
        exact absurd rfl (h members)
      · rfl
    | noBlocks hdocument h =>
      subst hdocument
      dsimp only
      rw [given?_eq_none_iff.2 h]
    | @noBlockTable members value hdocument h hnull hobject =>
      subst hdocument
      have hgiven : (members.get? "blocks").bind Value.given? = some value :=
        given?_eq_some_iff.2 ⟨h, hnull⟩
      dsimp only
      rw [hgiven]
      cases value with
      | null => exact absurd rfl hnull
      | object blocks => exact absurd rfl (hobject blocks)
      | _ => rfl

theorem hasMember_iff (hblocks : blockObject document = .ok blocks) {key : String} {value : Value} :
    HasMember document key value ↔ blocks.get? key = some value := by
  obtain ⟨members, rfl, hget⟩ := blockObject_eq_ok_iff.1 hblocks
  constructor
  · rintro ⟨_, _, ⟨⟩, hget', hvalue⟩
    cases hget.symm.trans hget'
    exact hvalue
  · intro hvalue
    exact ⟨members, blocks, rfl, hget, hvalue⟩

/-- Adding a member inspects its key, its value and its id, whatever was added before. -/
theorem inspects_addDescription (hblocks : blockObject document = .ok blocks)
    {done later : List (String × Value)} {key : String} {value : Value} {table : List Description}
    (hlist : blocks.toList = done ++ (key, value) :: later) (htable : Tabled done table) :
    Inspects Place.Before (DocumentDefect document)
      ({.member key .key} ∪ ({.member key .value} ∪ {.member key .id}))
      (addDescription table (key, value)) := by
  have hget : blocks.get? key = some value := by
    rw [← Json.Members.mem_toList_iff, hlist]
    simp
  have hmember : HasMember document key value := (hasMember_iff hblocks).2 hget
  have hvalue {value' : Value} (h : HasMember document key value') : value' = value := by
    rw [hasMember_iff hblocks, hget] at h
    exact (Option.some.inj h).symm
  rw [addDescription_eq]
  refine (inspects_singleton fun e => ?_).bind (fun id hid => ?_) ?_
  · rw [keyId_eq_error_iff]
    constructor
    · rintro ⟨hkey, rfl⟩
      exact .badKey hmember hkey
    · intro h
      cases h with
      | badKey _ hkey => exact ⟨hkey, rfl⟩
  · rw [keyId_eq_ok_iff] at hid
    refine (inspects_singleton fun e => ?_).bind
      (fun members _ => inspects_singleton fun e => ?_) ?_
    · rw [descriptionObject_eq_error_iff]
      constructor
      · rintro ⟨hobject, rfl⟩
        exact .noDescription hmember hid hobject
      · intro h
        cases h with
        | noDescription h hkey hobject =>
          rw [hvalue h] at hobject
          exact ⟨hobject, by rw [hkey.id_eq hid]⟩
    · -- the table has the id if a key that came before denotes it
      rw [withDescription_eq_error_iff, htable.exists_id_iff]
      constructor
      · rintro ⟨⟨⟨earlier, value'⟩, hearlier, hsame⟩, rfl⟩
        obtain ⟨hget', hlt⟩ := (Json.Members.mem_done_iff hlist).1 hearlier
        exact .duplicateId hmember hid ((hasMember_iff hblocks).2 hget')
          (utf8_lt_utf8_iff.2 hlt) hsame
      · intro h
        cases h with
        | @duplicateId _ earlier _ value' _ _ hkey hearlier hlt hsame =>
          cases hkey.id_eq hid
          rw [hasMember_iff hblocks] at hearlier
          have hdone := (Json.Members.mem_done_iff hlist).2 ⟨hearlier, utf8_lt_utf8_iff.1 hlt⟩
          exact ⟨⟨(earlier, value'), hdone, hsame⟩, rfl⟩
    · rintro _ rfl _ rfl
      exact .inr (.inr ⟨rfl, by decide⟩)
  · rintro _ rfl _ (rfl | rfl) <;> exact .inr (.inr ⟨rfl, by decide⟩)

/-- The members are inspected one after the other. -/
theorem inspects_members (hblocks : blockObject document = .ok blocks) :
    Inspects Place.Before (DocumentDefect document) {p | p.pass = 1}
      (blocks.toList.foldlM addDescription []) := by
  have hfold : Inspects Place.Before (DocumentDefect document)
      (placesOf (fun entry => {.member entry.1 .key} ∪
        ({.member entry.1 .value} ∪ {.member entry.1 .id})) blocks.toList)
      (blocks.toList.foldlM addDescription []) := by
    apply inspects_foldlM Tabled [] blocks.toList
    · intro earlier entry later table hlist htable
      exact inspects_addDescription hblocks hlist htable
    · intro earlier entry later table table' _ htable hstep
      exact htable.step hstep
    · apply blocks.toList_ascending.imp
      rintro a b hab p hp q hq
      have hkeys := utf8_lt_utf8_iff.2 hab
      rcases hp with rfl | rfl | rfl <;> rcases hq with rfl | rfl | rfl <;>
        exact .inr (.inl hkeys)
    · exact tabled_nil
  apply hfold.congr
  intro p e h
  have hmem {key : String} {value : Value} (h : HasMember document key value) :
      (key, value) ∈ blocks.toList :=
    Json.Members.mem_toList_iff.2 ((hasMember_iff hblocks).1 h)
  constructor
  · rintro ⟨entry, -, rfl | rfl | rfl⟩ <;> rfl
  · intro hpass
    cases h with
    | badKey h => exact ⟨_, hmem h, .inl rfl⟩
    | noDescription h => exact ⟨_, hmem h, .inr (.inl rfl)⟩
    | duplicateId h => exact ⟨_, hmem h, .inr (.inr rfl)⟩
    | _ => cases hpass

/-! ## The descriptions -/

section Descriptions

variable {table : List Description} (hblocks : blockObject document = .ok blocks)
  (htable : Tabled blocks.toList table)

include hblocks htable

theorem exists_hasDescription {d : Description} (hd : d ∈ table) :
    ∃ members, HasDescription document d.id members ∧ d = .ofObject d.id members := by
  obtain ⟨⟨key, value⟩, hentry, members, hvalue, hkey, heq⟩ := (htable.mem_iff d).1 hd
  rw [Json.Members.mem_toList_iff, ← hasMember_iff hblocks] at hentry
  cases hvalue
  exact ⟨members, ⟨key, hentry, hkey⟩, heq⟩

theorem ofObject_mem {members : Json.Object} (h : HasDescription document id members) :
    Description.ofObject id members ∈ table := by
  obtain ⟨key, hmember, hkey⟩ := h
  rw [hasMember_iff hblocks, ← Json.Members.mem_toList_iff] at hmember
  exact (htable.mem_iff _).2 ⟨_, hmember, members, rfl, hkey, rfl⟩

theorem HasDescription.unique {members members' : Json.Object}
    (h : HasDescription document id members) (h' : HasDescription document id members') :
    members = members' := by
  obtain ⟨key, hmember, hkey⟩ := h
  obtain ⟨key', hmember', hkey'⟩ := h'
  rw [hasMember_iff hblocks, ← Json.Members.mem_toList_iff] at hmember hmember'
  cases htable.unique _ hmember _ hmember' id hkey hkey'
  rfl

/-- The descriptions are inspected one after the other. -/
theorem inspects_descriptions :
    Inspects Place.Before (DocumentDefect document) {p | p.pass = 2}
      (table.mapM Description.block) := by
  have hmap : Inspects Place.Before (DocumentDefect document)
      (placesOf (fun d => Place.block d.id '' Set.univ) table) (table.mapM Description.block) := by
    apply inspects_mapM
    · intro d hd
      obtain ⟨members, hmembers, heq⟩ := exists_hasDescription hblocks htable hd
      have hblock := inspects_block d.id members
      rw [← heq] at hblock
      apply hblock.image
      · intro part e
        constructor
        · intro h
          cases h with
          | description h hdefect =>
            rw [HasDescription.unique hblocks htable hmembers h]
            exact hdefect
        · exact .description hmembers
      · intro part part' hbefore
        exact .inr (.inr ⟨rfl, hbefore⟩)
    · apply htable.ascending.imp
      rintro d d' hlt _ ⟨part, -, rfl⟩ _ ⟨part', -, rfl⟩
      exact .inr (.inl hlt)
  apply hmap.congr
  intro p e h
  constructor
  · rintro ⟨d, -, part, -, rfl⟩
    rfl
  · intro hpass
    cases h with
    | @description id members part _ h =>
      exact ⟨_, ofObject_mem hblocks htable h, part, trivial, rfl⟩
    | _ => cases hpass

end Descriptions

/-! ## The references -/

/-- The edges of a graph are in the order of the places that they come from. -/
theorem Graph.edges_pairwise (graph : Graph) :
    graph.edges.Pairwise fun a b =>
      (Place.reference a.source a.slot).Before (.reference b.source b.slot) :=
  graph.edges_ascending.imp fun h => .inr h

/-- Whether a graph has a block for every description of a document, which it describes, and no
other ones. -/
structure Portrays (document : Value) (graph : Graph) : Prop where
  described : ∀ block ∈ graph.blocks, ∃ members, HasDescription document block.id members ∧
    Describes members block
  drawn : ∀ id members, HasDescription document id members →
    ∃ block ∈ graph.blocks, block.id = id ∧ Describes members block

/-- The references are inspected one after the other, once all blocks are there. -/
theorem inspects_resolved {graph : Graph} (h : Portrays document graph) :
    Inspects Place.Before (DocumentDefect document) {p | p.pass = 3} (resolved graph) := by
  have hcontains (id : BlockId) :
      graph.contains id = true ↔ ∃ members, HasDescription document id members := by
    rw [Graph.contains_iff, Graph.ids, List.mem_map]
    constructor
    · rintro ⟨block, hblock, rfl⟩
      obtain ⟨members, hmembers, -⟩ := h.described block hblock
      exact ⟨members, hmembers⟩
    · rintro ⟨members, hmembers⟩
      obtain ⟨block, hblock, hid, -⟩ := h.drawn id members hmembers
      exact ⟨block, hblock, hid⟩
  have hfind : Inspects Place.Before (DocumentDefect document)
      (placesOf (fun edge => {.reference edge.source edge.slot}) graph.edges) (resolved graph) := by
    apply inspects_find? fun edge => !graph.contains edge.target
    · intro edge hedge
      rw [resolved, hedge]
    · intro hnone
      exact ⟨graph, by rw [resolved, hnone]⟩
    · intro edge hedge e
      obtain ⟨block, hblock, hid, hreference⟩ := Graph.mem_edges_iff.1 hedge
      rw [Block.mem_references] at hreference
      rw [Bool.not_eq_true', ← Bool.not_eq_true, hcontains, not_exists]
      constructor
      · intro hdefect
        cases hdefect with
        | dangling hmembers hrefers hnone =>
          -- a block has one reference in a slot, so this is the one
          obtain ⟨other, hother, hsame, hdescribes⟩ := h.drawn _ _ hmembers
          cases graph.ascending.eq_of_id_eq hother hblock (hsame.trans hid.symm)
          have htarget := (hdescribes.target?_eq_some_iff edge.slot).2 hrefers
          cases hreference.symm.trans htarget
          exact ⟨hnone, rfl⟩
      · rintro ⟨hnone, rfl⟩
        obtain ⟨members, hmembers, hdescribes⟩ := h.described block hblock
        rw [hid] at hmembers
        exact .dangling hmembers ((hdescribes.target?_eq_some_iff edge.slot).1 hreference) hnone
    · exact graph.edges_pairwise
  apply hfind.congr
  intro p e hdefect
  constructor
  · rintro ⟨edge, -, rfl⟩
    rfl
  · intro hpass
    cases hdefect with
    | @dangling id target members slot hmembers hrefers _ =>
      obtain ⟨block, hblock, rfl, hdescribes⟩ := h.drawn _ _ hmembers
      have hreference := (hdescribes.target?_eq_some_iff slot).2 hrefers
      rw [← Block.mem_references] at hreference
      exact ⟨⟨block.id, slot, target⟩, Graph.mem_edges_iff.2 ⟨block, hblock, rfl, hreference⟩, rfl⟩
    | _ => cases hpass

/-! ## The whole document -/

/-- The blocks made of a table portray the document. -/
theorem portrays_ofList {table : List Description} {drawn : List Block}
    (hblocks : blockObject document = .ok blocks) (htable : Tabled blocks.toList table)
    (hdrawn : table.mapM Description.block = .ok drawn) :
    Portrays document (Graph.ofList drawn) := by
  obtain ⟨hall, hmade⟩ := mem_blocks_ofList htable.ascending hdrawn
  constructor
  · intro block hblock
    obtain ⟨d, hd, hload⟩ := hmade block hblock
    obtain ⟨members, hmembers, heq⟩ := exists_hasDescription hblocks htable hd
    have hid := id_of_block hload
    rw [heq] at hload
    exact ⟨members, hid ▸ hmembers, describes_of_block hload⟩
  · intro id members hmembers
    obtain ⟨block, hblock, hload⟩ := hall _ (ofObject_mem hblocks htable hmembers)
    exact ⟨block, hblock, id_of_block hload, describes_of_block hload⟩

/-- Loading inspects all places of a document. -/
theorem inspects_ofDocument (document : Value) :
    Inspects Place.Before (DocumentDefect document) Set.univ (Graph.ofDocument document) := by
  have hbefore {p q : Place} {m n : Nat} (hp : p.pass = m) (hq : n ≤ q.pass) (h : m < n) :
      p.Before q :=
    .inl (by omega)
  have hdescriptions : Inspects Place.Before (DocumentDefect document)
      ({.document} ∪ {p | p.pass = 1}) (descriptions document) := by
    refine (inspects_singleton fun e => blockObject_eq_error_iff).bind
      (fun blocks hblocks => inspects_members hblocks) ?_
    rintro _ rfl q hq
    exact hbefore rfl hq.ge (by decide)
  have hpasses : Inspects Place.Before (DocumentDefect document)
      (({.document} ∪ {p | p.pass = 1}) ∪ ({p | p.pass = 2} ∪ {p | p.pass = 3}))
      (Graph.ofDocument document) := by
    refine hdescriptions.bind (fun table htable => ?_) ?_
    · obtain ⟨blocks, hblocks, hfold⟩ := bind_eq_ok_iff.1 htable
      have htabled := tabled_foldlM hfold
      refine (inspects_descriptions hblocks htabled).bind (fun drawn hdrawn => ?_) ?_
      · exact inspects_resolved (portrays_ofList hblocks htabled hdrawn)
      · intro p hp q hq
        exact hbefore hp hq.ge (by decide)
    · rintro p (rfl | hp) q (hq | hq)
      · exact hbefore rfl hq.ge (by decide)
      · exact hbefore rfl hq.ge (by decide)
      · exact hbefore hp hq.ge (by decide)
      · exact hbefore hp hq.ge (by decide)
  apply hpasses.congr
  intro p e _
  cases p <;> simp [Place.pass]

/-- Whether a defect is the first one of a document. -/
structure FirstDefect (document : Value) (place : Place) (e : LoadError) : Prop where
  defect : DocumentDefect document place e
  first : ∀ other e', DocumentDefect document other e' → other = place ∨ place.Before other

/-- **The defect reported.** A document is refused exactly if it has a defect, and the defect that
it is refused for is the first one. -/
theorem Graph.ofDocument_eq_error_iff_firstDefect (document : Value) :
    (∀ e, Graph.ofDocument document = .error e ↔ ∃ place, FirstDefect document place e) ∧
      ((∃ e, Graph.ofDocument document = .error e) ↔
        ∃ place e, DocumentDefect document place e) := by
  have hinspects := inspects_ofDocument document
  constructor
  · intro e
    rw [hinspects.eq_error_iff fun p q hpq => hpq.asymm]
    constructor
    · rintro ⟨place, hdefect, hfirst⟩
      exact ⟨place, hdefect, hfirst⟩
    · rintro ⟨place, hdefect, hfirst⟩
      exact ⟨place, hdefect, hfirst⟩
  · exact hinspects.exists_error_iff

/-- Keys are in the order of their bytes, blocks in that of their ids: of two types that are not
known, the one of block 9 is reported, although the key of block 10 comes first. -/
example :
    Graph.ofDocument (.ofMembers [("blocks", .ofMembers
        [("10", .ofMembers [("type", .string "jump")]),
          ("9", .ofMembers [("type", .string "halt")])])]) =
      .error (.unknownType 9 (some "halt")) := rfl

end BlockDiagram
