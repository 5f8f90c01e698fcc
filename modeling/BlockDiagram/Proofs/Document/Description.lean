/-
What the description of a block says.

A description is an object, and the block that it describes is said in terms of that object: what
its members and attributes denote, and which of them are kept. So is everything that can be wrong
with it, part by part, independently of what else is wrong. The parts are in an order, and loading
the description fails with the defect of the first part that has one. Where no part has one the
block loaded is the one described.
-/
import BlockDiagram.Proofs.Document.Attributes
import BlockDiagram.Proofs.Text.Utf8
import Mathlib.Data.Set.Insert

set_option autoImplicit false

namespace BlockDiagram

open Json (Value)

/-- The attribute with a name, if the object of a description gives one. -/
def attributeOf (members : Json.Object) (name : String) : Option Value :=
  match members.get? "attributes" with
  | some (.object attributes) => attributes.get? name
  | _ => none

/-- Whether an object describes a block, apart from its id. -/
structure Describes (members : Json.Object) (block : Block) : Prop where
  /-- The block goes on where the object says, which has to say so even if nothing follows. -/
  next : ∃ value, members.get? "next" = some value ∧
    Given none DenotesLink (some value) block.next
  /-- Attributes are given by an object or not at all. -/
  attributes : ∀ value, members.get? "attributes" = some value →
    value = .null ∨ ∃ attributes, value = .object attributes
  kind : ∃ tag, members.get? "type" = some (.string tag) ∧
    KindGiven (attributeOf members) (attributeOf members "children") tag block.kind
  /-- Exactly the attributes that the kind does not know are kept, as they are. -/
  extra : ∀ name, block.extra.get? name =
    if block.kind.form? name = none then attributeOf members name else none

theorem Describes.exists_loop {members : Json.Object} {block : Block} (h : Describes members block)
    (htag : members.get? "type" = some (.string "loop")) :
    ∃ condition child, block.kind = .loop condition child ∧
      Given none DenotesLink (attributeOf members "child") child := by
  obtain ⟨tag, htag', hkind⟩ := h.kind
  cases htag.symm.trans htag'
  exact hkind.of_loop rfl

theorem Describes.exists_conditional {members : Json.Object} {block : Block}
    (h : Describes members block) (htag : members.get? "type" = some (.string "conditional")) :
    ∃ condition ifTrue ifFalse, block.kind = .conditional condition ifTrue ifFalse ∧
      ArmsGiven (attributeOf members "children") ifTrue ifFalse := by
  obtain ⟨tag, htag', hkind⟩ := h.kind
  cases htag.symm.trans htag'
  exact hkind.of_conditional rfl

/-- Only a conditional has arms, which are those of its attributes. -/
theorem Describes.arms {members : Json.Object} {block : Block} {condition : String}
    {ifTrue ifFalse : Arm} (h : Describes members block)
    (hkind : block.kind = .conditional condition ifTrue ifFalse) :
    members.get? "type" = some (.string "conditional") ∧
      ArmsGiven (attributeOf members "children") ifTrue ifFalse := by
  obtain ⟨tag, htag, hgiven⟩ := h.kind
  rw [hkind] at hgiven
  cases hgiven with
  | conditional _ harms => exact ⟨htag, harms⟩

/-! ## Parts -/

/-- The parts of a description that may have a defect. -/
inductive DescriptionPart where
  | type
  | next
  | attributes
  | arms
  | ifTrue
  | ifFalse
  | attribute (name : String)

/-- The number of a part in the order of parts, which the single attributes share. -/
def DescriptionPart.rank : DescriptionPart → Nat
  | .type => 0
  | .next => 1
  | .attributes => 2
  | .arms => 3
  | .ifTrue => 4
  | .ifFalse => 5
  | .attribute _ => 6

/-- Whether a part comes before another one. Attributes are in the order of the bytes of their
names. -/
def DescriptionPart.Before (p q : DescriptionPart) : Prop :=
  p.rank < q.rank ∨ ∃ m n, p = .attribute m ∧ q = .attribute n ∧ utf8 m < utf8 n

theorem DescriptionPart.Before.asymm {p q : DescriptionPart} (h : p.Before q) : ¬ q.Before p := by
  rintro (hrank | ⟨m, n, rfl, rfl, hmn⟩)
  · rcases h with hrank' | ⟨m, n, rfl, rfl, -⟩
    · omega
    · exact absurd hrank (Nat.lt_irrefl _)
  · rcases h with hrank | ⟨m', n', hm, hn, hmn'⟩
    · exact absurd hrank (Nat.lt_irrefl _)
    · cases hm
      cases hn
      exact List.lt_asymm hmn hmn'

/-- Whether the description of a block has a defect in a part, and how it is reported. -/
inductive DescriptionDefect (id : BlockId) (members : Json.Object) :
    DescriptionPart → LoadError → Prop
  /-- There is no type. -/
  | noType (h : ∀ value, members.get? "type" = some value → value = .null) :
    DescriptionDefect id members .type (.unknownType id none)
  /-- The type is no text. -/
  | badType {value : Value} (h : members.get? "type" = some value) (hnull : value ≠ .null)
    (htext : ∀ tag, value ≠ .string tag) :
    DescriptionDefect id members .type (.unknownType id (some value.text))
  /-- The type is none that is known. -/
  | unknownType {tag : String} (h : members.get? "type" = some (.string tag))
    (htag : BlockKind.ofTag? tag = none) :
    DescriptionDefect id members .type (.unknownType id (some tag))
  | missingNext (h : members.get? "next" = none) :
    DescriptionDefect id members .next (.missingNext id)
  | badNext {value : Value} {fault : AttributeFault} (h : members.get? "next" = some value)
    (hfault : Form.link.Fault value fault) :
    DescriptionDefect id members .next (.badAttribute id "next" fault)
  /-- The attributes are neither null nor an object. -/
  | badAttributes {value : Value} (h : members.get? "attributes" = some value)
    (hnull : value ≠ .null) (hobject : ∀ attributes, value ≠ .object attributes) :
    DescriptionDefect id members .attributes (.badAttribute id "attributes" (.noAttributes value))
  /-- The arms of a conditional are not an object. -/
  | badArms {value : Value} (htag : members.get? "type" = some (.string "conditional"))
    (h : attributeOf members "children" = some value) (hobject : ∀ arms, value ≠ .object arms) :
    DescriptionDefect id members .arms (.badAttribute id "children" .noArms)
  | badTrueArm {arms : Json.Object} {value : Value} {fault : AttributeFault}
    (htag : members.get? "type" = some (.string "conditional"))
    (h : attributeOf members "children" = some (.object arms))
    (harm : arms.get? "true" = some value) (hfault : Form.link.Fault value fault) :
    DescriptionDefect id members .ifTrue (.badAttribute id "children.true" fault)
  | badFalseArm {arms : Json.Object} {value : Value} {fault : AttributeFault}
    (htag : members.get? "type" = some (.string "conditional"))
    (h : attributeOf members "children" = some (.object arms))
    (harm : arms.get? "false" = some value) (hfault : Form.link.Fault value fault) :
    DescriptionDefect id members .ifFalse (.badAttribute id "children.false" fault)
  /-- An attribute that the kind knows is not what it has to be. -/
  | badAttribute {tag name : String} {kind : BlockKind} {form : Form} {value : Value}
    {fault : AttributeFault} (htag : members.get? "type" = some (.string tag))
    (hkind : BlockKind.ofTag? tag = some kind) (hform : kind.form? name = some form)
    (h : attributeOf members name = some value) (hfault : form.Fault value fault) :
    DescriptionDefect id members (.attribute name) (.badAttribute id name fault)

/-! ## Loading the parts -/

section Parts

variable {id : BlockId} {members : Json.Object} {e : LoadError}

theorem given?_eq_some_iff {sent : Option Value} {value : Value} :
    sent.bind Value.given? = some value ↔ sent = some value ∧ value ≠ .null := by
  cases sent with
  | none => simp
  | some found => cases found <;> simp [Value.given?] <;> rintro rfl <;> simp

theorem given?_eq_none_iff {sent : Option Value} :
    sent.bind Value.given? = none ↔ ∀ value, sent = some value → value = .null := by
  cases sent with
  | none => simp
  | some found => cases found <;> simp [Value.given?]

theorem kind_eq_ok_iff {kind : BlockKind} :
    (Description.ofObject id members).kind = .ok kind ↔
      ∃ tag, members.get? "type" = some (.string tag) ∧ BlockKind.ofTag? tag = some kind := by
  unfold Description.kind
  constructor
  · intro h
    split at h
    · cases h
    · rename_i tag htype
      split at h
      · rename_i hkind
        cases h
        exact ⟨tag, (given?_eq_some_iff.1 htype).1, hkind⟩
      · cases h
    · cases h
  · rintro ⟨tag, htag, hkind⟩
    have htype : (Description.ofObject id members).type = some (.string tag) :=
      given?_eq_some_iff.2 ⟨htag, by simp⟩
    rw [htype]
    dsimp only
    rw [hkind]

theorem kind_eq_error_iff :
    (Description.ofObject id members).kind = .error e ↔ DescriptionDefect id members .type e := by
  unfold Description.kind
  constructor
  · intro h
    split at h
    · rename_i htype
      cases h
      exact .noType (given?_eq_none_iff.1 htype)
    · rename_i tag htype
      split at h
      · cases h
      · rename_i hkind
        cases h
        exact .unknownType (given?_eq_some_iff.1 htype).1 hkind
    · rename_i value htext htype
      cases h
      obtain ⟨hsent, hnull⟩ := given?_eq_some_iff.1 htype
      exact .badType hsent hnull htext
  · intro h
    cases h with
    | noType h =>
      have htype : (Description.ofObject id members).type = none := given?_eq_none_iff.2 h
      rw [htype]
      rfl
    | @badType value h hnull htext =>
      have htype : (Description.ofObject id members).type = some value :=
        given?_eq_some_iff.2 ⟨h, hnull⟩
      rw [htype]
      cases value with
      | null => exact absurd rfl hnull
      | string tag => exact absurd rfl (htext tag)
      | _ => rfl
    | @unknownType tag h htag =>
      have htype : (Description.ofObject id members).type = some (.string tag) :=
        given?_eq_some_iff.2 ⟨h, by simp⟩
      rw [htype]
      dsimp only
      rw [htag]
      rfl

theorem nextLink_eq_ok_iff {link : Option BlockId} :
    (Description.ofObject id members).nextLink = .ok link ↔
      ∃ value, members.get? "next" = some value ∧ Given none DenotesLink (some value) link := by
  unfold Description.nextLink Description.ofObject
  dsimp only
  cases members.get? "next" with
  | none => simp
  | some value => simp [blame_eq_ok_iff, readLink_eq_ok_iff]

theorem nextLink_eq_error_iff :
    (Description.ofObject id members).nextLink = .error e ↔
      DescriptionDefect id members .next e := by
  unfold Description.nextLink Description.ofObject
  dsimp only
  constructor
  · intro h
    cases hnext : members.get? "next" with
    | none =>
      rw [hnext] at h
      cases h
      exact .missingNext hnext
    | some value =>
      rw [hnext] at h
      obtain ⟨fault, hfault, rfl⟩ := blame_eq_error_iff.1 h
      exact .badNext hnext (readLink_eq_error_iff.1 hfault)
  · intro h
    cases h with
    | missingNext h => rw [h]
    | badNext h hfault =>
      rw [h]
      exact blame_eq_error_iff.2 ⟨_, readLink_eq_error_iff.2 hfault, rfl⟩

theorem attributeObject_of_eq_ok {attributes : Json.Object}
    (h : (Description.ofObject id members).attributeObject = .ok attributes) :
    (∀ name, attributeOf members name = attributes.get? name) ∧
      ∀ value, members.get? "attributes" = some value →
        value = .null ∨ ∃ attributes, value = .object attributes := by
  unfold Description.attributeObject at h
  split at h
  · rename_i hnone
    cases h
    have hnull := given?_eq_none_iff.1 hnone
    refine ⟨fun name => ?_, fun value hvalue => .inl (hnull value hvalue)⟩
    unfold attributeOf
    split
    · rename_i attributes hsome
      cases hnull _ hsome
    · rfl
  · rename_i found hsome
    cases h
    obtain ⟨hsent, -⟩ := given?_eq_some_iff.1 hsome
    refine ⟨fun name => ?_, fun value hvalue => .inr ⟨attributes, ?_⟩⟩
    · rw [attributeOf, hsent]
    · rw [hsent] at hvalue
      exact (Option.some.inj hvalue).symm
  · cases h

theorem attributeObject_eq_error_iff :
    (Description.ofObject id members).attributeObject = .error e ↔
      DescriptionDefect id members .attributes e := by
  unfold Description.attributeObject
  constructor
  · intro h
    split at h
    · cases h
    · cases h
    · rename_i value hobject hsome
      cases h
      obtain ⟨hsent, hnull⟩ := given?_eq_some_iff.1 hsome
      exact .badAttributes hsent hnull hobject
  · rintro ⟨⟩
    rename_i value h hnull hobject
    have hattributes : (Description.ofObject id members).attributes = some value :=
      given?_eq_some_iff.2 ⟨h, hnull⟩
    rw [hattributes]
    cases value with
    | null => exact absurd rfl hnull
    | object attributes => exact absurd rfl (hobject attributes)
    | _ => rfl

/-! ### Arms and attributes -/

variable {tag : String} {kind kind' : BlockKind} {attributes : Json.Object}

theorem ofTag?_conditional {condition : String} {ifTrue ifFalse : Arm}
    (h : BlockKind.ofTag? tag = some (.conditional condition ifTrue ifFalse)) :
    tag = "conditional" := by
  unfold BlockKind.ofTag? at h
  split at h <;> cases h
  rfl

theorem blame_readArm_eq_error_iff {name : String} {sent : Option Value} :
    blame id name (readArm sent) = .error e ↔
      ∃ value fault, sent = some value ∧ Form.link.Fault value fault ∧
        e = .badAttribute id name fault := by
  rw [blame_eq_error_iff]
  simp only [readArm_eq_error_iff]
  constructor
  · rintro ⟨fault, ⟨value, hsent, hfault⟩, he⟩
    exact ⟨value, fault, hsent, hfault, he⟩
  · rintro ⟨value, fault, hsent, hfault, he⟩
    exact ⟨fault, ⟨value, hsent, hfault⟩, he⟩

theorem children_of_defect {p : DescriptionPart} (hp : p ∈ ({.arms, .ifTrue, .ifFalse} : Set _))
    (h : DescriptionDefect id members p e) :
    members.get? "type" = some (.string "conditional") ∧
      ∃ value, attributeOf members "children" = some value := by
  rcases hp with rfl | rfl | rfl
  · cases h with
    | badArms htag hsent => exact ⟨htag, _, hsent⟩
  · cases h with
    | badTrueArm htag hsent => exact ⟨htag, _, hsent⟩
  · cases h with
    | badFalseArm htag hsent => exact ⟨htag, _, hsent⟩

/-- The arms are inspected together, before any attribute is applied. -/
theorem inspects_withArms (htag : members.get? "type" = some (.string tag))
    (hkind : BlockKind.ofTag? tag = some kind)
    (hsent : ∀ name, attributeOf members name = attributes.get? name) :
    Inspects DescriptionPart.Before (DescriptionDefect id members) {.arms, .ifTrue, .ifFalse}
      (withArms id attributes kind) := by
  unfold withArms
  split
  · rename_i condition _ _ arms hget
    have hcond := ofTag?_conditional hkind
    subst hcond
    have harms : attributeOf members "children" = some (.object arms) := by rw [hsent, hget]
    have htrue : Inspects DescriptionPart.Before (DescriptionDefect id members) {.ifTrue}
        (blame id "children.true" (readArm (arms.get? "true"))) := by
      apply inspects_singleton
      intro e
      rw [blame_readArm_eq_error_iff]
      constructor
      · rintro ⟨value, fault, harm, hfault, rfl⟩
        exact .badTrueArm htag harms harm hfault
      · intro h
        cases h with
        | badTrueArm _ h harm hfault =>
          cases harms.symm.trans h
          exact ⟨_, _, harm, hfault, rfl⟩
    have hfalse : Inspects DescriptionPart.Before (DescriptionDefect id members) {.ifFalse}
        (blame id "children.false" (readArm (arms.get? "false"))) := by
      apply inspects_singleton
      intro e
      rw [blame_readArm_eq_error_iff]
      constructor
      · rintro ⟨value, fault, harm, hfault, rfl⟩
        exact .badFalseArm htag harms harm hfault
      · intro h
        cases h with
        | badFalseArm _ h harm hfault =>
          cases harms.symm.trans h
          exact ⟨_, _, harm, hfault, rfl⟩
    have hboth := htrue.bind
      (fun ifTrue _ => hfalse.map (BlockKind.conditional condition ifTrue ·))
      (by rintro _ rfl _ rfl; exact .inl (by decide))
    apply hboth.congr
    -- the object that the arms need is there
    intro p e h
    cases h with
    | badArms _ h hobject => cases harms.symm.trans h; exact absurd rfl (hobject arms)
    | _ => simp
  · rename_i value hobject hget
    have hcond := ofTag?_conditional hkind
    subst hcond
    have hvalue : attributeOf members "children" = some value := by rw [hsent, hget]
    have harms : Inspects DescriptionPart.Before (DescriptionDefect id members) {.arms}
        (blame id "children" (.error .noArms) : Except LoadError BlockKind) := by
      apply inspects_singleton
      intro e
      constructor
      · intro h
        cases h
        exact .badArms htag hvalue hobject
      · intro h
        cases h with
        | badArms _ h hobject => rfl
    apply harms.congr
    -- without the object there are no arms in it
    intro p e h
    cases h with
    | badTrueArm _ h => cases hvalue.symm.trans h; exact absurd rfl (hobject _)
    | badFalseArm _ h => cases hvalue.symm.trans h; exact absurd rfl (hobject _)
    | _ => simp
  · rename_i hobject hother
    intro p hp e h
    obtain ⟨hcond, value, hvalue⟩ := children_of_defect hp h
    cases htag.symm.trans hcond
    cases hkind
    rw [hsent] at hvalue
    exact hother _ _ _ value rfl hvalue

/-- The attributes are inspected one after the other, whatever was set before. -/
theorem inspects_attributes (htag : members.get? "type" = some (.string tag))
    (hkind : BlockKind.ofTag? tag = some kind) (hform : kind'.form? = kind.form?)
    (hsent : ∀ name, attributeOf members name = attributes.get? name) :
    Inspects DescriptionPart.Before (DescriptionDefect id members) {p | ∃ name, p = .attribute name}
      (attributes.toList.foldlM (applyAttribute id) (kind', .nil)) := by
  have hentry {name : String} {value : Value} (h : (name, value) ∈ attributes.toList) :
      attributeOf members name = some value := by
    rw [hsent]
    exact Json.Members.mem_toList_iff.1 h
  have hfold : Inspects DescriptionPart.Before (DescriptionDefect id members)
      (placesOf (fun entry => {.attribute entry.1}) attributes.toList)
      (attributes.toList.foldlM (applyAttribute id) (kind', .nil)) := by
    apply inspects_foldlM (fun _ state => state.1.form? = kind.form?) [] attributes.toList
    · rintro earlier ⟨name, value⟩ later state hlist hstate
      have hvalue : attributeOf members name = some value := by
        apply hentry
        rw [← List.nil_append attributes.toList, hlist]
        simp
      apply inspects_singleton
      intro e
      rw [applyAttribute_eq_error_iff, hstate]
      constructor
      · rintro ⟨form, fault, hknown, hfault, rfl⟩
        exact .badAttribute htag hkind hknown hvalue hfault
      · intro h
        cases h with
        | badAttribute htag' hkind' hknown h hfault =>
          cases htag.symm.trans htag'
          cases hkind.symm.trans hkind'
          cases hvalue.symm.trans h
          exact ⟨_, _, hknown, hfault, rfl⟩
    · intro earlier entry later state state' _ hstate hstep
      rw [form?_of_applyAttribute hstep, hstate]
    · apply attributes.toList_ascending.imp
      rintro a b hab _ rfl _ rfl
      exact .inr ⟨a.1, b.1, rfl, rfl, utf8_lt_utf8_iff.2 hab⟩
    · exact hform
  apply hfold.congr
  intro p e h
  constructor
  · rintro ⟨entry, -, rfl⟩
    exact ⟨entry.1, rfl⟩
  · rintro ⟨name, rfl⟩
    cases h with
    | badAttribute _ _ _ h =>
      rw [hsent] at h
      exact ⟨(name, _), Json.Members.mem_toList_iff.2 h, rfl⟩

/-! ## Loading the whole -/

theorem block_eq (d : Description) :
    d.block = d.kind >>= fun kind => d.nextLink >>= fun next =>
      d.attributeObject >>= fun attributes => withArms d.id attributes kind >>= fun kind =>
        (attributes.toList.foldlM (applyAttribute d.id) (kind, .nil)).map fun state =>
          ⟨d.id, next, state.1, state.2⟩ := rfl

/-- Loading a description inspects all of its parts. -/
theorem inspects_block (id : BlockId) (members : Json.Object) :
    Inspects DescriptionPart.Before (DescriptionDefect id members) Set.univ
      (Description.ofObject id members).block := by
  have hparts : Inspects DescriptionPart.Before (DescriptionDefect id members)
      ({.type} ∪ ({.next} ∪ ({.attributes} ∪ ({.arms, .ifTrue, .ifFalse} ∪
        {p | ∃ name, p = .attribute name})))) (Description.ofObject id members).block := by
    rw [block_eq]
    refine (inspects_singleton fun e => kind_eq_error_iff).bind (fun kind hkind => ?_) ?_
    · obtain ⟨tag, htag, hkind⟩ := kind_eq_ok_iff.1 hkind
      refine (inspects_singleton fun e => nextLink_eq_error_iff).bind (fun next _ => ?_) ?_
      · refine (inspects_singleton fun e => attributeObject_eq_error_iff).bind
          (fun attributes hattributes => ?_) ?_
        · obtain ⟨hsent, -⟩ := attributeObject_of_eq_ok hattributes
          refine (inspects_withArms htag hkind hsent).bind (fun kind' harms => ?_) ?_
          · have hform := (kindGiven_of_withArms hkind harms).2
            exact (inspects_attributes htag hkind hform hsent).map _
          · rintro p (rfl | rfl | rfl) _ ⟨name, rfl⟩ <;> exact .inl (by simp [DescriptionPart.rank])
        · rintro _ rfl q ((rfl | rfl | rfl) | ⟨name, rfl⟩) <;>
            exact .inl (by simp [DescriptionPart.rank])
      · rintro _ rfl q (rfl | (rfl | rfl | rfl) | ⟨name, rfl⟩) <;>
          exact .inl (by simp [DescriptionPart.rank])
    · rintro _ rfl q (rfl | rfl | (rfl | rfl | rfl) | ⟨name, rfl⟩) <;>
        exact .inl (by simp [DescriptionPart.rank])
  apply hparts.congr
  intro p e _
  cases p <;> simp

theorem id_of_block {d : Description} {block : Block} (h : d.block = .ok block) :
    block.id = d.id := by
  rw [block_eq] at h
  obtain ⟨kind, -, h⟩ := bind_eq_ok_iff.1 h
  obtain ⟨next, -, h⟩ := bind_eq_ok_iff.1 h
  obtain ⟨attributes, -, h⟩ := bind_eq_ok_iff.1 h
  obtain ⟨kind', -, h⟩ := bind_eq_ok_iff.1 h
  obtain ⟨state, -, rfl⟩ := map_eq_ok_iff.1 h
  rfl

/-- The block loaded from a description is the one described. -/
theorem describes_of_block {block : Block}
    (h : (Description.ofObject id members).block = .ok block) : Describes members block := by
  rw [block_eq] at h
  obtain ⟨kind, hkind, h⟩ := bind_eq_ok_iff.1 h
  obtain ⟨next, hnext, h⟩ := bind_eq_ok_iff.1 h
  obtain ⟨attributes, hattributes, h⟩ := bind_eq_ok_iff.1 h
  obtain ⟨kind', harms, h⟩ := bind_eq_ok_iff.1 h
  obtain ⟨state, hstate, rfl⟩ := map_eq_ok_iff.1 h
  obtain ⟨tag, htag, hkind⟩ := kind_eq_ok_iff.1 hkind
  obtain ⟨hsent, hobject⟩ := attributeObject_of_eq_ok hattributes
  have hsent' : attributes.get? = attributeOf members := funext fun name => (hsent name).symm
  have happlied := applied_toList (kindGiven_of_withArms hkind harms).1 hstate
  refine ⟨nextLink_eq_ok_iff.1 hnext, hobject, ⟨tag, htag, ?_⟩, ?_⟩
  · rw [← hsent']
    exact happlied.kind
  · rw [← hsent']
    exact happlied.extra

end Parts

end BlockDiagram
