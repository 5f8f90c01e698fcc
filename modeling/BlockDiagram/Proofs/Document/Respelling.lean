/-
Documents that differ in how numbers are spelled.

Ids come as keys, which are texts, and as links, which are numbers or texts; pins and lengths are
sent in both ways as well. A numeral may have blanks around it, a sign and leading zeros, so one
number has many spellings. None of them matters: a document whose keys denote different ids loads to
the same graph, or fails with the same error, whichever spellings are used in it. An error about a
number that is too large shows the number and not its spelling.

Spelling a key in another way moves its member to another place in the document. The keys are gone
over in that order, but where they denote different ids and have an object each, nothing can go
wrong with them; the table that they give is in the order of ids, and so is everything after it.
That is why something is asked of the keys, and nothing of what is below them.
-/
import BlockDiagram.Proofs.Document.Defect

set_option autoImplicit false

namespace BlockDiagram

open Json (Value)

/-! ## Spellings -/

/-- Whether two values are the same, or denote the same number. -/
inductive Respelled : Value → Value → Prop
  | same (value : Value) : Respelled value value
  | number {value value' : Value} {n : Nat} (h : Denotes value n) (h' : Denotes value' n) :
    Respelled value value'

/-- Whether two rows of members have the same names, and related values under each. -/
def NameByName (R : String → Value → Value → Prop) (xs ys : List (String × Value)) : Prop :=
  List.Forall₂ (fun a b => a.1 = b.1 ∧ R a.1 a.2 b.2) xs ys

/-- Whether two values are the same, or objects with the same names in which the values under each
name are related. The relation may depend on the first object. -/
inductive Memberwise (R : Json.Object → String → Value → Value → Prop) : Value → Value → Prop
  | same (value : Value) : Memberwise R value value
  | object {members members' : Json.Object}
    (h : NameByName (R members) members.toList members'.toList) :
    Memberwise R (.object members) (.object members')

/-- How a member of the arms of a conditional may be respelled. -/
def RespelledArm (name : String) : Value → Value → Prop :=
  if name = "true" ∨ name = "false" then Respelled else Eq

/-- How the value of an attribute may be respelled, given what it has to be: a link, a pin and a
length by themselves, arms in their two links, and anything else not at all. -/
def RespelledAs : Option Form → Value → Value → Prop
  | some .link | some .pin | some .length => Respelled
  | some .arms => Memberwise fun _ => RespelledArm
  | _ => Eq

/-- What an attribute has to be in a description of a type. -/
def formOf? (type : Option Value) (name : String) : Option Form :=
  match type with
  | some (.string tag) => (BlockKind.ofTag? tag).bind fun kind => kind.form? name
  | _ => none

/-- How an attribute may be respelled in a description of a type. -/
def RespelledAttribute (type : Option Value) (name : String) : Value → Value → Prop :=
  RespelledAs (formOf? type name)

/-- How a member of a description may be respelled. -/
def RespelledPart (type : Option Value) (name : String) : Value → Value → Prop :=
  if name = "next" then Respelled
  else if name = "attributes" then Memberwise fun _ => RespelledAttribute type
  else Eq

/-- Whether two members of the block object have keys that denote the same number, and descriptions
that are respelled. -/
def RespelledMember (entry entry' : String × Value) : Prop :=
  (∃ n, Numeral entry.1 n ∧ Numeral entry'.1 n) ∧
    Memberwise (fun members => RespelledPart (members.get? "type")) entry.2 entry'.2

/-- Whether two values are the same, or objects whose members are respelled one by one, in whatever
order that puts them. -/
inductive RespelledTable : Value → Value → Prop
  | same (value : Value) : RespelledTable value value
  | object {blocks blocks' : Json.Object} {entries : List (String × Value)}
    (hentries : List.Forall₂ RespelledMember blocks.toList entries)
    (hperm : entries.Perm blocks'.toList) : RespelledTable (.object blocks) (.object blocks')

/-- How a member of a document may be respelled. -/
def RespelledSection (name : String) : Value → Value → Prop :=
  if name = "blocks" then RespelledTable else Eq

/-- Whether two documents differ in nothing but how numbers are spelled. -/
def RespelledDocument : Value → Value → Prop :=
  Memberwise fun _ => RespelledSection

/-- Whether every key of the block object denotes an id, no two of them the same, and has an object
for its value. -/
structure KeyedByIds (document : Value) : Prop where
  denotes : ∀ key value, HasMember document key value → ∃ id : BlockId, Numeral key id.toNat
  apart : ∀ key key' value value' (id : BlockId), HasMember document key value →
    HasMember document key' value' → Numeral key id.toNat → Numeral key' id.toNat → key = key'
  described : ∀ key value, HasMember document key value → ∃ members, value = .object members

/-! ## Members under the same names -/

/-- What is found under a name is related. -/
theorem NameByName.rel_lookup {R : String → Value → Value → Prop} {xs ys : List (String × Value)}
    (h : NameByName R xs ys) (name : String) :
    Option.Rel (R name) (xs.lookup name) (ys.lookup name) := by
  induction h with
  | nil => exact .none
  | @cons a b xs ys hab _ ih =>
    obtain ⟨hname, hvalue⟩ := hab
    rw [List.lookup_cons, List.lookup_cons, ← hname]
    by_cases heq : name = a.1
    · rw [heq, beq_self_eq_true]
      exact .some hvalue
    · rw [beq_eq_false_iff_ne.2 heq]
      exact ih

theorem eq_of_rel_eq {α : Type} {a b : Option α} (h : Option.Rel Eq a b) : a = b := by
  cases h with
  | none => rfl
  | some h => rw [h]

/-! ## Reading a respelled value -/

theorem Denotes.lt {value : Value} {n : Nat} (h : Denotes value n) : n < UInt64.size := by
  cases h with
  | number k => exact k.toNat_lt
  | text _ hn => exact hn

namespace Respelled

variable {value value' : Value}

theorem readNatural_eq (h : Respelled value value') : readNatural value = readNatural value' := by
  have hnatural {value : Value} {n : Nat} (h : Denotes value n) :
      readNatural value = .ok (UInt64.ofNat n) := by
    rw [readNatural_eq_ok_iff, UInt64.toNat_ofNat_of_lt' h.lt]
    exact h
  cases h with
  | same => rfl
  | number h h' => rw [hnatural h, hnatural h']

theorem readIndex_eq (h : Respelled value value') (beyond : UInt64 → AttributeFault) :
    readIndex beyond value = readIndex beyond value' := by
  rw [readIndex, readIndex, h.readNatural_eq]

/-- Null denotes no number, so it is not respelled. -/
theorem eq_or_ne_null (h : Respelled value value') :
    value = value' ∨ value ≠ .null ∧ value' ≠ .null := by
  cases h with
  | same => exact .inl rfl
  | number h h' =>
    right
    constructor <;> rintro rfl
    · cases h
    · cases h'

theorem readLink_eq (h : Respelled value value') : readLink value = readLink value' := by
  obtain rfl | ⟨hvalue, hvalue'⟩ := h.eq_or_ne_null
  · rfl
  · rw [readLink_eq_map hvalue, readLink_eq_map hvalue', h.readIndex_eq]

theorem readPin_eq (h : Respelled value value') : readPin value = readPin value' := by
  obtain rfl | ⟨hvalue, hvalue'⟩ := h.eq_or_ne_null
  · rfl
  · rw [readPin_eq_readIndex hvalue, readPin_eq_readIndex hvalue', h.readIndex_eq]

theorem readLength_eq (h : Respelled value value') : readLength value = readLength value' := by
  obtain rfl | ⟨hvalue, hvalue'⟩ := h.eq_or_ne_null
  · rfl
  · rw [readLength_eq_readNatural hvalue, readLength_eq_readNatural hvalue', h.readNatural_eq]

end Respelled

theorem readArm_eq_of_rel {sent sent' : Option Value} (h : Option.Rel Respelled sent sent') :
    readArm sent = readArm sent' := by
  cases h with
  | none => rfl
  | some h => rw [readArm, readArm, h.readLink_eq]

/-! ## Runs in step -/

theorem bind_congr_ok {ε α β : Type} {result : Except ε α} {f g : α → Except ε β}
    (h : ∀ a, result = .ok a → f a = g a) : result >>= f = result >>= g := by
  cases result with
  | error e => rfl
  | ok a => exact h a rfl

/-- Loops over lists that are related one by one come to the same end, if related entries have the
same outcome at every state that the loop can come to. -/
theorem foldlM_eq_of_forall₂ {ε α β σ : Type} {R : α → β → Prop} {f : σ → α → Except ε σ}
    {g : σ → β → Except ε σ} (Inv : σ → Prop)
    (heq : ∀ state a b, Inv state → R a b → f state a = g state b)
    (hkeeps : ∀ state a state', Inv state → f state a = .ok state' → Inv state')
    {xs : List α} {ys : List β} (h : List.Forall₂ R xs ys) {state : σ} (hstate : Inv state) :
    xs.foldlM f state = ys.foldlM g state := by
  induction h generalizing state with
  | nil => rfl
  | @cons a b xs ys hab _ ih =>
    rw [List.foldlM_cons, List.foldlM_cons, ← heq state a b hstate hab]
    cases hstep : f state a with
    | error e => rfl
    | ok state' => exact ih (hkeeps state a state' hstate hstep)

/-! ## The same block -/

/-- Setting a respelled attribute has the same outcome. -/
theorem BlockKind.set?_eq_of_respelledAs {kind : BlockKind} {name : String} {value value' : Value}
    (h : RespelledAs (kind.form? name) value value') :
    kind.set? name value = kind.set? name value' := by
  rcases kind.set?_cases name value with ⟨hform, -⟩ | ⟨form, result, hform, -, hsets⟩
  · rw [hform] at h
    rw [show value = value' from h]
  · rw [hform] at h
    cases hsets with
    | loopChild => simp only [BlockKind.set?, Respelled.readLink_eq h]
    | readPin | writePin => simp only [BlockKind.set?, Respelled.readPin_eq h]
    | sleepLength => simp only [BlockKind.set?, Respelled.readLength_eq h]
    | conditionalArms => rfl
    | _ =>
      -- conditions, texts and levels are not respelled
      rw [show value = value' from h]

theorem applyAttribute_eq_of_respelledAs {id : BlockId} {state : BlockKind × Json.Object}
    {name : String} {value value' : Value}
    (h : RespelledAs (state.1.form? name) value value') :
    applyAttribute id state (name, value) = applyAttribute id state (name, value') := by
  have hset := BlockKind.set?_eq_of_respelledAs h
  rcases state.1.set?_cases name value with ⟨hform, -⟩ | ⟨form, result, -, hset', -⟩
  · -- an attribute that is kept aside is the same
    rw [hform] at h
    rw [show value = value' from h]
  · rw [hset'] at hset
    simp only [applyAttribute, hset', ← hset]

theorem withArms_eq_of_rel {id : BlockId} {attributes attributes' : Json.Object} {kind : BlockKind}
    (h : Option.Rel (RespelledAs (kind.form? "children")) (attributes.get? "children")
      (attributes'.get? "children")) :
    withArms id attributes kind = withArms id attributes' kind := by
  cases kind with
  | conditional condition ifTrue ifFalse =>
    unfold withArms
    generalize attributes.get? "children" = sent, attributes'.get? "children" = sent' at h ⊢
    cases h with
    | none => rfl
    | some h =>
      cases h with
      | same => rfl
      | @object arms arms' h =>
        have htrue : readArm (arms.get? "true") = readArm (arms'.get? "true") :=
          readArm_eq_of_rel (h.rel_lookup "true")
        have hfalse : readArm (arms.get? "false") = readArm (arms'.get? "false") :=
          readArm_eq_of_rel (h.rel_lookup "false")
        simp only [htrue, hfalse]
  | _ => rw [withArms_of_ne (by simp), withArms_of_ne (by simp)]

section Description

variable {id : BlockId} {members members' : Json.Object}
  (h : NameByName (RespelledPart (members.get? "type")) members.toList members'.toList)

include h

theorem kind_eq_of_respelled :
    (Description.ofObject id members).kind = (Description.ofObject id members').kind := by
  have htype : members.get? "type" = members'.get? "type" := eq_of_rel_eq (h.rel_lookup "type")
  rw [Description.ofObject, Description.ofObject, htype]
  rfl

theorem nextLink_eq_of_respelled :
    (Description.ofObject id members).nextLink = (Description.ofObject id members').nextLink := by
  have hnext : Option.Rel Respelled (members.get? "next") (members'.get? "next") :=
    h.rel_lookup "next"
  unfold Description.nextLink Description.ofObject
  generalize members.get? "next" = sent, members'.get? "next" = sent' at hnext ⊢
  cases hnext with
  | none => rfl
  | some hnext => simp only [hnext.readLink_eq]

/-- The attributes are the same, or respelled one by one. -/
theorem attributeObject_cases_of_respelled :
    (Description.ofObject id members).attributeObject =
        (Description.ofObject id members').attributeObject ∨
      ∃ attributes attributes',
        (Description.ofObject id members).attributeObject = .ok attributes ∧
        (Description.ofObject id members').attributeObject = .ok attributes' ∧
        NameByName (RespelledAttribute (members.get? "type")) attributes.toList
          attributes'.toList := by
  have hattributes : Option.Rel (Memberwise fun _ => RespelledAttribute (members.get? "type"))
      (members.get? "attributes") (members'.get? "attributes") := h.rel_lookup "attributes"
  unfold Description.attributeObject Description.ofObject
  generalize members.get? "attributes" = sent, members'.get? "attributes" = sent' at hattributes ⊢
  cases hattributes with
  | none => exact .inl rfl
  | some hvalue =>
    cases hvalue with
    | same => exact .inl rfl
    | @object attributes attributes' hlist => exact .inr ⟨attributes, attributes', rfl, rfl, hlist⟩

end Description

/-- Applying respelled attributes comes to the same end. -/
theorem foldlM_applyAttribute_eq {id : BlockId} {kind : BlockKind}
    {state : BlockKind × Json.Object} {entries entries' : List (String × Value)}
    (hform : state.1.form? = kind.form?)
    (h : NameByName (fun name => RespelledAs (kind.form? name)) entries entries') :
    entries.foldlM (applyAttribute id) state = entries'.foldlM (applyAttribute id) state := by
  -- which attributes are known does not change on the way
  apply foldlM_eq_of_forall₂ (fun state => state.1.form? = kind.form?) _ _ h hform
  · rintro state ⟨name, value⟩ ⟨_, value'⟩ hstate ⟨rfl, hvalue⟩
    rw [← hstate] at hvalue
    exact applyAttribute_eq_of_respelledAs hvalue
  · intro state entry state' hstate hstep
    rw [form?_of_applyAttribute hstep, hstate]

/-- A respelled description describes the same block, or has the same first defect. -/
theorem block_eq_of_respelled {id : BlockId} {members members' : Json.Object}
    (h : NameByName (RespelledPart (members.get? "type")) members.toList members'.toList) :
    (Description.ofObject id members).block = (Description.ofObject id members').block := by
  rw [block_eq, block_eq, ← kind_eq_of_respelled h, ← nextLink_eq_of_respelled h]
  refine bind_congr_ok fun kind hkind => bind_congr_ok fun next _ => ?_
  obtain heq | ⟨attributes, attributes', hsent, hsent', hlist⟩ :=
    attributeObject_cases_of_respelled h
  · rw [heq]
    rfl
  · -- both sides ask the attributes for what the kind asks them for
    obtain ⟨tag, htag, hkind⟩ := kind_eq_ok_iff.1 hkind
    have hform : RespelledAttribute (members.get? "type") =
        fun name => RespelledAs (kind.form? name) := by
      funext name
      rw [RespelledAttribute, htag, formOf?, hkind]
      rfl
    rw [hform] at hlist
    rw [hsent, hsent']
    change withArms id attributes kind >>= _ = withArms id attributes' kind >>= _
    rw [withArms_eq_of_rel (hlist.rel_lookup "children")]
    refine bind_congr_ok fun kind' harms => ?_
    have hform' : kind'.form? = kind.form? := (kindGiven_of_withArms hkind harms).2
    rw [foldlM_applyAttribute_eq hform' hlist]
    rfl

/-! ## The same table -/

section Table

variable {document document' : Value} {blocks blocks' : Json.Object}
  {entries : List (String × Value)}

/-- Where every key denotes an id of its own and has an object, the members give a table. -/
theorem KeyedByIds.exists_table (hkeyed : KeyedByIds document)
    (hblocks : blockObject document = .ok blocks) :
    ∃ table, blocks.toList.foldlM addDescription [] = .ok table := by
  have hinspects := inspects_members hblocks
  cases hresult : blocks.toList.foldlM addDescription [] with
  | ok table => exact ⟨table, rfl⟩
  | error e =>
    rw [hresult] at hinspects
    obtain ⟨p, hp, honly, -⟩ := hinspects
    cases (honly e).2 rfl with
    | badKey h hkey =>
      obtain ⟨id, hid⟩ := hkeyed.denotes _ _ h
      exact absurd hid (hkey _ id.toNat_lt)
    | noDescription h _ hobject =>
      obtain ⟨members, hmembers⟩ := hkeyed.described _ _ h
      exact absurd hmembers (hobject members)
    | duplicateId h hkey hearlier hlt hsame =>
      cases hkeyed.apart _ _ _ _ _ h hearlier hkey hsame
      exact absurd hlt (List.lt_irrefl _)
    | _ => cases hp

/-- No two keys denote the same id, said of the list of members. -/
theorem KeyedByIds.nodup (hkeyed : KeyedByIds document)
    (hblocks : blockObject document = .ok blocks) :
    (blocks.toList.map fun entry => blockId? entry.1).Nodup := by
  have hmember {entry : String × Value} (h : entry ∈ blocks.toList) :
      HasMember document entry.1 entry.2 :=
    (hasMember_iff hblocks).2 (Json.Members.mem_toList_iff.1 h)
  refine List.Nodup.map_on (fun a ha b hb heq => ?_)
    (Json.nodup_of_ascending blocks.toList_ascending).of_map
  obtain ⟨id, hid⟩ := hkeyed.denotes _ _ (hmember ha)
  have hid' : Numeral b.1 id.toNat := by
    rw [← blockId?_eq_some_iff, ← heq, blockId?_eq_some_iff]
    exact hid
  have hname : a.1 = b.1 := hkeyed.apart _ _ _ _ _ (hmember ha) (hmember hb) hid hid'
  exact List.inj_on_of_nodup_map (Json.nodup_of_ascending blocks.toList_ascending) ha hb hname

theorem blockId?_eq_of_respelled {entry entry' : String × Value}
    (h : RespelledMember entry entry') :
    blockId? entry.1 = blockId? entry'.1 := by
  obtain ⟨⟨n, hkey, hkey'⟩, -⟩ := h
  rw [blockId?, blockId?, numeral?_eq_some_iff.2 hkey, numeral?_eq_some_iff.2 hkey']

/-- What a respelled member gives has the same id, and makes the same block. -/
theorem gives_of_respelled {entry entry' : String × Value} {d : Description}
    (h : RespelledMember entry entry') (hd : Gives entry d) :
    ∃ d', Gives entry' d' ∧ d'.id = d.id ∧ d'.block = d.block := by
  obtain ⟨⟨n, hkey, hkey'⟩, hdescription⟩ := h
  obtain ⟨members, hvalue, hid, heq⟩ := hd
  obtain rfl : n = d.id.toNat := hkey.unique hid
  obtain ⟨key', value'⟩ := entry'
  rw [hvalue] at hdescription
  cases hdescription with
  | same => exact ⟨d, ⟨members, rfl, hkey', heq⟩, rfl, rfl⟩
  | @object _ members' hlist =>
    refine ⟨.ofObject d.id members', ⟨members', rfl, hkey', rfl⟩, rfl, ?_⟩
    rw [← block_eq_of_respelled hlist, ← heq]

variable (hentries : List.Forall₂ RespelledMember blocks.toList entries)
  (hperm : entries.Perm blocks'.toList)

include hentries hperm

/-- In the order of ids, the tables make the same blocks. -/
theorem map_block_eq_of_respelled {table table' : List Description}
    (htable : Tabled blocks.toList table) (htable' : Tabled blocks'.toList table') :
    (table.map fun d => (d.id, d.block)) = table'.map fun d => (d.id, d.block) := by
  have hordered {table : List Description} (h : Ascending Description.id table) :
      (table.map fun d => (d.id, d.block)).Pairwise fun a b => a.1 < b.1 := List.pairwise_map.2 h
  have hnodup {table : List Description} (h : Ascending Description.id table) :
      (table.map fun d => (d.id, d.block)).Nodup := by
    refine (hordered h).imp ?_
    rintro a _ hlt rfl
    exact UInt32.lt_irrefl _ hlt
  apply List.Perm.eq_of_pairwise (fun a b _ _ hab hba => absurd hba (UInt32.lt_asymm hab))
    (hordered htable.ascending) (hordered htable'.ascending)
  rw [List.perm_ext_iff_of_nodup (hnodup htable.ascending) (hnodup htable'.ascending)]
  intro pair
  simp only [List.mem_map]
  constructor
  · rintro ⟨d, hd, rfl⟩
    obtain ⟨entry, hentry, hgives⟩ := (htable.mem_iff d).1 hd
    obtain ⟨entry', hentry', hrel⟩ := (mem_of_forall₂ hentries).1 entry hentry
    obtain ⟨d', hgives', hid, hblock⟩ := gives_of_respelled hrel hgives
    have hd' := (htable'.mem_iff d').2 ⟨entry', hperm.mem_iff.1 hentry', hgives'⟩
    exact ⟨d', hd', by rw [hid, hblock]⟩
  · rintro ⟨d', hd', rfl⟩
    obtain ⟨entry', hentry', hgives'⟩ := (htable'.mem_iff d').1 hd'
    obtain ⟨entry, hentry, hrel⟩ := (mem_of_forall₂ hentries).2 entry' (hperm.mem_iff.2 hentry')
    obtain ⟨d, hgives⟩ := htable.gives entry hentry
    obtain ⟨other, hother, hid, hblock⟩ := gives_of_respelled hrel hgives
    -- the member gives one description only
    obtain rfl : other = d' := by
      obtain ⟨members, hvalue, hkey, heq⟩ := hother
      exact heq.trans ((gives_iff hkey hvalue).1 hgives').symm
    have hd := (htable.mem_iff d).2 ⟨entry, hentry, hgives⟩
    exact ⟨d, hd, by rw [hid, hblock]⟩

/-- The keys of a respelled document denote different ids as well. -/
theorem KeyedByIds.of_respelled (hkeyed : KeyedByIds document)
    (hblocks : blockObject document = .ok blocks) (hblocks' : blockObject document' = .ok blocks') :
    KeyedByIds document' := by
  have hmember {key : String} {value : Value} (h : HasMember document' key value) :
      (key, value) ∈ blocks'.toList :=
    Json.Members.mem_toList_iff.2 ((hasMember_iff hblocks').1 h)
  have hpartner {key : String} {value : Value} (h : HasMember document' key value) :
      ∃ entry, HasMember document entry.1 entry.2 ∧ RespelledMember entry (key, value) := by
    obtain ⟨entry, hentry, hrel⟩ :=
      (mem_of_forall₂ hentries).2 _ (hperm.mem_iff.2 (hmember h))
    exact ⟨entry, (hasMember_iff hblocks).2 (Json.Members.mem_toList_iff.1 hentry), hrel⟩
  refine ⟨fun key value h => ?_, fun key key' value value' id h h' hkey hkey' => ?_,
    fun key value h => ?_⟩
  · obtain ⟨entry, hentry, hrel⟩ := hpartner h
    obtain ⟨id, hid⟩ := hkeyed.denotes _ _ hentry
    rw [← blockId?_eq_some_iff, blockId?_eq_of_respelled hrel] at hid
    exact ⟨id, blockId?_eq_some_iff.1 hid⟩
  · -- one by one the members denote the same ids, so no id occurs twice in the new list either
    have hids : (blocks.toList.map fun entry => blockId? entry.1) =
        entries.map fun entry => blockId? entry.1 := by
      rw [← List.forall₂_eq_eq_eq, List.forall₂_map_left_iff, List.forall₂_map_right_iff]
      exact hentries.imp fun _ _ hrel => blockId?_eq_of_respelled hrel
    have hnodup := hkeyed.nodup hblocks
    rw [hids, (hperm.map _).nodup_iff] at hnodup
    have hsame : blockId? key = blockId? key' := by
      rw [blockId?_eq_some_iff.2 hkey, blockId?_eq_some_iff.2 hkey']
    exact congrArg Prod.fst (List.inj_on_of_nodup_map hnodup (hmember h) (hmember h') hsame)
  · obtain ⟨entry, hentry, -, hdescription⟩ := hpartner h
    obtain ⟨members, hmembers⟩ := hkeyed.described _ _ hentry
    rw [hmembers] at hdescription
    cases hdescription with
    | same => exact ⟨_, rfl⟩
    | object => exact ⟨_, rfl⟩

end Table

/-! ## The same graph -/

/-- With its table made, a document loads to what is made of the table. -/
theorem Graph.ofDocument_of_table {document : Value} {blocks : Json.Object}
    {table : List Description} (hblocks : blockObject document = .ok blocks)
    (htable : blocks.toList.foldlM addDescription [] = .ok table) :
    ofDocument document =
      (table.map fun d => (d.id, d.block)).mapM Prod.snd >>= fun blocks =>
        resolved (.ofList blocks) := by
  have hdescriptions : descriptions document = .ok table := by
    rw [descriptions, hblocks]
    exact htable
  rw [List.mapM_map, ofDocument, hdescriptions]
  rfl

/-- **Loading a respelled document.** Let the keys of a document denote different ids, and let an
object stand under each of them. Whichever way its numbers are spelled, those of keys, links, pins
and lengths, the document loads to the same graph or fails with the same error. -/
theorem Graph.ofDocument_eq_of_respelled {document document' : Value} (hkeyed : KeyedByIds document)
    (h : RespelledDocument document document') : ofDocument document' = ofDocument document := by
  cases h with
  | same => rfl
  | @object members members' hlist =>
    have hsections : Option.Rel RespelledTable (members.get? "blocks") (members'.get? "blocks") :=
      hlist.rel_lookup "blocks"
    -- nothing but the blocks is looked at
    have hsame (heq : members'.get? "blocks" = members.get? "blocks") :
        ofDocument (.object members') = ofDocument (.object members) := by
      rw [ofDocument, ofDocument, descriptions, descriptions, blockObject, blockObject, heq]
    match hsent : members.get? "blocks", hsent' : members'.get? "blocks", hsections with
    | none, none, .none => exact hsame (hsent'.trans hsent.symm)
    | some _, some _, .some (.same _) => exact hsame (hsent'.trans hsent.symm)
    | some (.object blocks), some (.object blocks'), .some (.object hentries hperm) =>
      have hblocks : blockObject (.object members) = .ok blocks :=
        blockObject_eq_ok_iff.2 ⟨members, rfl, hsent⟩
      have hblocks' : blockObject (.object members') = .ok blocks' :=
        blockObject_eq_ok_iff.2 ⟨members', rfl, hsent'⟩
      obtain ⟨table, htable⟩ := hkeyed.exists_table hblocks
      have hkeyed' := hkeyed.of_respelled hentries hperm hblocks hblocks'
      obtain ⟨table', htable'⟩ := hkeyed'.exists_table hblocks'
      have hmap := map_block_eq_of_respelled hentries hperm (tabled_foldlM htable)
        (tabled_foldlM htable')
      rw [ofDocument_of_table hblocks htable, ofDocument_of_table hblocks' htable', hmap]

/-- The description of a write, given its pin. -/
def writeValue (pin : Value) : Value :=
  .ofMembers [("type", .string "write"), ("next", .null),
    ("attributes", .ofMembers [("pin", pin)])]

/-- The description of a conditional, given the link of its first arm. -/
def conditionalValue (arm : Value) : Value :=
  .ofMembers [("type", .string "conditional"), ("next", .null),
    ("attributes", .ofMembers [("children", .ofMembers [("true", arm), ("false", .null)])])]

/-- A document with two blocks, in both of which a number is too large. -/
def plainSpelling : Value :=
  .ofMembers [("blocks", .ofMembers [("10", writeValue (.natural 4294967297)),
    ("9", conditionalValue (.natural 4294967296))])]

/-- The same with its keys the other way round, and texts for the numbers. -/
def fancySpelling : Value :=
  .ofMembers [("blocks", .ofMembers [(" +09", conditionalValue (.string "+4294967296")),
    ("010", writeValue (.string " 04294967297 "))])]

theorem keyedByIds_plainSpelling : KeyedByIds plainSpelling := by
  have hblocks : blockObject plainSpelling = .ok (.ofList [("10", writeValue (.natural 4294967297)),
    ("9", conditionalValue (.natural 4294967296))]) := rfl
  have hmember (key : String) (value : Value) (h : HasMember plainSpelling key value) :
      (key, value) = ("10", writeValue (.natural 4294967297)) ∨
        (key, value) = ("9", conditionalValue (.natural 4294967296)) := by
    rw [hasMember_iff hblocks, ← Json.Members.mem_toList_iff] at h
    have h : (key, value) ∈ [_, _] := h
    simpa using h
  have hten : Numeral "10" (10 : BlockId).toNat := numeral?_eq_some_iff.1 (by decide)
  have hnine : Numeral "9" (9 : BlockId).toNat := numeral?_eq_some_iff.1 (by decide)
  constructor
  · intro key value h
    rcases hmember key value h with h | h <;> cases h
    · exact ⟨10, hten⟩
    · exact ⟨9, hnine⟩
  · intro key key' value value' id h h' hkey hkey'
    rcases hmember key value h with h | h <;> rcases hmember key' value' h' with h' | h' <;>
      cases h <;> cases h'
    · rfl
    · exact absurd ((hkey.id_eq hten).symm.trans (hkey'.id_eq hnine)) (by decide)
    · exact absurd ((hkey.id_eq hnine).symm.trans (hkey'.id_eq hten)) (by decide)
    · rfl
  · intro key value h
    rcases hmember key value h with h | h <;> cases h <;> exact ⟨_, rfl⟩

theorem respelled_plainSpelling : RespelledDocument plainSpelling fancySpelling := by
  have hpin : Respelled (.natural 4294967297) (.string " 04294967297 ") :=
    .number (.number 4294967297) (.text (numeral?_eq_some_iff.1 (by decide)) (by decide))
  have harm : Respelled (.natural 4294967296) (.string "+4294967296") :=
    .number (.number 4294967296) (.text (numeral?_eq_some_iff.1 (by decide)) (by decide))
  have hwrite : RespelledMember ("10", writeValue (.natural 4294967297))
      ("010", writeValue (.string " 04294967297 ")) := by
    refine ⟨⟨10, numeral?_eq_some_iff.1 (by decide), numeral?_eq_some_iff.1 (by decide)⟩, ?_⟩
    refine .object (.cons ⟨rfl, ?_⟩ (.cons ⟨rfl, Respelled.same _⟩ (.cons ⟨rfl, rfl⟩ .nil)))
    exact Memberwise.object (.cons ⟨rfl, hpin⟩ .nil)
  have hconditional : RespelledMember ("9", conditionalValue (.natural 4294967296))
      (" +09", conditionalValue (.string "+4294967296")) := by
    refine ⟨⟨9, numeral?_eq_some_iff.1 (by decide), numeral?_eq_some_iff.1 (by decide)⟩, ?_⟩
    refine .object (.cons ⟨rfl, ?_⟩ (.cons ⟨rfl, Respelled.same _⟩ (.cons ⟨rfl, rfl⟩ .nil)))
    refine Memberwise.object (.cons ⟨rfl, ?_⟩ .nil)
    exact Memberwise.object (.cons ⟨rfl, Respelled.same _⟩ (.cons ⟨rfl, harm⟩ .nil))
  exact .object (.cons ⟨rfl, RespelledTable.object (.cons hwrite (.cons hconditional .nil))
    (.swap _ _ _)⟩ .nil)

/-- The fault of the block with the lower id is reported, whichever key comes first. -/
theorem ofDocument_fancySpelling :
    KeyedByIds plainSpelling ∧ RespelledDocument plainSpelling fancySpelling ∧
      Graph.ofDocument plainSpelling =
        .error (.badAttribute 9 "children.true" (.idOutOfRange 4294967296)) ∧
      Graph.ofDocument fancySpelling = Graph.ofDocument plainSpelling :=
  ⟨keyedByIds_plainSpelling, respelled_plainSpelling, rfl,
    Graph.ofDocument_eq_of_respelled keyedByIds_plainSpelling respelled_plainSpelling⟩

end BlockDiagram
