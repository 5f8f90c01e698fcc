/-
The table of descriptions, and the graph made from it.

The members of the block object are gone over in the order of their keys, and the table that comes
of it is in the order of ids. What the table holds is said without either order: a description for
every member, with the id that its key denotes. No two keys denote one id, or there would be no
table. Making the blocks of a graph from the table keeps its order, so a graph has a block for each
description, and under the same id.
-/
import BlockDiagram.Proofs.Document.Description
import BlockDiagram.Proofs.Graph.Building

set_option autoImplicit false

namespace BlockDiagram

open Json (Value)

/-! ## Adding descriptions -/

/-- Whether a member of the block object gives a description. -/
def Gives (entry : String × Value) (d : Description) : Prop :=
  ∃ members, entry.2 = .object members ∧ Numeral entry.1 d.id.toNat ∧
    d = Description.ofObject d.id members

/-- What holds of the table after some members were gone over: it has the descriptions that these
give, each of them gives one, and no two of their keys denote one id. -/
structure Tabled (done : List (String × Value)) (table : List Description) : Prop where
  ascending : Ascending Description.id table
  mem_iff : ∀ d, d ∈ table ↔ ∃ entry ∈ done, Gives entry d
  gives : ∀ entry ∈ done, ∃ d, Gives entry d
  unique : ∀ a ∈ done, ∀ b ∈ done, ∀ id : BlockId,
    Numeral a.1 id.toNat → Numeral b.1 id.toNat → a = b

/-- The id that a key denotes. -/
def keyId (key : String) : Except LoadError BlockId :=
  match blockId? key with
  | some id => .ok id
  | none => .error (.badKey key)

/-- The object that describes a block. -/
def descriptionObject (id : BlockId) : Value → Except LoadError Json.Object
  | .object members => .ok members
  | _ => .error (.noDescription id)

/-- The table with one more description, if the id is new. -/
def withDescription (table : List Description) (d : Description) :
    Except LoadError (List Description) :=
  if (findById Description.id d.id table).isSome then .error (.duplicateId d.id)
  else .ok (insertById Description.id d table)

/-- A member is added in three steps, each of which has a defect of its own. -/
theorem addDescription_eq (table : List Description) (key : String) (value : Value) :
    addDescription table (key, value) =
      keyId key >>= fun id => descriptionObject id value >>= fun members =>
        withDescription table (.ofObject id members) := by
  unfold addDescription keyId
  cases blockId? key with
  | none => rfl
  | some id => cases value <;> rfl

theorem keyId_eq_ok_iff {key : String} {id : BlockId} :
    keyId key = .ok id ↔ Numeral key id.toNat := by
  rw [← blockId?_eq_some_iff, keyId]
  cases blockId? key <;> simp

theorem keyId_eq_error_iff {key : String} {e : LoadError} :
    keyId key = .error e ↔ (∀ n < UInt32.size, ¬ Numeral key n) ∧ e = .badKey key := by
  rw [← blockId?_eq_none_iff, keyId]
  cases blockId? key <;> simp [eq_comm]

theorem descriptionObject_eq_ok_iff {id : BlockId} {value : Value} {members : Json.Object} :
    descriptionObject id value = .ok members ↔ value = .object members := by
  cases value <;> simp [descriptionObject]

theorem descriptionObject_eq_error_iff {id : BlockId} {value : Value} {e : LoadError} :
    descriptionObject id value = .error e ↔
      (∀ members, value ≠ .object members) ∧ e = .noDescription id := by
  cases value <;> simp [descriptionObject, eq_comm]

theorem withDescription_eq_ok_iff {table table' : List Description} {d : Description} :
    withDescription table d = .ok table' ↔
      findById Description.id d.id table = none ∧ insertById Description.id d table = table' := by
  unfold withDescription
  cases findById Description.id d.id table <;> simp

theorem withDescription_eq_error_iff {table : List Description} {d : Description} {e : LoadError} :
    withDescription table d = .error e ↔
      (∃ other ∈ table, other.id = d.id) ∧ e = .duplicateId d.id := by
  have hsome : (∃ other ∈ table, other.id = d.id) ↔ findById Description.id d.id table ≠ none := by
    rw [ne_eq, findById_eq_none_iff]
    simp
  rw [hsome, withDescription]
  cases findById Description.id d.id table <;> simp [eq_comm]

/-! ## What the table holds -/

variable {done : List (String × Value)} {table table' : List Description}
  {entry : String × Value} {id : BlockId}

theorem Numeral.id_eq {key : String} {id id' : BlockId} (h : Numeral key id.toNat)
    (h' : Numeral key id'.toNat) : id = id' :=
  UInt32.toNat_inj.1 (h.unique h')

/-- What a member gives is settled by the id of its key and by its object. -/
theorem gives_iff {members : Json.Object} {d : Description} (hkey : Numeral entry.1 id.toNat)
    (hvalue : entry.2 = .object members) : Gives entry d ↔ d = .ofObject id members := by
  constructor
  · rintro ⟨members', hvalue', hkey', hd⟩
    cases hvalue.symm.trans hvalue'
    rw [hd, hkey.id_eq hkey']
  · rintro rfl
    exact ⟨members, hvalue, hkey, rfl⟩

theorem tabled_nil : Tabled [] [] where
  ascending := List.Pairwise.nil
  mem_iff d := by simp
  gives entry h := absurd h List.not_mem_nil
  unique a h := absurd h List.not_mem_nil

namespace Tabled

/-- The ids of the table are those that the keys denote. -/
theorem exists_id_iff (h : Tabled done table) :
    (∃ d ∈ table, d.id = id) ↔ ∃ entry ∈ done, Numeral entry.1 id.toNat := by
  constructor
  · rintro ⟨d, hd, rfl⟩
    obtain ⟨entry, hentry, _, _, hkey, -⟩ := (h.mem_iff d).1 hd
    exact ⟨entry, hentry, hkey⟩
  · rintro ⟨entry, hentry, hkey⟩
    obtain ⟨d, hgives⟩ := h.gives entry hentry
    have hd := (h.mem_iff d).2 ⟨entry, hentry, hgives⟩
    obtain ⟨_, _, hkey', -⟩ := hgives
    exact ⟨d, hd, hkey'.id_eq hkey⟩

theorem step (h : Tabled done table) (hstep : addDescription table entry = .ok table') :
    Tabled (done ++ [entry]) table' := by
  rw [addDescription_eq] at hstep
  obtain ⟨id, hid, hstep⟩ := bind_eq_ok_iff.1 hstep
  obtain ⟨members, hmembers, hstep⟩ := bind_eq_ok_iff.1 hstep
  rw [keyId_eq_ok_iff] at hid
  rw [descriptionObject_eq_ok_iff] at hmembers
  obtain ⟨hnew, rfl⟩ := withDescription_eq_ok_iff.1 hstep
  -- the id is new to the keys as well
  have hfresh (a : String × Value) (ha : a ∈ done) : ¬ Numeral a.1 id.toNat := by
    intro hkey
    obtain ⟨d, hd, hsame⟩ := h.exists_id_iff.2 ⟨a, ha, hkey⟩
    exact findById_eq_none_iff.1 hnew d hd hsame
  have hgives (d : Description) := gives_iff (d := d) hid hmembers
  constructor
  · exact ascending_insertById _ h.ascending
  · intro d
    rw [mem_insertById h.ascending hnew, h.mem_iff d, ← hgives d]
    constructor
    · rintro (hd | ⟨a, ha, hd⟩)
      · exact ⟨entry, by simp, hd⟩
      · exact ⟨a, by simp [ha], hd⟩
    · rintro ⟨a, ha, hd⟩
      rcases List.mem_append.1 ha with ha | ha
      · exact .inr ⟨a, ha, hd⟩
      · cases List.mem_singleton.1 ha
        exact .inl hd
  · intro a ha
    rcases List.mem_append.1 ha with ha | ha
    · exact h.gives a ha
    · cases List.mem_singleton.1 ha
      exact ⟨_, (hgives _).2 rfl⟩
  · intro a ha b hb other hother hother'
    rcases List.mem_append.1 ha with ha | ha <;> rcases List.mem_append.1 hb with hb | hb
    · exact h.unique a ha b hb other hother hother'
    · cases List.mem_singleton.1 hb
      exact absurd (hid.id_eq hother' ▸ hother) (hfresh a ha)
    · cases List.mem_singleton.1 ha
      exact absurd (hid.id_eq hother ▸ hother') (hfresh b hb)
    · cases List.mem_singleton.1 ha
      cases List.mem_singleton.1 hb
      rfl

end Tabled

/-- Going over all members makes a table of the descriptions that they give. -/
theorem tabled_foldlM {entries : List (String × Value)}
    (h : entries.foldlM addDescription [] = .ok table) : Tabled entries table :=
  foldlM_invariant Tabled [] entries
    (fun _ _ _ _ _ _ htabled hstep => htabled.step hstep) tabled_nil h

/-! ## Making blocks -/

theorem mem_of_forall₂ {α β : Type} {R : α → β → Prop} {xs : List α} {ys : List β}
    (h : List.Forall₂ R xs ys) :
    (∀ x ∈ xs, ∃ y ∈ ys, R x y) ∧ ∀ y ∈ ys, ∃ x ∈ xs, R x y := by
  induction h with
  | nil => simp
  | cons hxy _ ih => simp_all

/-- Blocks made of the descriptions of a table are in the order of the table. -/
theorem ascending_of_mapM {blocks : List Block} (h : Ascending Description.id table)
    (hblocks : table.mapM Description.block = .ok blocks) : Ascending Block.id blocks := by
  have hids : table.map Description.id = blocks.map Block.id := by
    rw [← List.forall₂_eq_eq_eq, List.forall₂_map_left_iff, List.forall₂_map_right_iff]
    exact (mapM_eq_ok_iff.1 hblocks).imp fun d block hblock => (id_of_block hblock).symm
  have hpairwise : (table.map Description.id).Pairwise (· < ·) := List.pairwise_map.2 h
  rw [hids] at hpairwise
  exact List.pairwise_map.1 hpairwise

/-- The graph made of a table has the blocks that are made of its descriptions. -/
theorem mem_blocks_ofList {blocks : List Block} (h : Ascending Description.id table)
    (hblocks : table.mapM Description.block = .ok blocks) :
    (∀ d ∈ table, ∃ block ∈ (Graph.ofList blocks).blocks, d.block = .ok block) ∧
      ∀ block ∈ (Graph.ofList blocks).blocks, ∃ d ∈ table, d.block = .ok block := by
  have hperm := Graph.blocks_ofList_perm (ascending_of_mapM h hblocks).nodup_ids
  simp only [hperm.mem_iff]
  exact mem_of_forall₂ (mapM_eq_ok_iff.1 hblocks)

end BlockDiagram
