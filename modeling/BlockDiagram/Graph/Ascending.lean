/-
Tables in ascending order of id.

A table is a list whose entries carry an id and ascend strictly by it, so each id occurs at most
once. Inserting an entry keeps the order and replaces the entry with the same id. How an entry
carries its id is a parameter: blocks and their descriptions are both kept this way.
-/
import BlockDiagram.Graph.Block

set_option autoImplicit false

namespace BlockDiagram

variable {α : Type}

/-- Whether the entries ascend strictly by id. -/
def Ascending (id : α → BlockId) (entries : List α) : Prop :=
  entries.Pairwise fun a b => id a < id b

/-- The table with one more entry, which takes the place of an entry with the same id. -/
def insertById (id : α → BlockId) (entry : α) : List α → List α
  | [] => [entry]
  | first :: rest =>
    if id entry < id first then entry :: first :: rest
    else if id first < id entry then first :: insertById id entry rest
    else entry :: rest

/-- The entry with an id. -/
def findById (id : α → BlockId) (wanted : BlockId) (entries : List α) : Option α :=
  entries.find? fun entry => id entry == wanted

/-! ## Order -/

/-- What inserting puts into a table: the new entry and old ones, nothing else. -/
theorem mem_of_mem_insertById {id : α → BlockId} {entry a : α} {entries : List α}
    (h : a ∈ insertById id entry entries) : a = entry ∨ a ∈ entries := by
  induction entries with
  | nil => simpa [insertById] using h
  | cons first rest ih =>
    rw [insertById] at h
    split at h
    · simpa using h
    · split at h
      · rcases List.mem_cons.1 h with rfl | h
        · exact .inr List.mem_cons_self
        · exact (ih h).imp_right (List.mem_cons_of_mem _)
      · rcases List.mem_cons.1 h with rfl | h
        · exact .inl rfl
        · exact .inr (List.mem_cons_of_mem _ h)

/-- Inserting keeps the order. -/
theorem ascending_insertById {id : α → BlockId} (entry : α) {entries : List α}
    (h : Ascending id entries) : Ascending id (insertById id entry entries) := by
  induction entries with
  | nil => simp [insertById, Ascending]
  | cons first rest ih =>
    obtain ⟨above, ordered⟩ := List.pairwise_cons.1 h
    rw [insertById]
    split
    · rename_i below
      refine List.pairwise_cons.2 ⟨fun a ha => ?_, h⟩
      rcases List.mem_cons.1 ha with rfl | ha
      · exact below
      · exact UInt32.lt_trans below (above a ha)
    · rename_i notBelow
      split
      · rename_i beyond
        refine List.pairwise_cons.2 ⟨fun a ha => ?_, ih ordered⟩
        rcases mem_of_mem_insertById ha with rfl | ha
        · exact beyond
        · exact above a ha
      · rename_i notBeyond
        have same : id entry = id first :=
          UInt32.le_antisymm (UInt32.not_lt.1 notBeyond) (UInt32.not_lt.1 notBelow)
        exact List.pairwise_cons.2 ⟨fun a ha => same ▸ above a ha, ordered⟩

/-! ## Looking up -/

/-- What is found is an entry of the table, and has the id asked for. -/
theorem mem_of_findById {id : α → BlockId} {wanted : BlockId} {entries : List α} {a : α}
    (h : findById id wanted entries = some a) : a ∈ entries ∧ id a = wanted :=
  ⟨List.mem_of_find?_eq_some h, by simpa using List.find?_some h⟩

/-- In a table an entry is found by its id, since no entry before it has the same. -/
theorem findById_of_mem {id : α → BlockId} {entries : List α} {a : α}
    (h : Ascending id entries) (ha : a ∈ entries) : findById id (id a) entries = some a := by
  induction entries with
  | nil => simp at ha
  | cons first rest ih =>
    obtain ⟨above, ordered⟩ := List.pairwise_cons.1 h
    rw [findById, List.find?_cons]
    rcases List.mem_cons.1 ha with rfl | ha
    · simp
    · have apart : id first ≠ id a := fun same =>
        UInt32.lt_irrefl _ (same ▸ above a ha)
      simp only [beq_eq_false_iff_ne.2 apart]
      exact ih ordered ha

/-- The entry inserted last is the one found. -/
theorem findById_insertById_self (id : α → BlockId) (entry : α) (entries : List α) :
    findById id (id entry) (insertById id entry entries) = some entry := by
  induction entries with
  | nil => simp [insertById, findById]
  | cons first rest ih =>
    rw [insertById]
    split
    · simp [findById]
    · split
      · rename_i beyond
        have apart : id first ≠ id entry := fun same => UInt32.lt_irrefl _ (same ▸ beyond)
        rw [findById, List.find?_cons]
        simp only [beq_eq_false_iff_ne.2 apart]
        exact ih
      · simp [findById]

/-- Inserting an entry does not change what is found under another id. -/
theorem findById_insertById_of_ne (id : α → BlockId) {entry : α} {wanted : BlockId}
    (apart : id entry ≠ wanted) (entries : List α) :
    findById id wanted (insertById id entry entries) = findById id wanted entries := by
  induction entries with
  | nil => simp [insertById, findById, apart]
  | cons first rest ih =>
    rw [insertById]
    split
    · simp [findById, apart]
    · rename_i notBelow
      split
      · rw [findById, findById, List.find?_cons, List.find?_cons]
        split
        · rfl
        · exact ih
      · rename_i notBeyond
        have same : id entry = id first :=
          UInt32.le_antisymm (UInt32.not_lt.1 notBeyond) (UInt32.not_lt.1 notBelow)
        simp [findById, apart, same ▸ apart]

/-- Two tables in which the same entries are found are equal. -/
theorem eq_of_findById {id : α → BlockId} {xs ys : List α}
    (hx : Ascending id xs) (hy : Ascending id ys)
    (h : ∀ wanted, findById id wanted xs = findById id wanted ys) : xs = ys := by
  have mem (a : α) : a ∈ xs ↔ a ∈ ys :=
    ⟨fun ha => (mem_of_findById (h (id a) ▸ findById_of_mem hx ha)).1,
      fun ha => (mem_of_findById ((h (id a)).symm ▸ findById_of_mem hy ha)).1⟩
  induction xs generalizing ys with
  | nil =>
    cases ys with
    | nil => rfl
    | cons y ys => exact absurd ((mem y).2 List.mem_cons_self) List.not_mem_nil
  | cons x xs ih =>
    cases ys with
    | nil => exact absurd ((mem x).1 List.mem_cons_self) List.not_mem_nil
    | cons y ys =>
      obtain ⟨aboveX, orderedX⟩ := List.pairwise_cons.1 hx
      obtain ⟨aboveY, orderedY⟩ := List.pairwise_cons.1 hy
      have heads : x = y := by
        rcases List.mem_cons.1 ((mem x).1 List.mem_cons_self) with rfl | inY
        · rfl
        rcases List.mem_cons.1 ((mem y).2 List.mem_cons_self) with rfl | inX
        · rfl
        exact absurd (aboveX y inX) (UInt32.lt_asymm (aboveY x inY))
      subst heads
      have tails (a : α) : a ∈ xs ↔ a ∈ ys := by
        constructor
        · intro ha
          rcases List.mem_cons.1 ((mem a).1 (List.mem_cons_of_mem _ ha)) with rfl | inY
          · exact absurd (aboveX a ha) (UInt32.lt_irrefl _)
          · exact inY
        · intro ha
          rcases List.mem_cons.1 ((mem a).2 (List.mem_cons_of_mem _ ha)) with rfl | inX
          · exact absurd (aboveY a ha) (UInt32.lt_irrefl _)
          · exact inX
      have found (wanted : BlockId) : findById id wanted xs = findById id wanted ys := by
        cases inX : findById id wanted xs with
        | some a =>
          obtain ⟨ha, rfl⟩ := mem_of_findById inX
          exact (findById_of_mem orderedY ((tails a).1 ha)).symm
        | none =>
          cases inY : findById id wanted ys with
          | none => rfl
          | some a =>
            obtain ⟨ha, rfl⟩ := mem_of_findById inY
            rw [findById_of_mem orderedX ((tails a).2 ha)] at inX
            exact absurd inX (by simp)
      rw [ih orderedX orderedY found tails]

end BlockDiagram
