/-
JSON values.

The members of an object form a finite map. They are kept in strictly ascending order of name,
and the type says so: a row of members carries a name that all of its own names lie above. Two
objects with the same members are therefore equal, and their text is the same too. Names are
ordered by code point, which is also the order of their UTF-8 bytes.
-/
import BlockDiagram.Json.Number

set_option autoImplicit false

namespace BlockDiagram.Json

/-! ## The types -/

/-- Whether a name lies above a bound; without a bound every name does. -/
def Above : Option String → String → Prop
  | none, _ => True
  | some low, name => low < name

instance (bound : Option String) (name : String) : Decidable (Above bound name) := by
  cases bound <;> unfold Above <;> infer_instance

mutual

/-- A JSON value. -/
inductive Value where
  | null
  | bool (value : Bool)
  | number (value : Number)
  | string (value : String)
  | array (items : List Value)
  | object (members : Members none)

/-- Members of an object, ascending by name, each name above the bound. -/
inductive Members : Option String → Type where
  | nil {bound : Option String} : Members bound
  | cons {bound : Option String} (name : String) (above : Above bound name) (value : Value)
      (rest : Members (some name)) : Members bound

end

/-- The members of a whole object. -/
abbrev Object := Members none

instance {bound : Option String} : Inhabited (Members bound) := ⟨.nil⟩

instance : Inhabited Value := ⟨.null⟩

/-! ## Members -/

namespace Members

/-- The members as pairs of name and value, in ascending order of name. -/
def toList {bound : Option String} : Members bound → List (String × Value)
  | .nil => []
  | .cons name _ value rest => (name, value) :: rest.toList

/-- Whether there are no members. -/
def isEmpty {bound : Option String} : Members bound → Bool
  | .nil => true
  | .cons .. => false

/-- The value of a member. -/
def get? {bound : Option String} (members : Members bound) (name : String) : Option Value :=
  members.toList.lookup name

/-- The members with one more, which takes the place of a member of the same name. -/
def insertAbove {bound : Option String} :
    Members bound → (name : String) → Above bound name → Value → Members bound
  | .nil, name, h, value => .cons name h value .nil
  | .cons first hf held rest, name, h, value =>
    if below : name < first then .cons name h value (.cons first below held rest)
    else if beyond : first < name then .cons first hf held (rest.insertAbove name beyond value)
    else
      have same : name = first :=
        String.le_antisymm beyond below
      .cons name h value (same ▸ rest)

/-- The object with one more member, which takes the place of a member of the same name. -/
def insert (members : Object) (name : String) (value : Value) : Object :=
  members.insertAbove name trivial value

/-- The object of a list of members; of two with the same name the later one counts. -/
def ofList (entries : List (String × Value)) : Object :=
  entries.foldl (fun members entry => members.insert entry.1 entry.2) .nil

/-! ## Laws -/

/-- A name above a name above the bound is above the bound. -/
theorem above_of_lt {bound : Option String} {low high : String} (h : Above bound low)
    (lt : low < high) : Above bound high := by
  cases bound with
  | none => trivial
  | some b => exact String.lt_trans h lt

/-- All names lie above the bound. -/
theorem above_of_mem {bound : Option String} {members : Members bound} {entry : String × Value}
    (h : entry ∈ members.toList) : Above bound entry.1 := by
  match members with
  | .nil => exact absurd h List.not_mem_nil
  | .cons name above value rest =>
    rcases List.mem_cons.1 h with rfl | h
    · exact above
    · exact above_of_lt above (above_of_mem h)

/-- The members are listed in strictly ascending order of name. -/
theorem toList_ascending {bound : Option String} (members : Members bound) :
    members.toList.Pairwise fun a b => a.1 < b.1 := by
  match members with
  | .nil => exact List.Pairwise.nil
  | .cons _ _ _ rest =>
    exact List.pairwise_cons.2 ⟨fun _ h => above_of_mem h, rest.toList_ascending⟩

/-- Two objects that list the same members are equal. -/
theorem toList_injective {bound : Option String} {xs ys : Members bound}
    (h : xs.toList = ys.toList) : xs = ys := by
  match xs, ys with
  | .nil, .nil => rfl
  | .nil, .cons .. => exact absurd h (by simp [toList])
  | .cons .., .nil => exact absurd h (by simp [toList])
  | .cons a _ _ restX, .cons b _ _ restY =>
    simp only [toList, List.cons.injEq, Prod.mk.injEq] at h
    obtain ⟨⟨rfl, rfl⟩, tails⟩ := h
    rw [toList_injective tails]

/-- The member inserted last is the one found. -/
theorem get?_insertAbove_self {bound : Option String} (members : Members bound) (name : String)
    (h : Above bound name) (value : Value) :
    (members.insertAbove name h value).get? name = some value := by
  match members with
  | .nil => simp [insertAbove, get?, toList]
  | .cons first hf held rest =>
    rw [insertAbove]
    split
    · simp [get?, toList]
    · split
      · rename_i beyond
        have apart : name ≠ first := fun same => String.lt_irrefl _ (same ▸ beyond)
        have later := get?_insertAbove_self rest name beyond value
        rw [get?] at later
        simp [get?, toList, List.lookup_cons, beq_eq_false_iff_ne.2 apart, later]
      · simp [get?, toList]

/-- Inserting a member does not change what is found under another name. -/
theorem get?_insertAbove_of_ne {bound : Option String} (members : Members bound)
    {name other : String} (h : Above bound name) (value : Value) (apart : other ≠ name) :
    (members.insertAbove name h value).get? other = members.get? other := by
  match members with
  | .nil => simp [insertAbove, get?, toList, List.lookup_cons, beq_eq_false_iff_ne.2 apart]
  | .cons first hf held rest =>
    rw [insertAbove]
    split
    · simp [get?, toList, List.lookup_cons, beq_eq_false_iff_ne.2 apart]
    · rename_i notBelow
      split
      · rename_i beyond
        have later := get?_insertAbove_of_ne rest beyond value apart
        rw [get?, get?] at later
        simp only [get?, toList, List.lookup_cons]
        split
        · rfl
        · exact later
      · rename_i notBeyond
        have same : name = first :=
          String.le_antisymm notBeyond notBelow
        subst same
        simp [get?, toList, List.lookup_cons, beq_eq_false_iff_ne.2 apart]

end Members

/-! ## Building values -/

/-- A natural number. -/
def Value.natural (n : UInt64) : Value :=
  .number (.natural n)

/-- An object from its members. -/
def Value.ofMembers (entries : List (String × Value)) : Value :=
  .object (Members.ofList entries)

end BlockDiagram.Json
