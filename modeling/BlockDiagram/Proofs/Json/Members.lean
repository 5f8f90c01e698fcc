/-
Objects as finite maps.

An object is listed in ascending order of name, and what a name stands for is looked up in that
list. The two views of it are joined here: what is listed is what is found, so an object is
determined by what is found in it, whatever order its members came in. A loop over an object sees a
beginning of the list. What is found in the beginning is what is found in the object under the names
gone over so far, and nothing under those still to come.
-/
import BlockDiagram.Json.Value
import Mathlib.Data.List.Basic
import Mathlib.Data.List.Dedup
import Mathlib.Data.List.Perm.Lattice
import Mathlib.Data.String.Basic
import Mathlib.Logic.Function.Basic

set_option autoImplicit false

namespace BlockDiagram.Json

variable {bound : Option String} {name : String} {value : Value}

/-! ## Listed and found -/

/-- In a list that has no name twice, an entry is found under its name. -/
theorem lookup_eq_some_iff_of_nodup {entries : List (String × Value)}
    (h : (entries.map Prod.fst).Nodup) :
    entries.lookup name = some value ↔ (name, value) ∈ entries := by
  induction entries with
  | nil => simp
  | cons first rest ih =>
    obtain ⟨lead, held⟩ := first
    obtain ⟨hlead, hrest⟩ := List.nodup_cons.1 h
    rw [List.lookup_cons, List.mem_cons, Prod.mk.injEq]
    by_cases hname : name = lead
    · subst hname
      have hnot : (name, value) ∉ rest := fun hmem =>
        hlead (List.mem_map.2 ⟨_, hmem, rfl⟩)
      simp [hnot, eq_comm]
    · have hfalse : (name == lead) = false := beq_eq_false_iff_ne.2 hname
      simp [hname, hfalse, ih hrest]

theorem nodup_of_ascending {entries : List (String × Value)}
    (h : entries.Pairwise fun a b => a.1 < b.1) : (entries.map Prod.fst).Nodup := by
  apply List.pairwise_map.2
  apply h.imp
  intro a b hlt heq
  rw [heq] at hlt
  exact String.lt_irrefl _ hlt

/-- In a list in ascending order of name, an entry is found under its name. -/
theorem lookup_eq_some_iff {entries : List (String × Value)}
    (h : entries.Pairwise fun a b => a.1 < b.1) :
    entries.lookup name = some value ↔ (name, value) ∈ entries :=
  lookup_eq_some_iff_of_nodup (nodup_of_ascending h)

namespace Members

theorem mem_toList_iff {members : Members bound} :
    (name, value) ∈ members.toList ↔ members.get? name = some value :=
  (lookup_eq_some_iff members.toList_ascending).symm

@[simp] theorem get?_nil : (nil : Members bound).get? name = none := rfl

/-- An object is determined by what is found in it. -/
theorem eq_of_get? {xs ys : Members bound} (h : ∀ name, xs.get? name = ys.get? name) :
    xs = ys := by
  have hnodup (members : Members bound) : members.toList.Nodup :=
    members.toList_ascending.imp <| by
      rintro a _ hlt rfl
      exact String.lt_irrefl a.1 hlt
  have hperm : xs.toList.Perm ys.toList := by
    rw [List.perm_ext_iff_of_nodup (hnodup xs) (hnodup ys)]
    rintro ⟨name, value⟩
    rw [mem_toList_iff, mem_toList_iff, h name]
  apply toList_injective
  apply hperm.eq_of_pairwise _ xs.toList_ascending ys.toList_ascending
  intro a b _ _ hab hba
  exact absurd hba (String.lt_asymm hab)

/-! ## Building an object -/

theorem get?_insert (members : Object) (name other : String) (value : Value) :
    (members.insert name value).get? other =
      if other = name then some value else members.get? other := by
  by_cases hname : other = name
  · rw [if_pos hname, hname]
    exact get?_insertAbove_self members name trivial value
  · rw [if_neg hname]
    exact get?_insertAbove_of_ne members trivial value hname

/-- What is inserted last is found first. -/
theorem get?_foldl_insert (members : Object) (entries : List (String × Value)) (name : String) :
    (entries.foldl (fun members entry => members.insert entry.1 entry.2) members).get? name =
      (entries.reverse.lookup name).or (members.get? name) := by
  induction entries generalizing members with
  | nil => simp
  | cons entry rest ih =>
    obtain ⟨first, held⟩ := entry
    rw [List.foldl_cons, ih, get?_insert, List.reverse_cons, List.lookup_append, Option.or_assoc,
      List.lookup_cons]
    by_cases hname : name = first
    · simp [hname]
    · simp [hname, beq_eq_false_iff_ne.2 hname]

/-- In the object of a list the last entry of a name is found. -/
theorem get?_ofList_eq_lookup_reverse (entries : List (String × Value)) (name : String) :
    (ofList entries).get? name = entries.reverse.lookup name := by
  rw [ofList, get?_foldl_insert, get?_nil, Option.or_none]

/-- In the object of a list that has no name twice, its entries are found and nothing else. -/
theorem get?_ofList {entries : List (String × Value)} (h : (entries.map Prod.fst).Nodup)
    (name : String) : (ofList entries).get? name = entries.lookup name := by
  have hreverse : (entries.reverse.map Prod.fst).Nodup := by
    rwa [List.map_reverse, List.nodup_reverse]
  rw [get?_ofList_eq_lookup_reverse]
  ext value
  rw [lookup_eq_some_iff_of_nodup hreverse, lookup_eq_some_iff_of_nodup h, List.mem_reverse]

/-- The object of a list has the different names of the list. -/
theorem map_fst_ofList_perm (entries : List (String × Value)) :
    ((ofList entries).toList.map Prod.fst).Perm (entries.map Prod.fst).dedup := by
  rw [List.perm_ext_iff_of_nodup (nodup_of_ascending (toList_ascending _)) (List.nodup_dedup _)]
  intro name
  have hfound : name ∈ (ofList entries).toList.map Prod.fst ↔
      ((ofList entries).get? name).isSome = true := by
    simp only [List.mem_map, Prod.exists, exists_and_right, exists_eq_right, mem_toList_iff,
      Option.isSome_iff_exists]
  rw [hfound, get?_ofList_eq_lookup_reverse, List.mem_dedup, List.lookup_isSome_iff, List.mem_map]
  simp only [List.mem_reverse, beq_iff_eq]
  exact exists_congr fun entry => and_congr_right fun _ => eq_comm

/-! ## The beginning of an object -/

variable {members : Members bound} {done later : List (String × Value)}

/-- The beginning of an object consists of the members below the next one. -/
theorem mem_done_iff (h : members.toList = done ++ (name, value) :: later) {other : String}
    {held : Value} : (other, held) ∈ done ↔ members.get? other = some held ∧ other < name := by
  have hordered := members.toList_ascending
  rw [h, List.pairwise_append, List.pairwise_cons] at hordered
  obtain ⟨-, ⟨hlater, -⟩, hdone⟩ := hordered
  rw [← mem_toList_iff, h, List.mem_append, List.mem_cons]
  constructor
  · intro hmem
    exact ⟨.inl hmem, hdone (other, held) hmem (name, value) List.mem_cons_self⟩
  · rintro ⟨hmem | hmem | hmem, hlt⟩
    · exact hmem
    · cases hmem
      exact absurd hlt (String.lt_irrefl _)
    · exact absurd hlt (String.lt_asymm (hlater (other, held) hmem))

/-- Nothing is found in the beginning of an object under a name that is not below the next one. -/
theorem lookup_eq_none_of_le (h : members.toList = done ++ (name, value) :: later)
    {other : String} (hle : ¬ other < name) : done.lookup other = none := by
  rw [List.lookup_eq_none_iff]
  intro entry hentry
  have hlt : entry.1 < name := ((mem_done_iff h).1 hentry).2
  rw [bne_iff_ne]
  rintro rfl
  exact hle hlt

/-- The next member is found in the beginning that it ends, and otherwise what was found before. -/
theorem lookup_append_singleton (h : members.toList = done ++ (name, value) :: later) :
    (fun other => (done ++ [(name, value)]).lookup other) =
      Function.update (fun other => done.lookup other) name (some value) := by
  funext other
  by_cases hname : other = name
  · subst hname
    rw [Function.update_self, List.lookup_append,
      lookup_eq_none_of_le h (String.lt_irrefl other)]
    simp
  · have hfalse : (other == name) = false := beq_eq_false_iff_ne.2 hname
    rw [Function.update_of_ne hname, List.lookup_append]
    simp [List.lookup_cons, hfalse]

end Members

end BlockDiagram.Json
