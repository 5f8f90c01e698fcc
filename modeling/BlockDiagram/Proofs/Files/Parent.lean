/-
Where a path's parent leads.

A parent is cut off from the text of its path, without the last component and the idle parts around
it, and the directories that a file is to lie in are made by going from parent to parent. That this
makes no other directories than those on the way of the path is said in terms of components: the
components of a parent are the first ones of its path, and both ways begin at the same place. The
text itself does not say so at once, since empty parts and dots may stand between components, and
the front of a path is never cut off.
-/
import BlockDiagram.Files.Path
import Mathlib.Data.List.Basic

set_option autoImplicit false

namespace BlockDiagram

namespace Path

/-! ## Cutting and joining -/

/-- No part of a text that was cut at its slashes has a slash. -/
theorem slash_notMem_of_mem_splitOn {cs part : List Char} (h : part ∈ cs.splitOn '/') :
    '/' ∉ part := by
  induction cs generalizing part with
  | nil =>
    rw [List.splitOn_nil, List.mem_singleton] at h
    rw [h]
    exact List.not_mem_nil
  | cons c cs ih =>
    obtain ⟨first, rest, hcut⟩ := List.exists_cons_of_ne_nil (List.splitOn_ne_nil '/' cs)
    rw [List.splitOn_cons_eq_if_modifyHead] at h
    split at h
    · rcases List.mem_cons.1 h with rfl | h
      · exact List.not_mem_nil
      · exact ih h
    · rename_i hslash
      rw [hcut, List.modifyHead_cons] at h
      rcases List.mem_cons.1 h with rfl | h
      · rw [List.mem_cons, not_or]
        exact ⟨fun hsame => hslash (beq_iff_eq.2 hsame.symm), ih (hcut ▸ List.mem_cons_self)⟩
      · exact ih (hcut ▸ List.mem_cons_of_mem _ h)

/-- The parts of a text that are names. -/
def named (parts : List (List Char)) : List (List Char) :=
  parts.filter fun part => !part.isEmpty

theorem components_eq (path : String) :
    components path = (named (path.toList.splitOn '/')).map String.ofList := rfl

/-- Joining parts and cutting them again keeps the names. -/
theorem named_splitOn_intercalate {parts : List (List Char)} (h : ∀ part ∈ parts, '/' ∉ part) :
    named ((['/'].intercalate parts).splitOn '/') = named parts := by
  by_cases hnil : parts = []
  · rw [hnil]
    rfl
  · rw [List.splitOn_intercalate '/' h hnil]

theorem intercalate_mono {parts parts' : List (List Char)} (h : parts <+: parts') :
    ['/'].intercalate parts <+: ['/'].intercalate parts' := by
  obtain ⟨rest, rfl⟩ := h
  induction parts with
  | nil => exact List.nil_prefix
  | cons part parts ih =>
    cases parts with
    | nil =>
      cases rest with
      | nil => exact List.prefix_rfl
      | cons next rest =>
        rw [List.singleton_append, List.intercalate_cons_cons, List.intercalate_singleton,
          List.append_assoc]
        exact List.prefix_append part _
    | cons next parts =>
      rw [List.cons_append, List.cons_append, List.intercalate_cons_cons,
        List.intercalate_cons_cons]
      exact (List.prefix_append_right_inj _).2 ih

/-! ## Parents -/

/-- Whether a text is a front that parts can stand behind: a slash, or a dot with nothing or a slash
behind it, or nothing where there is no slash at the front. -/
def IsFront (front : List Char) (parts : List (List Char)) : Prop :=
  front = ['/'] ∨ front = ['.'] ∧ (∀ part ∈ parts.head?, part = []) ∨
    front = [] ∧ (['/'].intercalate parts).head? ≠ some '/'

theorem IsFront.mono {front : List Char} {parts parts' : List (List Char)}
    (h : IsFront front parts') (hle : parts <+: parts') : IsFront front parts := by
  rcases h with hslash | ⟨hdot, hhead⟩ | ⟨hnothing, hhead⟩
  · exact .inl hslash
  · refine .inr (.inl ⟨hdot, fun part hpart => hhead part ?_⟩)
    obtain ⟨rest, rfl⟩ := hle
    rw [List.head?_append, Option.mem_def.1 hpart]
    rfl
  · refine .inr (.inr ⟨hnothing, fun hslash => hhead ?_⟩)
    obtain ⟨rest, hrest⟩ := intercalate_mono hle
    rw [← hrest, List.head?_append, hslash]
    rfl

/-- Only the front decides where a path starts. -/
theorem IsFront.isAbsolute_iff {front : List Char} {parts : List (List Char)} {path : String}
    (h : IsFront front parts) (hpath : path.toList = front ++ ['/'].intercalate parts) :
    isAbsolute path = true ↔ front = ['/'] := by
  rw [isAbsolute, hpath, beq_iff_eq]
  rcases h with rfl | ⟨rfl, -⟩ | ⟨rfl, hhead⟩
  · simp
  · simp
  · simpa using hhead

/-- The names of a front come before those of the parts behind it. -/
theorem named_splitOn_front {front : List Char} {parts : List (List Char)}
    (hfront : IsFront front parts) (h : ∀ part ∈ parts, '/' ∉ part) :
    named ((front ++ ['/'].intercalate parts).splitOn '/') =
      named (front.splitOn '/') ++ named parts := by
  have hparts := named_splitOn_intercalate h
  rcases hfront with rfl | ⟨rfl, hhead⟩ | ⟨rfl, -⟩
  · exact hparts
  · -- behind the dot is nothing, or a slash that ends its part
    match parts with
    | [] => rfl
    | [part] =>
      rw [hhead part rfl]
      rfl
    | part :: next :: rest =>
      obtain rfl := hhead part rfl
      have hjoin : ['/'].intercalate ([] :: next :: rest) =
          '/' :: ['/'].intercalate (next :: rest) := by
        rw [List.intercalate_cons_cons]
        rfl
      rw [hjoin] at hparts ⊢
      exact congrArg (['.'] :: ·) hparts
  · exact hparts

theorem splitFront_spec (path : List Char) :
    (splitFront path).1 ++ ['/'].intercalate ((splitFront path).2.splitOn '/') = path ∧
      IsFront (splitFront path).1 ((splitFront path).2.splitOn '/') := by
  rw [List.intercalate_splitOn, IsFront, List.intercalate_splitOn]
  unfold splitFront
  split
  · simp
  · simp [List.splitOn_nil]
  · simp [List.splitOn_cons_eq_if_modifyHead]
  · rename_i hslash _ _
    refine ⟨rfl, .inr (.inr ⟨rfl, fun hhead => ?_⟩)⟩
    obtain ⟨rest, rfl⟩ := List.head?_eq_some_iff.1 hhead
    exact hslash rest rfl

/-- A parent has the front of its path and the first parts behind it, or it is all that is left of a
dot of its own. -/
theorem parent?_cases {path parent : String} (h : parent? path = some parent) :
    (∃ front parts kept, path.toList = front ++ ['/'].intercalate parts ∧ IsFront front parts ∧
      (∀ part ∈ parts, '/' ∉ part) ∧ kept <+: parts ∧
        parent.toList = front ++ ['/'].intercalate kept) ∨
      parent = "" ∧ isAbsolute path = false := by
  obtain ⟨hpath, hfront⟩ := splitFront_spec path.toList
  unfold parent? at h
  dsimp only at h
  split at h
  · rename_i last parts hparts
    refine .inl ⟨_, _, (parts.dropWhile isIdle).reverse, hpath.symm, hfront,
      fun part hpart => slash_notMem_of_mem_splitOn hpart, ?_, ?_⟩
    · rw [← List.reverse_suffix, List.reverse_reverse]
      have hsuffix : last :: parts <:+ ((splitFront path.toList).2.splitOn '/').reverse :=
        hparts ▸ List.dropWhile_suffix isIdle
      exact (List.dropWhile_suffix isIdle).trans ((List.suffix_cons last parts).trans hsuffix)
    · rw [← Option.some.inj h, String.toList_ofList]
  · split at h
    · rename_i hdot
      refine .inr ⟨(Option.some.inj h).symm, ?_⟩
      rw [← Bool.not_eq_true, hfront.isAbsolute_iff hpath.symm, hdot]
      decide
    · cases h

/-- A parent starts where its path starts, and leads along the first components of it. -/
theorem components_of_parent? {path parent : String} (h : parent? path = some parent) :
    isAbsolute parent = isAbsolute path ∧ components parent <+: components path := by
  rcases parent?_cases h with ⟨front, parts, kept, hpath, hfront, hslash, hkept, hparent⟩ |
    ⟨rfl, hrelative⟩
  · have hfront' := hfront.mono hkept
    constructor
    · rw [Bool.eq_iff_iff, hfront'.isAbsolute_iff hparent, hfront.isAbsolute_iff hpath]
    · rw [components_eq, components_eq, hparent, hpath, named_splitOn_front hfront hslash,
        named_splitOn_front hfront' fun part hpart => hslash part (hkept.subset hpart)]
      exact ((List.prefix_append_right_inj _).2 (hkept.filter _)).map _
  · rw [hrelative]
    exact ⟨rfl, List.nil_prefix⟩

end Path

end BlockDiagram
