/-
Where one text ends and the next begins.

Texts that stand one behind the other can be taken apart again if each of them shows where it ends.
A numeral ends before the first character that is no digit, a line ends at its line feed, and a row
of items ends at what closes it. The statements of this file take texts apart from the front: where
two texts with something behind them are the same, the texts are the same and so is what stands
behind them. Said in this way they can be used one after the other, and nothing has to be parsed.
-/
import BlockDiagram.Text.Numeral
import Mathlib.Data.String.Basic

set_option autoImplicit false

namespace BlockDiagram

/-! ## Characters of one class -/

/-- A row of characters of one class ends before the first character outside. -/
theorem class_append_inj {p : Char → Bool} {cs cs' rest rest' : List Char}
    (h : cs ++ rest = cs' ++ rest') (hcs : ∀ c ∈ cs, p c = true) (hcs' : ∀ c ∈ cs', p c = true)
    (hrest : ∀ c ∈ rest.head?, p c = false) (hrest' : ∀ c ∈ rest'.head?, p c = false) :
    cs = cs' ∧ rest = rest' := by
  have htake {cs rest : List Char} (hcs : ∀ c ∈ cs, p c = true)
      (hrest : ∀ c ∈ rest.head?, p c = false) : (cs ++ rest).takeWhile p = cs := by
    rw [List.takeWhile_append_of_pos hcs]
    cases rest with
    | nil => rw [List.takeWhile_nil, List.append_nil]
    | cons c rest =>
      rw [List.takeWhile_cons, hrest c rfl, if_neg Bool.false_ne_true, List.append_nil]
  have hsame : cs = cs' := by
    rw [← htake hcs hrest, h, htake hcs' hrest']
  subst hsame
  exact ⟨rfl, List.append_cancel_left h⟩

/-- A line ends at its first line break. -/
theorem append_break_inj {cs cs' rest rest' : List Char}
    (h : cs ++ '\n' :: rest = cs' ++ '\n' :: rest') (hcs : '\n' ∉ cs) (hcs' : '\n' ∉ cs') :
    cs = cs' ∧ rest = rest' := by
  have hline {cs : List Char} (hcs : '\n' ∉ cs) : ∀ c ∈ cs, (c != '\n') = true := by
    intro c hc
    rw [bne_iff_ne]
    rintro rfl
    exact hcs hc
  have hbreak (rest : List Char) : ∀ c ∈ ('\n' :: rest).head?, (c != '\n') = false := by
    rintro _ ⟨⟩
    rfl
  obtain ⟨hsame, hbehind⟩ := class_append_inj h (hline hcs) (hline hcs') (hbreak _) (hbreak _)
  exact ⟨hsame, (List.cons.inj hbehind).2⟩

/-! ## Numerals -/

theorem newline_notMem_decimal (n : Nat) : '\n' ∉ (decimal n).toList := by
  intro hmem
  exact absurd (isDigit_of_mem_decimal hmem) (by decide)

/-- Whether what stands behind a numeral leaves no doubt where that ends. -/
def NoDigitFirst (rest : List Char) : Prop :=
  ∀ c ∈ rest.head?, c.isDigit = false

@[simp] theorem noDigitFirst_nil : NoDigitFirst [] := by
  rintro _ ⟨⟩

@[simp] theorem noDigitFirst_cons {c : Char} {rest : List Char} :
    NoDigitFirst (c :: rest) ↔ c.isDigit = false := by
  simp [NoDigitFirst]

theorem decimal_injective {n n' : Nat} (h : decimal n = decimal n') : n = n' := by
  have hdigits : Nat.toDigits 10 n = Nat.toDigits 10 n' := String.ofList_injective h
  have hvalue := digitsValue?_toDigits n
  rw [hdigits, digitsValue?_toDigits n', Option.some.injEq] at hvalue
  exact hvalue.symm

/-- A numeral begins with a digit. -/
theorem exists_decimal_eq (n : Nat) :
    ∃ c cs, (decimal n).toList = c :: cs ∧ c.isDigit = true := by
  have hne : (decimal n).toList ≠ [] := by
    rw [decimal, String.toList_ofList]
    exact Nat.toDigits_ne_nil
  obtain ⟨c, cs, heq⟩ := List.exists_cons_of_ne_nil hne
  have hmem : c ∈ (decimal n).toList := by
    rw [heq]
    exact List.mem_cons_self
  exact ⟨c, cs, heq, isDigit_of_mem_decimal hmem⟩

theorem decimal_append_inj {n n' : Nat} {rest rest' : List Char}
    (h : (decimal n).toList ++ rest = (decimal n').toList ++ rest') (hrest : NoDigitFirst rest)
    (hrest' : NoDigitFirst rest') : n = n' ∧ rest = rest' := by
  obtain ⟨hsame, hbehind⟩ := class_append_inj h (fun _ => isDigit_of_mem_decimal)
    (fun _ => isDigit_of_mem_decimal) hrest hrest'
  exact ⟨decimal_injective (String.toList_inj.1 hsame), hbehind⟩

/-! ## Rows -/

section Rows

variable {α : Type} {text : α → String} {sep : String} {close : Char}

/-- Whether two things can be told from their texts, if what stands behind begins with no digit. -/
def ToldBy (text : α → String) (a b : α) : Prop :=
  ∀ rest rest', NoDigitFirst rest → NoDigitFirst rest' →
    (text a).toList ++ rest = (text b).toList ++ rest' → a = b ∧ rest = rest'

/-- Whether a text begins with a character, and not with this one. -/
def BeginsApart (c : Char) (text : String) : Prop :=
  ∃ first rest, text.toList = first :: rest ∧ first ≠ c

/-- Whether it can be seen where a row ends and where its items end: neither what closes the row nor
what divides its items begins with a digit, and the one does not begin like the other. -/
structure Divides (sep : String) (close : Char) : Prop where
  close_notDigit : close.isDigit = false
  sep_first : ∃ c cs, sep.toList = c :: cs ∧ c.isDigit = false ∧ c ≠ close

/-- The items behind the first of a row, each with what divides it from the one before. -/
def rowBehind (sep : String) (text : α → String) (items : List α) : String :=
  String.join (items.map fun item => sep ++ text item)

@[simp] theorem rowBehind_nil : rowBehind sep text [] = "" := by
  rw [rowBehind, List.map_nil, String.join_nil]

@[simp] theorem rowBehind_cons (item : α) (items : List α) :
    rowBehind sep text (item :: items) = sep ++ text item ++ rowBehind sep text items := by
  rw [rowBehind, List.map_cons, String.join_cons, rowBehind]

theorem intercalate_cons (sep : String) (text : α → String) (item : α) (items : List α) :
    sep.intercalate ((item :: items).map text) = text item ++ rowBehind sep text items := by
  induction items generalizing item with
  | nil => simp
  | cons next items ih =>
    have hnext := ih next
    rw [List.map_cons] at hnext
    rw [List.map_cons, List.map_cons, String.intercalate_cons_cons, hnext, rowBehind_cons,
      String.append_assoc, String.append_assoc]

variable {xs ys : List α} {rest rest' : List Char}

/-- The items behind the first are told one by one: each begins with what divides it from the one
before, and what closes the row does not. -/
theorem rowBehind_append_inj (hdivides : Divides sep close)
    (htold : ∀ x ∈ xs, ∀ y ∈ ys, ToldBy text x y)
    (h : (rowBehind sep text xs).toList ++ close :: rest =
      (rowBehind sep text ys).toList ++ close :: rest') : xs = ys ∧ rest = rest' := by
  obtain ⟨c, cs, hsep, hdigit, hne⟩ := hdivides.sep_first
  have hbehind (xs : List α) (rest : List Char) :
      NoDigitFirst ((rowBehind sep text xs).toList ++ close :: rest) := by
    cases xs <;> simp [hsep, hdigit, hdivides.close_notDigit]
  induction xs generalizing ys with
  | nil =>
    cases ys with
    | nil => simpa using h
    | cons y ys => simp [hsep, Ne.symm hne] at h
  | cons x xs ih =>
    cases ys with
    | nil => simp [hsep, hne] at h
    | cons y ys =>
      simp only [rowBehind_cons, String.toList_append, List.append_assoc,
        List.append_cancel_left_eq] at h
      obtain ⟨rfl, hrest⟩ := htold x List.mem_cons_self y List.mem_cons_self _ _ (hbehind xs rest)
        (hbehind ys rest') h
      obtain ⟨rfl, hlast⟩ := ih (fun x' hx' y' hy' =>
        htold x' (List.mem_cons_of_mem _ hx') y' (List.mem_cons_of_mem _ hy')) hrest
      exact ⟨rfl, hlast⟩

/-- A row is told by its text, up to what closes it, as soon as its items are and none of them
begins like the end of the row. -/
theorem intercalate_append_inj (hdivides : Divides sep close)
    (hxs : ∀ x ∈ xs, BeginsApart close (text x)) (hys : ∀ y ∈ ys, BeginsApart close (text y))
    (htold : ∀ x ∈ xs, ∀ y ∈ ys, ToldBy text x y)
    (h : (sep.intercalate (xs.map text)).toList ++ close :: rest =
      (sep.intercalate (ys.map text)).toList ++ close :: rest') : xs = ys ∧ rest = rest' := by
  have hfirst {x : α} (hx : BeginsApart close (text x)) (xs : List α) (rest rest' : List Char) :
      close :: rest ≠ (sep.intercalate ((x :: xs).map text)).toList ++ rest' := by
    obtain ⟨c, cs, hx, hne⟩ := hx
    rw [intercalate_cons, String.toList_append, hx]
    exact fun heq => hne (List.cons.inj heq).1.symm
  cases xs with
  | nil =>
    cases ys with
    | nil => exact ⟨rfl, (List.cons.inj h).2⟩
    | cons y ys => exact absurd h (hfirst (hys y List.mem_cons_self) ys rest _)
  | cons x xs =>
    cases ys with
    | nil => exact absurd h.symm (hfirst (hxs x List.mem_cons_self) xs rest' _)
    | cons y ys =>
      -- with one more divider in front, the first item is like the others
      apply rowBehind_append_inj hdivides htold
      rw [intercalate_cons, intercalate_cons] at h
      simpa using h

end Rows

/-! ## Lines of a text -/

/-- The pieces that line feeds divide a text into. There is one more of them than there are line
feeds, so a text that ends in a line feed has an empty last line. -/
def linesOf (text : String) : List String :=
  (text.split '\n').toList.map String.Slice.copy

theorem linesOf_eq (text : String) :
    linesOf text = (text.toList.splitOn '\n').map String.ofList :=
  String.toList_split_char

theorem linesOf_append_break (line rest : String) :
    linesOf (line ++ "\n" ++ rest) = linesOf line ++ linesOf rest := by
  have hbreak : (line ++ "\n" ++ rest).toList = line.toList ++ '\n' :: rest.toList := by simp
  rw [linesOf_eq, linesOf_eq, linesOf_eq, hbreak, List.splitOn_append_cons_self, List.map_append]

/-- What is put in front of a text is put in front of its first line. -/
theorem linesOf_append {front : String} (hfront : '\n' ∉ front.toList) (text : String) :
    linesOf (front ++ text) = (linesOf text).modifyHead (front ++ ·) := by
  have hsplit (cs ds : List Char) (hcs : '\n' ∉ cs) :
      (cs ++ ds).splitOn '\n' = (ds.splitOn '\n').modifyHead (cs ++ ·) := by
    induction cs with
    | nil =>
      rw [List.nil_append]
      cases ds.splitOn '\n' <;> rfl
    | cons c cs ih =>
      rw [List.mem_cons, not_or] at hcs
      rw [List.cons_append, List.splitOn_cons_eq_if_modifyHead,
        if_neg (by simpa using Ne.symm hcs.1), ih hcs.2]
      cases ds.splitOn '\n' <;> rfl
  rw [linesOf_eq, linesOf_eq, String.toList_append, hsplit _ _ hfront]
  cases text.toList.splitOn '\n' <;> simp [String.ofList_append]

theorem linesOf_ne_nil (text : String) : linesOf text ≠ [] := by
  rw [linesOf_eq, ne_eq, List.map_eq_nil_iff]
  exact List.splitOn_ne_nil '\n' text.toList

/-- A row of lines without line feeds of their own, divided by line feeds, has these lines. -/
theorem linesOf_intercalate {lines : List String} (hne : lines ≠ [])
    (hlines : ∀ line ∈ lines, '\n' ∉ line.toList) : linesOf ("\n".intercalate lines) = lines := by
  have hsplit := String.toList_split_intercalate hlines
  rwa [if_neg hne] at hsplit

end BlockDiagram
