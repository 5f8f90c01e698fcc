/-
Decimal numerals.

Writing gives the plain decimal form, without sign or leading zeros. Reading is more generous,
because ids and numbers also arrive as text: blanks around the numeral are ignored, one `+` may
stand in front, and leading zeros are allowed. A minus sign, a second sign, an empty text and
digits outside ASCII are refused. Neither direction knows a bound; the caller compares the value
read with the range that it needs.
-/
import BlockDiagram.Text.Blank

set_option autoImplicit false

namespace BlockDiagram

/-- The decimal form of a number. -/
def decimal (n : Nat) : String :=
  String.ofList (Nat.toDigits 10 n)

theorem isDigit_of_mem_decimal {n : Nat} {c : Char} (h : c ∈ (decimal n).toList) :
    c.isDigit = true := by
  rw [decimal, String.toList_ofList] at h
  exact Nat.isDigit_of_mem_toDigits (by decide) (by decide) h

/-- The hexadecimal form of a number, in lower case. -/
def hexadecimal (n : Nat) : String :=
  String.ofList (Nat.toDigits 16 n)

/-- The number that a row of ASCII digits denotes; nothing for an empty row or another
character. -/
def digitsValue? (cs : List Char) : Option Nat :=
  if !cs.isEmpty && cs.all Char.isDigit then some (Nat.ofDigitChars 10 cs 0) else none

/-- A row of digits with at most one `+` in front. -/
def unsignedValue? : List Char → Option Nat
  | '+' :: digits => digitsValue? digits
  | digits => digitsValue? digits

/-- The number that a text denotes once its outer blanks are gone. -/
def numeral? (s : String) : Option Nat :=
  unsignedValue? (trimChars s.toList)

/-- Reading undoes writing. -/
theorem digitsValue?_toDigits (n : Nat) : digitsValue? (Nat.toDigits 10 n) = some n := by
  have nonempty : Nat.toDigits 10 n ≠ [] := Nat.toDigits_ne_nil
  have digits : ∀ c ∈ Nat.toDigits 10 n, c.isDigit = true := fun c h =>
    Nat.isDigit_of_mem_toDigits (by decide) (by decide) h
  have value : Nat.ofDigitChars 10 (Nat.toDigits 10 n) 0 = n :=
    Nat.ofDigitChars_toDigits (by decide) (by decide)
  simp [digitsValue?, nonempty, value]
  exact digits

end BlockDiagram
