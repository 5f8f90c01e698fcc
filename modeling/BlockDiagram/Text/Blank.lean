/-
Blank characters and trimming.

A character is blank when it has the White_Space property of the Unicode standard: twenty-five
characters, among them the no-break space and the ideographic space, and not the zero-width
space nor the byte-order mark. Diagram editors send ids and numbers with stray blanks around
them, and a required text that holds nothing but blanks counts as empty; both rules rest on the
one class below.
-/

set_option autoImplicit false

namespace BlockDiagram

/-! ## The class -/

/-- The code points with the White_Space property, as closed ranges in ascending order. -/
def blankRanges : List (Nat × Nat) :=
  [(0x09, 0x0d), (0x20, 0x20), (0x85, 0x85), (0xa0, 0xa0), (0x1680, 0x1680), (0x2000, 0x200a),
    (0x2028, 0x2029), (0x202f, 0x202f), (0x205f, 0x205f), (0x3000, 0x3000)]

/-- Whether a character is blank. -/
def isBlank (c : Char) : Bool :=
  blankRanges.any fun range => range.1 ≤ c.toNat && c.toNat ≤ range.2

/-! ## Trimming -/

/-- The characters without the blanks at both ends. -/
def trimChars (cs : List Char) : List Char :=
  ((cs.dropWhile isBlank).reverse.dropWhile isBlank).reverse

/-- Whether a text holds no character but blanks; the empty text does not. -/
def isBlankText (s : String) : Bool :=
  s.toList.all isBlank

end BlockDiagram
