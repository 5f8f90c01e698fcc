/-
Numbers of a JSON document.

An integer literal that fits sixty-four bits, unsigned or signed, stays that integer. Any other
literal becomes a double: one with a fraction or an exponent, an integer beyond those ranges, and
`-0`, whose sign an integer cannot hold. A literal too large for a finite double is refused.

The double is reached in two roundings, and no more digits take part than fit sixty-four bits: the
leading digits form a significand, which is rounded first and then scaled by a rounded power of
ten. The result can differ from the nearest double in its last place, and shows in the text.
-/
import BlockDiagram.Number.Shortest

set_option autoImplicit false

namespace BlockDiagram.Json

/-! ## Values -/

/-- A number: a natural one, a negative integer `-(n + 1)`, or a double. Each integer has one
form. -/
inductive Number where
  | natural (n : UInt64)
  | negative (n : Fin (Nat.pow 2 63))
  | double (x : Double)
  deriving DecidableEq, Repr

/-- The text of a number. -/
def Number.text : Number → String
  | .natural n => decimal n.toNat
  | .negative n => "-" ++ decimal (n.val + 1)
  | .double x => x.text

/-- The number as an unsigned integer. A double is none, even one like `1.0`. -/
def Number.natural? : Number → Option UInt64
  | .natural n => some n
  | _ => none

/-! ## Literals -/

/-- The parts of a number literal, each a row of digits. -/
structure Literal where
  negative : Bool
  whole : List Char
  fraction : Option (List Char)
  exponent : Option (Bool × List Char)

/-- A significand grown digit by digit while it stays below 2^64, and the number of digits that
were left out. -/
def significand (start : Nat) : List Char → Nat × Nat
  | [] => (start, 0)
  | c :: cs =>
    let next := 10 * start + (c.toNat - '0'.toNat)
    if next < UInt64.size then significand next cs else (start, cs.length + 1)

/-- The rank of `significand · 10^exponent`, by way of a rounded power of ten. Powers beyond
10^308 are no doubles, so a smaller exponent is applied in two steps; two such steps take any
significand to zero. -/
def scaledRank (significand : Nat) (exponent : Int) : Nat :=
  let start := rankOfNat significand
  let power (k : Nat) := rankOfNat (Nat.pow 10 k)
  let k := exponent.natAbs
  if start = 0 then 0
  else if 0 ≤ exponent then
    if k ≤ 308 then mulRank start (power k) else rankLimit
  else if k ≤ 308 then divRank start (power k)
  else if k ≤ 616 then divRank (divRank start (power 308)) (power (k - 308))
  else 0

/-- The signed exponent written after the digits. -/
def Literal.writtenExponent (l : Literal) : Int :=
  match l.exponent with
  | none => 0
  | some (true, digits) => -(Nat.ofDigitChars 10 digits 0 : Int)
  | some (false, digits) => Nat.ofDigitChars 10 digits 0

/-- A literal read as a double. Whole digits that were left out raise the exponent by one each,
fraction digits that take part lower it; those of the fraction that do not fit are ignored. -/
def Literal.double? (l : Literal) : Option Number :=
  let (whole, left) := significand 0 l.whole
  let fraction := l.fraction.getD []
  let (digits, ignored) := significand whole fraction
  let exponent := l.writtenExponent + left - (fraction.length - ignored : Nat)
  (Double.ofRank? l.negative (scaledRank digits exponent)).map .double

/-- The number that a literal denotes. -/
def Literal.number? (l : Literal) : Option Number :=
  let value := Nat.ofDigitChars 10 l.whole 0
  if l.fraction.isSome || l.exponent.isSome then l.double?
  else if !l.negative && value < UInt64.size then some (.natural (UInt64.ofNat value))
  else if h : l.negative ∧ 0 < value ∧ value ≤ Nat.pow 2 63 then
    some (.negative ⟨value - 1, Nat.sub_one_lt_of_le h.2.1 h.2.2⟩)
  else l.double?

end BlockDiagram.Json
