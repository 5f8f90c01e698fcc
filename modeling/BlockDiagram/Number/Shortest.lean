/-
The shortest decimal that reads back as a given double.

A decimal reads back as a double exactly if it lies between the midpoints to the two neighbours,
the midpoints themselves counting when the rank is even. Take the grids of multiples of 10^k from
the coarsest to finer ones: the first grid with a point in that interval gives the fewest digits,
and on it the point nearest to the double is taken. A grid that meets the interval does so in one
of the two points around the double itself, so only those two are tried.
-/
import BlockDiagram.Number.Double
import BlockDiagram.Text.Numeral

set_option autoImplicit false

namespace BlockDiagram

/-! ## Digits -/

/-- Whether the decimal `d / s` units, given as `d` over the scale `s`, reads back as the rank.
Both sides of each comparison are doubled, so that midpoints are whole. -/
def readsBack (rank d s : Nat) : Bool :=
  let low := (units (rank - 1) + units rank) * s
  let high := (units rank + units (rank + 1)) * s
  if rank % 2 = 0 then low ≤ 2 * d && 2 * d ≤ high else low < 2 * d && 2 * d < high

/-- The multiple of 10^k nearest to the double that reads back as it, if there is one. -/
def gridPoint? (rank : Nat) (k : Int) : Option Nat :=
  let scale := Nat.pow 10 (-k).toNat
  let step := Nat.pow 2 1074 * Nat.pow 10 k.toNat
  let below := units rank * scale / step
  let middle := (2 * below + 1) * step
  let exact := 2 * (units rank * scale)
  match readsBack rank (below * step) scale, readsBack rank ((below + 1) * step) scale with
  | false, false => none
  | true, false => some below
  | false, true => some (below + 1)
  | true, true =>
    if exact < middle then some below
    else if middle < exact then some (below + 1)
    else if below % 2 = 0 then some below else some (below + 1)

/-- Digits and exponent of the shortest decimal `digits · 10^exponent` for a positive rank. No
double needs a grid coarser than 10^308 or finer than 10^-342. -/
def shortest (rank : Nat) : Nat × Int :=
  let grids := (List.range 651).map fun (i : Nat) => (308 : Int) - (i : Int)
  (grids.findSome? fun k => (gridPoint? rank k).map (·, k)).getD (0, 0)

/-! ## Notation -/

/-- Digits with a point after the first `n` of them. -/
def pointAfter (n : Nat) (digits : List Char) : String :=
  String.ofList (digits.take n) ++ "." ++ String.ofList (digits.drop n)

/-- The text of a positive magnitude. The first digit has the weight 10^e: from -5 to 15 the
number is written positionally and keeps a digit after the point, outside it is written with an
exponent that always shows its sign. -/
def magnitudeText (rank : Nat) : String :=
  let (number, k) := shortest rank
  let digits := Nat.toDigits 10 number
  let e := k + digits.length - 1
  if e < -5 ∨ 16 ≤ e then
    let mantissa := if digits.length = 1 then String.ofList digits else pointAfter 1 digits
    mantissa ++ "e" ++ (if e < 0 then "-" else "+") ++ decimal e.natAbs
  else if e < 0 then
    "0." ++ String.ofList (List.replicate (e.natAbs - 1) '0' ++ digits)
  else if 0 ≤ k then
    String.ofList (digits ++ List.replicate k.toNat '0') ++ ".0"
  else
    pointAfter (e.toNat + 1) digits

/-- The text of a double. -/
def Double.text (x : Double) : String :=
  (if x.negative then "-" else "") ++ if x.rank = 0 then "0.0" else magnitudeText x.rank

end BlockDiagram
