/-
Finite double-precision numbers.

A magnitude is given by its rank among the non-negative doubles in ascending order, so that rank 0
is zero, rank 1 the least positive number, and neighbouring ranks are neighbouring numbers. Every
double is a whole multiple of 2^-1074; `units` is that multiple. Rounding, products and quotients
are then statements about natural numbers, with no rounding of their own in between: the exact
result is a fraction, and one function picks the nearest rank.
-/

set_option autoImplicit false

namespace BlockDiagram

/-! ## Ranks -/

/-- The rank just above the largest finite double. -/
def rankLimit : Nat := 2047 * Nat.pow 2 52

/-- The number of units, each 2^-1074, in the magnitude of a rank. Below 2^52 the ranks are
equally spaced; above, each block of 2^52 ranks is twice as wide as the one before. -/
def units (rank : Nat) : Nat :=
  let block := Nat.pow 2 52
  if rank < block then rank
  else (block + rank % block) * Nat.pow 2 (rank / block - 1)

/-- The quotient rounded to the nearest whole number, a half to the even one. -/
def divRound (num den : Nat) : Nat :=
  let q := num / den
  let r := num % den
  if 2 * r < den then q
  else if den < 2 * r then q + 1
  else if q % 2 = 0 then q else q + 1

/-- The rank nearest to `num / den` units, a tie going to the even rank. Fifty-three bits are
kept: `shift` says how many lie beyond. The carry out of the last bit moves to the next block of
ranks by itself. The answer may reach `rankLimit`, which no finite double has. -/
def nearestRank (num den : Nat) : Nat :=
  let shift := Nat.log2 (num / den) - 52
  shift * Nat.pow 2 52 + divRound num (den * Nat.pow 2 shift)

/-! ## Numbers -/

/-- A finite double: its sign, and the rank of its magnitude. Zero has both signs. -/
structure Double where
  negative : Bool
  rank : Nat
  finite : rank < rankLimit
  deriving DecidableEq, Repr

namespace Double

/-- The double of a sign and a rank; nothing when the rank is beyond the finite ones. -/
def ofRank? (negative : Bool) (rank : Nat) : Option Double :=
  if h : rank < rankLimit then some ⟨negative, rank, h⟩ else none

end Double

/-- The rank nearest to a whole number. -/
def rankOfNat (n : Nat) : Nat :=
  nearestRank (n * Nat.pow 2 1074) 1

/-- The rank nearest to the product of two magnitudes. -/
def mulRank (a b : Nat) : Nat :=
  nearestRank (units a * units b) (Nat.pow 2 1074)

/-- The rank nearest to the quotient of two magnitudes. -/
def divRank (a b : Nat) : Nat :=
  nearestRank (units a * Nat.pow 2 1074) (units b)

end BlockDiagram
