/-!
# Magnitudes of binary64 numbers

A magnitude is stored as its rank: how many magnitudes lie below it. Rank zero is
zero, the ranks below `2 ^ 52` are the subnormal numbers, each further block of
`2 ^ 52` ranks is one binade, and the last rank is the infinite magnitude. The order
of magnitudes is then the order of natural numbers.

Every finite magnitude is a whole number of *units*, a unit being `2 ^ -1074`, the
least positive magnitude. Arithmetic is exact arithmetic on units followed by one
rounding, `ofUnits`, to the nearest magnitude, a half going to the even rank.
-/

namespace FuzzyRules

/-- The natural number nearest to `num / den`; a half goes to the even neighbour. -/
def nearestEven (num den : Nat) : Nat :=
  let quotient := num / den
  let twice := 2 * (num % den)
  if twice < den then quotient
  else if den < twice then quotient + 1
  else quotient + quotient % 2

namespace Magnitude

/-- The rank of the infinite magnitude, above `2047` blocks of `2 ^ 52` finite ones. -/
def infiniteRank : Nat := 2047 * Nat.pow 2 52

end Magnitude

/-- A binary64 magnitude, given by its rank among all magnitudes. -/
structure Magnitude where
  rank : Nat
  rank_le : rank ≤ Magnitude.infiniteRank
  deriving DecidableEq

namespace Magnitude

/-- The magnitude of a rank; ranks past the last one are infinite. -/
def ofRank (rank : Nat) : Magnitude := ⟨min rank infiniteRank, Nat.min_le_right ..⟩

def zero : Magnitude := ofRank 0

def one : Magnitude := ofRank (1023 * Nat.pow 2 52)

def infinite : Magnitude := ofRank infiniteRank

def isInfinite (m : Magnitude) : Bool := m.rank == infiniteRank

/-- The power of two by which the significand of a rank is scaled, counted in units. -/
def scale (m : Magnitude) : Nat := m.rank / Nat.pow 2 52 - 1

/-- The value of a finite magnitude in units. -/
def units (m : Magnitude) : Nat := (m.rank - m.scale * Nat.pow 2 52) * Nat.pow 2 m.scale

/-- The magnitude nearest to `num / den` units, a half going to the even rank. A
quotient of `53 + s` binary digits is rounded to a multiple of `2 ^ s`. -/
def ofUnits (num den : Nat) : Magnitude :=
  let shift := (num / den).log2 - 52
  ofRank (shift * Nat.pow 2 52 + nearestEven num (den * Nat.pow 2 shift))

/-- The magnitude nearest to `num / den`. -/
def ofRatio (num den : Nat) : Magnitude := ofUnits (num * Nat.pow 2 1074) den

/-- The magnitude nearest to `coefficient * base ^ exponent`, for a base of at least
two. An exponent above `1100` makes any positive product infinite, and one more than
`1100` below minus the coefficient's length in binary digits makes it vanish, so that
no power of a larger size is ever computed. -/
def ofScaled (base coefficient : Nat) (exponent : Int) : Magnitude :=
  if coefficient = 0 then zero
  else if 1100 < exponent then infinite
  else if exponent < -(coefficient.log2 + 1101 : Int) then zero
  else if 0 ≤ exponent then ofRatio (coefficient * Nat.pow base exponent.toNat) 1
  else ofRatio coefficient (Nat.pow base (-exponent).toNat)

end Magnitude

end FuzzyRules
