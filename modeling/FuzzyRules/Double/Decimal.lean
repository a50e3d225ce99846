import FuzzyRules.Double.Basic

/-!
# Doubles as decimal text

A magnitude has an exact decimal expansion, since a unit is `5 ^ 1074 * 10 ^ -1074`.
Its shortest decimal is searched on the grids of one, two, … seventeen significant
digits: the value's two neighbours on a grid are tried, and the first grid with a
neighbour that reads back as the same magnitude gives the digits. Of two such
neighbours the nearer is taken, at equal distance the even one.
-/

namespace FuzzyRules

/-- The decimal number `coefficient * 10 ^ exponent`. -/
structure Decimal where
  coefficient : Nat
  exponent : Int
  deriving DecidableEq

namespace Decimal

/-- The magnitude that a decimal reads as. -/
def toMagnitude (d : Decimal) : Magnitude := .ofScaled 10 d.coefficient d.exponent

/-- All digits of a finite magnitude. -/
def exact (m : Magnitude) : Decimal := ⟨m.units * Nat.pow 5 1074, -1074⟩

/-- The decimal next to `digits / step` that reads back as `m` with a given exponent: the
natural number below or above, the nearer one if both do. -/
def neighbour? (m : Magnitude) (digits step : Nat) (exponent : Int) : Option Decimal :=
  let below : Decimal := ⟨digits / step, exponent⟩
  let above : Decimal := ⟨digits / step + 1, exponent⟩
  match decide (below.toMagnitude = m), decide (above.toMagnitude = m) with
  | true, true => some ⟨nearestEven digits step, exponent⟩
  | true, false => some below
  | false, true => some above
  | false, false => none

/-- The decimal with `size` of the `total` digits of an exact expansion that reads back
as `m`. -/
def onGrid? (m : Magnitude) (total size : Nat) : Option Decimal :=
  neighbour? m (exact m).coefficient (Nat.pow 10 (total - size)) ((total - size : Nat) - 1074)

/-- The shortest decimal that reads back as a finite magnitude. -/
def shortest (m : Magnitude) : Decimal :=
  let total := (Nat.toDigits 10 (exact m).coefficient).length
  ((List.range' 1 17).findSome? (onGrid? m total)).getD (exact m)

/-! ## Layout -/

/-- How a decimal is laid out: the exponents of the first digit for which it is written
without an exponent, and the least number of exponent digits otherwise. -/
structure Layout where
  leastPositional : Int
  mostPositional : Int
  exponentWidth : Nat

/-- The exponent mark, its sign, which is always written, and its digits. -/
def Layout.exponentText (layout : Layout) (e : Int) : String :=
  let digits := Nat.toDigits 10 e.natAbs
  let padding := List.replicate (layout.exponentWidth - digits.length) '0'
  (if e < 0 then "e-" else "e+") ++ String.ofList (padding ++ digits)

/-- The text of a decimal. Positional text has digits on both sides of the point; text
with an exponent has a point only between digits. -/
def text (layout : Layout) (d : Decimal) : String :=
  let all := Nat.toDigits 10 d.coefficient
  let lead : Int := d.exponent + (all.length - 1 : Nat)
  let digits := (all.reverse.dropWhile (· == '0')).reverse
  if layout.leastPositional ≤ lead ∧ lead ≤ layout.mostPositional then
    if lead < 0 then
      "0." ++ String.ofList (List.replicate (-lead - 1).toNat '0' ++ digits)
    else
      let size := lead.toNat + 1
      let whole := digits.take size ++ List.replicate (size - digits.length) '0'
      let fraction := digits.drop size
      String.ofList whole ++ "." ++ (if fraction.isEmpty then "0" else String.ofList fraction)
  else
    let fraction := digits.drop 1
    String.ofList (digits.take 1) ++
      (if fraction.isEmpty then "" else "." ++ String.ofList fraction) ++
      layout.exponentText lead

end Decimal

namespace Double

/-- Numbers are positional from `0.0001` to below `10 ^ 16`, and exponents have at least
two digits. -/
def layout : Decimal.Layout := ⟨-4, 15, 2⟩

/-- The shortest text that reads back as the number. -/
def text : Double → String
  | nan _ => "nan"
  | signed negative m =>
    (if negative then "-" else "") ++
      (if m.isInfinite then "inf"
      else if m.rank = 0 then "0.0"
      else (Decimal.shortest m).text layout)

end Double

end FuzzyRules
