import FuzzyRules.Double.Magnitude

/-!
# Binary64 numbers

A number is NaN or a sign with a magnitude; zero has both signs. Comparison looks at
the position on the number line, where both zeros stand at `0` and NaN nowhere. Each
operation is the exact result on units, rounded once.

An object that holds a NaN is equal to itself and to no other object, so a NaN can tell
its holder. Only `agrees` looks at it.
-/

namespace FuzzyRules

/-- A binary64 number. A NaN in an object that is handed over in several places has that
object as its holder; any other NaN, such as a computed one, has none. -/
inductive Double where
  | nan (holder : Option Nat)
  | signed (negative : Bool) (magnitude : Magnitude)
  deriving DecidableEq

namespace Double

def zero : Double := signed false .zero

def one : Double := signed false .one

def isNaN : Double → Bool
  | nan _ => true
  | signed _ _ => false

/-- The rank of the magnitude with the sign in front; NaN has no position. -/
def position? : Double → Option Int
  | nan _ => none
  | signed negative m => some (if negative then -(m.rank : Int) else m.rank)

/-- Strictly below; false as soon as one side is NaN. -/
def lt (x y : Double) : Bool :=
  match x.position?, y.position? with
  | some i, some j => decide (i < j)
  | _, _ => false

/-- Numerically equal: both zeros are equal, and NaN equals nothing. -/
def numEq (x y : Double) : Bool :=
  match x.position?, y.position? with
  | some i, some j => decide (i = j)
  | _, _ => false

/-- The object that holds a number, where that makes a difference. -/
def holder? : Double → Option Nat
  | nan holder => holder
  | signed _ _ => none

/-- The number in another object. -/
def heldBy (holder : Option Nat) : Double → Double
  | nan _ => nan holder
  | signed negative m => signed negative m

/-- Equal as parts of two objects: numerically equal, or the NaN of one and the same
object. -/
def agrees (x y : Double) : Bool :=
  x.numEq y || (x.holder?.isSome && x.holder? == y.holder?)

/-- The second number if it is strictly below the first, else the first. -/
def lower (x y : Double) : Double := if y.lt x then y else x

/-- The second number if it is strictly above the first, else the first. -/
def upper (x y : Double) : Double := if x.lt y then y else x

/-- Whether the magnitude is at most `bound`; false for NaN. -/
def within (bound : Magnitude) : Double → Bool
  | nan _ => false
  | signed _ m => decide (m.rank ≤ bound.rank)

/-! ## Arithmetic -/

def neg : Double → Double
  | nan holder => nan holder
  | signed negative m => signed (!negative) m

/-- The units of a finite magnitude with a sign in front. -/
def signedUnits (negative : Bool) (m : Magnitude) : Int :=
  if negative then -(m.units : Int) else m.units

/-- The number nearest to `units` units; an exact zero takes the sign `negativeZero`. -/
def ofUnits (negativeZero : Bool) (units : Int) : Double :=
  signed (if units = 0 then negativeZero else decide (units < 0)) (.ofUnits units.natAbs 1)

/-- The rounded sum. Opposite infinities have none, and a sum that is exactly zero is
negative only if both terms are. -/
def add : Double → Double → Double
  | nan _, _ => nan none
  | _, nan _ => nan none
  | signed s m, signed t n =>
    if m.isInfinite then if n.isInfinite && s != t then nan none else signed s m
    else if n.isInfinite then signed t n
    else ofUnits (s && t) (signedUnits s m + signedUnits t n)

def sub (x y : Double) : Double := x.add y.neg

/-- The rounded quotient. Two infinities, or two zeros, have none; a number divided by
zero is infinite. -/
def div : Double → Double → Double
  | nan _, _ => nan none
  | _, nan _ => nan none
  | signed s m, signed t n =>
    if m.isInfinite then if n.isInfinite then nan none else signed (s != t) .infinite
    else if n.isInfinite then signed (s != t) .zero
    else if n.units = 0 then if m.units = 0 then nan none else signed (s != t) .infinite
    else signed (s != t) (.ofRatio m.units n.units)

/-- The left-to-right sum from `0.0`. -/
def sum (xs : List Double) : Double := xs.foldl add zero

/-- The number nearest to an integer, unless that is infinite. -/
def ofInt? (i : Int) : Option Double :=
  let m := Magnitude.ofRatio i.natAbs 1
  if m.isInfinite then none else some (signed (decide (i < 0)) m)

/-- Whether a number is exactly the integer `i`. -/
def isInt (x : Double) (i : Int) : Bool :=
  match x with
  | nan _ => false
  | signed s m => !m.isInfinite && decide (signedUnits s m = i * Int.pow 2 1074)

end Double

end FuzzyRules
