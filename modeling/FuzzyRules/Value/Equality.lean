import FuzzyRules.Value.Basic

/-!
# Structural equality of values

Two values are equal when they are of one kind and their payloads are: lists item by
item, fuzzy sets member by member in order, numbers numerically. So `0.0` equals `-0.0`,
and a value with a NaN inside does not equal a copy of itself.

It does equal itself, though: an object is equal to itself before its payload is looked
at. This can be seen where there is a NaN, a float or a weight, and only there. So a NaN
with a holder, which is the object of the float or of the fuzzy set, agrees with itself
wherever that object is met again. All parts of one object are found in it again, so an
expression needs no holder of its own.
-/

namespace FuzzyRules.Value

mutual

/-- Deep equality of two values. -/
def isEqual : Value → Value → Bool
  | expr xs, expr ys => allEqual xs ys
  | str s, str t => s == t
  | int i, int j => i == j
  | float x, float y => x.agrees y
  | bool a, bool b => a == b
  | fuzzy xs, fuzzy ys => membersEqual xs ys
  | error s, error t => s == t
  | _, _ => false

/-- Equality of two lists, item by item. -/
def allEqual : List Value → List Value → Bool
  | [], [] => true
  | x :: xs, y :: ys => isEqual x y && allEqual xs ys
  | _, _ => false

/-- Equality of two fuzzy sets, member by member: equal weights and equal values. -/
def membersEqual : List (Weighted Value) → List (Weighted Value) → Bool
  | [], [] => true
  | ⟨x, v⟩ :: xs, ⟨y, w⟩ :: ys => v.agrees w && isEqual x y && membersEqual xs ys
  | _, _ => false

end

mutual

/-- A value with the floats and the weights inside changed. -/
def mapNumbers (f : Double → Double) : Value → Value
  | expr items => expr (mapAll f items)
  | float x => float (f x)
  | fuzzy members => fuzzy (mapMembers f members)
  | v => v

def mapAll (f : Double → Double) : List Value → List Value
  | [] => []
  | v :: vs => mapNumbers f v :: mapAll f vs

def mapMembers (f : Double → Double) : List (Weighted Value) → List (Weighted Value)
  | [] => []
  | ⟨v, w⟩ :: rest => ⟨mapNumbers f v, f w⟩ :: mapMembers f rest

end

/-- A value in another holder; a copy that is handed over once has none. -/
def heldBy (holder : Option Nat) (v : Value) : Value := v.mapNumbers (·.heldBy holder)

/-- Insert values one by one as keys, the first with index `i`, after the keys already
there. A value falls on the key it equals, and becomes a new key if it equals none. The
result is the index of the key of each value, and all keys. -/
def insertKeys (keys : List (Nat × Value)) (i : Nat) :
    List Value → List Nat × List (Nat × Value)
  | [] => ([], keys)
  | v :: rest =>
    match keys.find? (fun key => key.2.isEqual v) with
    | some (j, _) =>
      let (indices, keys) := insertKeys keys (i + 1) rest
      (j :: indices, keys)
    | none =>
      let (indices, keys) := insertKeys (keys ++ [(i, v)]) (i + 1) rest
      (i :: indices, keys)

/-- For each of the values, the index of the key it falls on. -/
def keyIndices (values : List Value) : List Nat := (insertKeys [] 0 values).1

/-- The number of distinct keys among the values. -/
def keyCount (values : List Value) : Nat := (insertKeys [] 0 values).2.length

end FuzzyRules.Value
