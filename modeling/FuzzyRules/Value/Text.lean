import FuzzyRules.Atom
import FuzzyRules.Double.Decimal

/-!
# Text of values

`render` writes a value as program text; what was read from text is read back from it.
`inspect` shows the kind of a value and its payload, with text in quotes.

An integer of more digits than are read is not shown either, and then there is no text of
what it stands in (`text?`, `inspect?`).
-/

namespace FuzzyRules

/-- A list between round brackets, with commas; a single item is followed by one too. -/
def tupleText : List String → String
  | [x] => "(" ++ x ++ ",)"
  | xs => "(" ++ ", ".intercalate xs ++ ")"

/-- The truth values as they are shown. -/
def truthText (b : Bool) : String := if b then "True" else "False"

/-- Whether an integer is shown: it has no more digits than are read. -/
def isShowable (i : Int) : Bool := (Nat.toDigits 10 i.natAbs).length ≤ Atom.digitLimit

namespace Value

mutual

/-- A value as program text. -/
def render : Value → String
  | expr items => "(" ++ " ".intercalate (renderAll items) ++ ")"
  | str s => s
  | int i => toString i
  | float x => x.text
  | bool b => if b then "true" else "false"
  | fuzzy members => "\x7b" ++ " ".intercalate (renderMembers members) ++ "\x7d"
  | error message => "#<error: " ++ message ++ ">"

def renderAll : List Value → List String
  | [] => []
  | v :: vs => render v :: renderAll vs

/-- Each member as `value:weight`. -/
def renderMembers : List (Weighted Value) → List String
  | [] => []
  | ⟨v, w⟩ :: rest => (render v ++ ":" ++ w.text) :: renderMembers rest

end

mutual

/-- A value with its kind and its payload. -/
def inspect : Value → String
  | expr items => "Value(EXPRESSION, " ++ tupleText (inspectAll items) ++ ")"
  | str s => "Value(STRING, " ++ Text.quoted s ++ ")"
  | int i => "Value(INT, " ++ toString i ++ ")"
  | float x => "Value(FLOAT, " ++ x.text ++ ")"
  | bool b => "Value(BOOL, " ++ truthText b ++ ")"
  | fuzzy members => "Value(FUZZY, " ++ tupleText (inspectMembers members) ++ ")"
  | error message => "Value(ERROR, " ++ Text.quoted message ++ ")"

def inspectAll : List Value → List String
  | [] => []
  | v :: vs => inspect v :: inspectAll vs

/-- Each member with its value and weight named. -/
def inspectMembers : List (Weighted Value) → List String
  | [] => []
  | ⟨v, w⟩ :: rest =>
    ("FuzzyElement(value=" ++ inspect v ++ ", weight=" ++ w.text ++ ")") :: inspectMembers rest

end

mutual

/-- The integers anywhere in a value. -/
def integers : Value → List Int
  | expr items => integersAll items
  | int i => [i]
  | fuzzy members => integersOf members
  | _ => []

def integersAll : List Value → List Int
  | [] => []
  | v :: vs => v.integers ++ integersAll vs

def integersOf : List (Weighted Value) → List Int
  | [] => []
  | ⟨v, _⟩ :: rest => v.integers ++ integersOf rest

end

/-- The program text of a value, if all integers inside are shown. -/
def text? (v : Value) : Option String :=
  if v.integers.all isShowable then some v.render else none

/-- A value with its kind and its payload, if all integers inside are shown. -/
def inspect? (v : Value) : Option String :=
  if v.integers.all isShowable then some v.inspect else none

end Value

/-- A weighted value with its value and weight named. -/
def Weighted.inspect (member : Weighted Value) : String :=
  "FuzzyElement(value=" ++ member.value.inspect ++ ", weight=" ++ member.weight.text ++ ")"

end FuzzyRules
