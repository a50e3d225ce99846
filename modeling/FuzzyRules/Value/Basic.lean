import FuzzyRules.Double.Basic

/-!
# Values

A value is a program or a result: an expression is a list of values, everything else
is a leaf that stands for itself. A failure of evaluation is a value too, the
`error` leaf with its message.

Each kind has an accessor that gives the payload of that kind and an empty payload
(no items, no text, zero, false) of every other kind.
-/

namespace FuzzyRules

/-- Something with a weight. -/
structure Weighted (α : Type) where
  value : α
  weight : Double

/-- A program or a result. -/
inductive Value where
  | expr (items : List Value)
  | str (text : String)
  | int (number : Int)
  | float (number : Double)
  | bool (truth : Bool)
  | fuzzy (members : List (Weighted Value))
  | error (message : String)

/-- A set whose members hold to a degree; the first of several equal members counts. -/
abbrev FuzzySet := List (Weighted Value)

/-- The kinds of values. -/
inductive Kind where
  | expression
  | string
  | int
  | float
  | bool
  | fuzzy
  | error
  deriving DecidableEq

namespace Kind

/-- The name under which a kind is shown. -/
def name : Kind → String
  | expression => "EXPRESSION"
  | string => "STRING"
  | int => "INT"
  | float => "FLOAT"
  | bool => "BOOL"
  | fuzzy => "FUZZY"
  | error => "ERROR"

/-- The number of a kind, in the order of declaration. -/
def code (kind : Kind) : Nat := kind.ctorIdx

end Kind

namespace Value

def kind : Value → Kind
  | expr _ => .expression
  | str _ => .string
  | int _ => .int
  | float _ => .float
  | bool _ => .bool
  | fuzzy _ => .fuzzy
  | error _ => .error

def asExpression : Value → List Value
  | expr items => items
  | _ => []

def asString : Value → String
  | str text => text
  | _ => ""

def asInt : Value → Int
  | int i => i
  | _ => 0

/-- The number of a float, or the nearest one to an integer; `none` if that would be
infinite. -/
def asFloat? : Value → Option Double
  | float x => some x
  | int i => Double.ofInt? i
  | _ => some .zero

def asBool : Value → Bool
  | bool b => b
  | _ => false

def asFuzzySet : Value → FuzzySet
  | fuzzy members => members
  | _ => []

def asError : Value → String
  | error message => message
  | _ => ""

def isError : Value → Bool
  | error _ => true
  | _ => false

end Value

end FuzzyRules
