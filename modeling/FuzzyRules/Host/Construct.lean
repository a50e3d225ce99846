import FuzzyRules.Host.Error

/-!
# Values from host objects

One constructor for each kind of value, which takes the host's object as it is and
refuses those of another kind. Truth values are not accepted as integers or floats, and
integers are accepted as floats. What is made is a new object, so no NaN of it has a
holder.
-/

namespace FuzzyRules.Host

/-- What iterating over an object gives: the items of a list, the characters of a text,
the keys of a dictionary. -/
def Object.iterate : Object → Except Error (List Object)
  | .list items => .ok items
  | .str s => .ok (s.toList.map fun c => .str c.toString)
  | .dict entries => .ok (entries.map Prod.fst)
  | o => .error (.notIterable o)

def Object.toItem : Object → Except Error Value
  | .value v => .ok v
  | o => .error (.showing o .notAnItem)

def Object.toMember : Object → Except Error (Weighted Value)
  | .member m => .ok { m with weight := m.weight.heldBy none }
  | o => .error (.showing o .notAMember)

/-- The text of an object, if it has one. -/
def Object.toText (o : Object) : Except Error String :=
  match o.text? with
  | some text => .ok text
  | none => .error .tooManyDigits

/-- The double nearest to an integer, if that is finite. -/
def toDouble (i : Int) : Except Error Double :=
  match Double.ofInt? i with
  | some x => .ok x
  | none => .error .tooLarge

def newExpression (o : Object) : Except Error Value := do
  return .expr (← (← o.iterate).mapM Object.toItem)

def newString : Object → Except Error Value
  | .str s => .ok (.str s)
  | o => .error (.wrongKind "str" o)

def newInt : Object → Except Error Value
  | .int i => .ok (.int i)
  | o => .error (.wrongKind "int" o)

def newFloat : Object → Except Error Value
  | .float x => .ok (.float (x.heldBy none))
  | .int i => Value.float <$> toDouble i
  | o => .error (.wrongKind "float" o)

def newBool : Object → Except Error Value
  | .bool b => .ok (.bool b)
  | o => .error (.wrongKind "bool" o)

def newFuzzy (o : Object) : Except Error Value := do
  return .fuzzy (← (← o.iterate).mapM Object.toMember)

/-- Anything that has a text is the message of an error. -/
def newError (o : Object) : Except Error Value := Value.error <$> o.toText

/-- Whether a value equals an object of the host; only values can. -/
def equalsObject (v : Value) : Object → Bool
  | .value w => v.isEqual w
  | _ => false

end FuzzyRules.Host
