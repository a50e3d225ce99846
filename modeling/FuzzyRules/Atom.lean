import FuzzyRules.Literal
import FuzzyRules.Text.Quoted
import FuzzyRules.Value.Basic

/-!
# Words as values

A word is read as the most specific value it spells: a boolean, a 32-bit integer, a
number of single-precision range, infinity or NaN, and otherwise a string of its own
text. Two spellings are refused: an integer of too many digits, and a word that is
`inf` or `infinity` only up to a letter `i` from outside ASCII.
-/

namespace FuzzyRules.Atom

/-- Why a word has no value. -/
inductive Error where
  | tooManyDigits (count : Nat)
  | notANumber (text : String)
  deriving DecidableEq

/-- The greatest number of digits of an integer. -/
def digitLimit : Nat := 4300

def Error.message : Error → String
  | tooManyDigits count =>
    "Exceeds the limit (4300 digits) for integer string conversion: value has " ++
      toString count ++ " digits; use sys.set_int_max_str_digits() to increase the limit"
  | notANumber text => "could not convert string to float: " ++ Text.quoted text

/-- Whether an integer has 32 bits, one of them the sign. -/
def isInt32 (i : Int) : Bool := -Int.pow 2 31 ≤ i && i ≤ Int.pow 2 31 - 1

/-- The greatest magnitude of single precision, `(2 ^ 24 - 1) * 2 ^ 104`. -/
def singleMax : Magnitude := .ofRatio ((Nat.pow 2 24 - 1) * Nat.pow 2 104) 1

/-- A numeral as a float if it is of single-precision range, else as a string. -/
def readReal (text : String) : Value :=
  match (Literal.decimal? text.toList).or (Literal.hexadecimal? text.toList) with
  | some x => if x.within singleMax then .float x else .str text
  | none => .str text

/-- The most specific value that a word spells. -/
def read (text : String) : Except Error Value :=
  if text = "true" then .ok (.bool true)
  else if text = "false" then .ok (.bool false)
  else
    match Literal.integerDigits? text.toList with
    | some (negative, digits) =>
      if digitLimit < digits.length then .error (.tooManyDigits digits.length)
      else
        let i := Literal.applySign negative (Literal.ofDigits 10 digits)
        .ok (if isInt32 i then .int i else readReal text)
    | none =>
      match Literal.word? text.toList with
      | some x =>
        if text.toList.any Literal.isForeignI then .error (.notANumber text) else .ok (.float x)
      | none => .ok (readReal text)

/-- The value of a word at its place: the first word of a list is a name, so it stays a
string, and every other word is read. -/
def readAt (isHead : Bool) (text : String) : Except Error Value :=
  if isHead then .ok (.str text) else read text

end FuzzyRules.Atom
