import FuzzyRules.Atom
import FuzzyRules.Text.Blank
import FuzzyRules.Text.DecimalDigit
import FuzzyRules.Text.UpperCase

/-!
# Settings

The variables of the process that set the depth limit and the log level. A variable that
is unset, blank or malformed counts as not given.
-/

namespace FuzzyRules

namespace Text

/-- The digits after a first one; single underscores may stand between digits. -/
def moreDigits? : List Char → Option (List Nat)
  | [] => some []
  | '_' :: c :: rest => do return (← decimalDigit? c) :: (← moreDigits? rest)
  | c :: rest => do return (← decimalDigit? c) :: (← moreDigits? rest)

/-- The digits of a numeral, at least one. -/
def numeral? : List Char → Option (List Nat)
  | [] => none
  | c :: rest => do return (← decimalDigit? c) :: (← moreDigits? rest)

/-- The integer that a text spells: an optional sign and digits of any script. -/
def integer? (s : String) : Option Int := do
  let (negative, body) := Literal.splitSign s.toList
  let digits ← numeral? body
  if Atom.digitLimit < digits.length then none
  else return Literal.applySign negative (digits.foldl (fun n d => 10 * n + d) 0)

end Text

/-- The variables of the process. -/
abbrev Settings := List (String × String)

namespace Settings

def depthVariable : String := "FUZZLISP_MAX_DEPTH"

def levelVariable : String := "FUZZLISP_LOG_LEVEL"

/-- A variable without the blanks around it, unless nothing is left. -/
def get? (settings : Settings) (name : String) : Option String :=
  match settings.lookup name with
  | none => none
  | some raw =>
    let body := Text.strip raw
    if body.isEmpty then none else some body

/-- The integer that a variable spells. -/
def int? (settings : Settings) (name : String) : Option Int :=
  (settings.get? name).bind Text.integer?

/-- The integer that a variable spells, or else the default. -/
def intOr (settings : Settings) (name : String) (default : Option Int) : Option Int :=
  (settings.int? name).or default

/-- The greatest depth of programs; no limit unless it is positive. -/
def maxDepth? (settings : Settings) : Option Int :=
  (settings.intOr depthVariable none).filter (0 < ·)

/-- The name of the log level, in upper case. -/
def logLevel (settings : Settings) : String :=
  match settings.get? levelVariable with
  | some name => Text.upper name
  | none => "WARNING"

end Settings

end FuzzyRules
