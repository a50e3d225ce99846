import FuzzyRules.Double.Decimal

/-!
# Number literals

The spellings of numbers in program text, each as a reader of a whole list of
characters:

* integers, `[+-]? digits`;
* decimals, `[+-]? (digits [.] digits* | . digits) ([eE] [+-]? digits)?`;
* hexadecimals, `[+-]? 0x (hex [.] hex* | . hex) p [+-]? digits`, in either case;
* the words `inf`, `infinity` and `nan` with an optional sign, in any case.
-/

namespace FuzzyRules.Literal

def isDigit (c : Char) : Bool := '0' ≤ c && c ≤ '9'

def isHexDigit (c : Char) : Bool := isDigit c || ('a' ≤ c && c ≤ 'f') || ('A' ≤ c && c ≤ 'F')

/-- The value of a digit, decimal or hexadecimal. -/
def digitValue (c : Char) : Nat :=
  if isDigit c then c.toNat - '0'.toNat
  else if 'a' ≤ c then c.toNat - 'a'.toNat + 10
  else c.toNat - 'A'.toNat + 10

/-- The number that a list of digits denotes. -/
def ofDigits (base : Nat) (digits : List Char) : Nat :=
  digits.foldl (fun n c => n * base + digitValue c) 0

/-- Whether a text starts with a minus sign, and the text without its sign. -/
def splitSign : List Char → Bool × List Char
  | '-' :: rest => (true, rest)
  | '+' :: rest => (false, rest)
  | cs => (false, cs)

def applySign (negative : Bool) (n : Nat) : Int := if negative then -(n : Int) else n

/-- The sign and the digits of an integer. -/
def integerDigits? (cs : List Char) : Option (Bool × List Char) :=
  let (negative, digits) := splitSign cs
  if !digits.isEmpty && digits.all isDigit then some (negative, digits) else none

/-- The value of an integer literal. -/
def integer? (cs : List Char) : Option Int :=
  (integerDigits? cs).map fun (negative, digits) => applySign negative (ofDigits 10 digits)

/-- A numeral with an optional point at the start of a text: all its digits, how many of
them follow the point, and the rest of the text. It has at least one digit. -/
def pointed? (isDigit : Char → Bool) (cs : List Char) : Option (List Char × Nat × List Char) :=
  let whole := cs.takeWhile isDigit
  match cs.dropWhile isDigit with
  | '.' :: rest =>
    let fraction := rest.takeWhile isDigit
    if whole.isEmpty && fraction.isEmpty then none
    else some (whole ++ fraction, fraction.length, rest.dropWhile isDigit)
  | rest => if whole.isEmpty then none else some (whole, 0, rest)

/-- The double of a decimal literal, correctly rounded. -/
def decimal? (cs : List Char) : Option Double :=
  let (negative, body) := splitSign cs
  match pointed? isDigit body with
  | none => none
  | some (digits, places, rest) =>
    let scaled (e : Int) : Double :=
      .signed negative (.ofScaled 10 (ofDigits 10 digits) (e - places))
    match rest with
    | [] => some (scaled 0)
    | mark :: power =>
      if mark = 'e' || mark = 'E' then (integer? power).map scaled else none

/-- The double of a hexadecimal literal, correctly rounded. The power of two is not
optional. -/
def hexadecimal? (cs : List Char) : Option Double :=
  let (negative, body) := splitSign cs
  match body with
  | '0' :: x :: body =>
    if x = 'x' || x = 'X' then
      match pointed? isHexDigit body with
      | some (digits, places, mark :: power) =>
        if mark = 'p' || mark = 'P' then
          (integer? power).map fun e =>
            .signed negative (.ofScaled 2 (ofDigits 16 digits) (e - 4 * places))
        else none
      | _ => none
    else none
  | _ => none

/-! ## Words -/

/-- The two letters that are `i` up to case without being ASCII: the capital with a dot
and the small one without. -/
def isForeignI (c : Char) : Bool := c = '\u0130' || c = '\u0131'

/-- A letter up to case. -/
def foldCase (c : Char) : Char := if isForeignI c then 'i' else c.toLower

/-- The double that a word names up to case. -/
def word? (cs : List Char) : Option Double :=
  let (negative, body) := splitSign cs
  let name := body.map foldCase
  if name = ['i', 'n', 'f'] || name = ['i', 'n', 'f', 'i', 'n', 'i', 't', 'y'] then
    some (.signed negative .infinite)
  else if name = ['n', 'a', 'n'] then some (.nan none)
  else none

end FuzzyRules.Literal
