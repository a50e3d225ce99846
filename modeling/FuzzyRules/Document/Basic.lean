import FuzzyRules.Document.Lexeme
import FuzzyRules.Host.Decoded

/-!
# JSON documents

A document is read lexeme by lexeme with a stack of the arrays and objects still open.
The first lexeme out of place is reported with its line and column.
-/

namespace FuzzyRules.Document

open Host (Object)

/-- An array or object still open. Items and entries are in reverse. -/
inductive Frame where
  | array (items : List Object)
  | object (entries : List (Object × Object)) (name : String)

/-- What may come next. -/
inductive Next where
  | value
  | firstItem
  | firstName
  | name (entries : List (Object × Object))
  | colon (entries : List (Object × Object)) (name : String)
  | afterValue (o : Object)

/-- What is missing when a lexeme is out of place. -/
def Next.missing (stack : List Frame) : Next → Cause
  | value => .expectedValue
  | firstItem => .expectedValue
  | firstName => .expectedName
  | name _ => .expectedName
  | colon _ _ => .expectedColon
  | afterValue _ => if stack.isEmpty then .extraData else .expectedComma

/-- What a lexeme that starts a value leads to. -/
def startValue (stack : List Frame) : Lexeme → Except Failure (Option (List Frame × Next))
  | .mark '[' => .ok (some (stack, .firstItem))
  | .mark '\x7b' => .ok (some (stack, .firstName))
  | .text s => .ok (some (stack, .afterValue (.str s)))
  | .scalar o => .ok (some (stack, .afterValue o))
  | .brokenText failure => .error failure
  | .broken failure => .error failure
  | .mark _ => .ok none

/-- What a lexeme that stands for a name leads to. -/
def startName (stack : List Frame) (entries : List (Object × Object)) :
    Lexeme → Except Failure (Option (List Frame × Next))
  | .text s => .ok (some (stack, .colon entries s))
  | .brokenText failure => .error failure
  | _ => .ok none

/-- What a lexeme leads to; nothing if it is out of place. -/
def step (stack : List Frame) (next : Next) (lexeme : Lexeme) :
    Except Failure (Option (List Frame × Next)) :=
  match next, lexeme with
  | .value, _ => startValue stack lexeme
  | .firstItem, .mark ']' => .ok (some (stack, .afterValue (.list [])))
  | .firstItem, _ => startValue (.array [] :: stack) lexeme
  | .firstName, .mark '\x7d' => .ok (some (stack, .afterValue (.dict [])))
  | .firstName, _ => startName stack [] lexeme
  | .name entries, _ => startName stack entries lexeme
  | .colon entries name, .mark ':' => .ok (some (.object entries name :: stack, .value))
  | .colon _ _, _ => .ok none
  | .afterValue o, .mark c =>
    match stack, c with
    | .array items :: stack, ',' => .ok (some (.array (o :: items) :: stack, .value))
    | .array items :: stack, ']' => .ok (some (stack, .afterValue (.list (o :: items).reverse)))
    | .object entries name :: stack, ',' =>
      .ok (some (stack, .name ((.str name, o) :: entries)))
    | .object entries name :: stack, '\x7d' =>
      .ok (some (stack, .afterValue (.ofPairs ((.str name, o) :: entries).reverse)))
    | _, _ => .ok none
  | .afterValue _, _ => .ok none

/-- Read lexemes to the end, where `next` may come next inside the open `stack`. -/
def read (stack : List Frame) (next : Next) : List (Lexeme × Nat) → Except Failure Object
  | [] =>
    match stack, next with
    | [], .afterValue o => .ok o
    | _, _ => .error ⟨next.missing stack, 0⟩
  | (lexeme, left) :: rest =>
    match step stack next lexeme with
    | .ok (some (stack, next)) => read stack next rest
    | .ok none => .error ⟨next.missing stack, left⟩
    | .error failure => .error failure

/-- The object that a document denotes. -/
def parse (text : String) : Except Failure Object :=
  if text.toList.head? = some '\ufeff' then .error ⟨.byteOrderMark, text.length⟩
  else read [] .value (lexemes text.toList)

/-! ## Errors -/

/-- Why a document gives no environment. -/
inductive Error where
  | malformed (source : String) (failure : Failure)
  | host (error : Host.Error)

def Cause.message : Cause → String
  | expectedValue => "Expecting value"
  | expectedName => "Expecting property name enclosed in double quotes"
  | expectedColon => "Expecting ':' delimiter"
  | expectedComma => "Expecting ',' delimiter"
  | unterminated => "Unterminated string starting at"
  | controlCharacter => "Invalid control character at"
  | badEscape => "Invalid \\escape"
  | badUnicode => "Invalid \\uXXXX escape"
  | extraData => "Extra data"
  | byteOrderMark => "Unexpected UTF-8 BOM (decode using utf-8-sig)"
  | tooManyDigits count => (Atom.Error.tooManyDigits count).message

/-- A place as line, column and offset. -/
def placeText (source : String) (left : Nat) : String :=
  let before := source.toList.take (source.length - left)
  let line := 1 + before.count '\n'
  let column := 1 + (before.reverse.takeWhile (· != '\n')).length
  "line " ++ toString line ++ " column " ++ toString column ++
    " (char " ++ toString before.length ++ ")"

def Error.message : Error → String
  | malformed source failure =>
    match failure.cause with
    | .tooManyDigits _ => failure.cause.message
    | cause => cause.message ++ ": " ++ placeText source failure.left
  | host error => error.message

/-- The environment of a document, which has to be an object. -/
def environment (source : String) : Journaled (Except Error Environment) :=
  match parse source with
  | .error failure => pure (.error (.malformed source failure))
  | .ok (.dict entries) => return (← Host.environmentOf entries).mapError .host
  | .ok o => pure (.error (.host (.notADocument o)))

end FuzzyRules.Document
