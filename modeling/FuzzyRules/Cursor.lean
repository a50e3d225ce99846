import FuzzyRules.Atom
import FuzzyRules.Token

/-!
# Reading forms from tokens

A form is a lone word or one list of words and lists. `readItems` reads a list with a
stack of the lists still open, one token at a time. A `Cursor` is a position in a
sequence of tokens from which forms are read one after the other.

A position may be negative: then it counts from the end of the sequence. Reading only
ever adds to the position, so that after the last token it goes on with the first one.
-/

namespace FuzzyRules

/-- Why tokens are no form. Positions are indices of tokens. -/
inductive ReadError where
  | noToken (position : Int)
  | unmatched (position : Int)
  | notOpening (found : String) (position : Int)
  | trailing (found : String) (position : Int)
  | atom (error : Atom.Error)
  | outOfRange
  deriving DecidableEq

namespace ReadError

def message : ReadError → String
  | noToken _ => "Unexpected end of expression"
  | unmatched _ => "Unmatched '('"
  | notOpening found _ => "Expected '(' but found " ++ Text.quoted found
  | trailing found _ => "Unexpected " ++ Text.quoted found ++ " after a complete expression"
  | atom error => error.message
  | outOfRange => "list index out of range"

/-- The position of the token at fault, for the errors that have one. -/
def position? : ReadError → Option Int
  | noToken position => some position
  | unmatched position => some position
  | notOpening _ position => some position
  | trailing _ position => some position
  | atom _ => none
  | outOfRange => none

end ReadError

/-- Why the items of a list cannot be read. -/
inductive ItemsError where
  | unmatched
  | atom (error : Atom.Error)

/-- Read the rest of a list whose items so far are `items`, inside the open lists
`outer`, innermost first; all of them hold their items in reverse. The result comes with
the tokens not consumed. -/
def readItems (items : List Value) (outer : List (List Value)) :
    List Token → Except ItemsError Value × List Token
  | [] => (.error .unmatched, [])
  | token :: rest =>
    match token.kind with
    | .closing =>
      match outer with
      | [] => (.ok (.expr items.reverse), rest)
      | above :: outer => readItems (.expr items.reverse :: above) outer rest
    | .opening => readItems [] (items :: outer) rest
    | _ =>
      match Atom.readAt items.isEmpty token.text with
      | .ok v => readItems (v :: items) outer rest
      | .error error => (.error (.atom error), rest)

/-- A position in a sequence of tokens. -/
structure Cursor where
  tokens : Array Token
  position : Int

namespace Cursor

/-- The token at a position; a negative position counts from the end. -/
def tokenAt? (tokens : Array Token) (position : Int) : Option Token :=
  if 0 ≤ position then tokens[position.toNat]?
  else if 0 ≤ position + tokens.size then tokens[(position + tokens.size).toNat]?
  else none

/-- The tokens at all positions from here to the end; `none` if the position lies before
the first token. -/
def ahead? (c : Cursor) : Option (List Token) :=
  if c.position < -(c.tokens.size : Int) then none
  else
    some ((List.range (c.tokens.size - c.position).toNat).filterMap fun (i : Nat) =>
      tokenAt? c.tokens (c.position + i))

/-- Move on by `count` tokens. -/
def move (c : Cursor) (count : Nat) : Cursor := { c with position := c.position + count }

/-- The token at the position, if the end is not reached. -/
def peek (c : Cursor) : Except ReadError (Option Token) :=
  if c.position < c.tokens.size then
    match tokenAt? c.tokens c.position with
    | some token => .ok (some token)
    | none => .error .outOfRange
  else .ok none

/-- The token at the position, and the cursor past it; the end is not passed. -/
def advance (c : Cursor) : Except ReadError (Option Token) × Cursor :=
  match c.peek with
  | .ok (some token) => (.ok (some token), c.move 1)
  | result => (result, c)

/-- Read a list whose opening token is at the position; that token is skipped without
being looked at. The cursor ends after the last token consumed, also on failure. -/
def readList (c : Cursor) : Except ReadError Value × Cursor :=
  match c.ahead? with
  | none => (.error .outOfRange, c)
  | some tokens =>
    let (result, rest) := readItems [] [] tokens.tail
    let stop := c.move (tokens.length - rest.length)
    match result with
    | .ok v => (.ok v, stop)
    | .error .unmatched => (.error (.unmatched stop.position), stop)
    | .error (.atom error) => (.error (.atom error), stop)

/-- Read one form: a list, or a word if it is the only token of the whole sequence. -/
def readForm (c : Cursor) : Except ReadError Value × Cursor :=
  match c.peek with
  | .error error => (.error error, c)
  | .ok none => (.error (.noToken c.position), c)
  | .ok (some token) =>
    if token.kind = .atom ∧ c.tokens.size = 1 then
      ((Atom.read token.text).mapError .atom, c.move 1)
    else if token.kind = .opening then c.readList
    else (.error (.notOpening token.text c.position), c)

end Cursor

/-- Read one form of a sequence of tokens from `start` on, and the position after it. -/
def readFormAt (tokens : List Token) (start : Int) : Except ReadError (Value × Int) :=
  let (result, stop) := Cursor.readForm ⟨tokens.toArray, start⟩
  result.map (·, stop.position)

/-- Read all tokens as one form. -/
def readTokens (tokens : List Token) : Except ReadError Value :=
  match readFormAt tokens 0 with
  | .error error => .error error
  | .ok (v, stop) =>
    match tokens[stop.toNat]? with
    | some token => .error (.trailing token.text stop)
    | none => .ok v

/-- Read a program text, which is one form. -/
def readProgram (source : String) : Except ReadError Value := readTokens (Token.tokenize source)

end FuzzyRules
