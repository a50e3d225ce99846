import FuzzyRules.Atom
import FuzzyRules.Host.Object

/-!
# Lexemes of JSON documents

A document is cut into punctuation, texts, numbers and words. Where no lexeme can be
read, a broken one with the reason ends the list; whether the reason is reported is for
the reader of the document to decide, since what stands there may be out of place anyway.

A place in a document is given by the number of characters left from there on.
-/

namespace FuzzyRules.Document

open Host (Object)

/-- Why a document cannot be read. -/
inductive Cause where
  | expectedValue
  | expectedName
  | expectedColon
  | expectedComma
  | unterminated
  | controlCharacter
  | badEscape
  | badUnicode
  | extraData
  | byteOrderMark
  | tooManyDigits (count : Nat)
  deriving DecidableEq

/-- A cause at a place, given by the number of characters left. -/
structure Failure where
  cause : Cause
  left : Nat

/-- A piece of a document. A broken text is told from other broken lexemes, since it can
also stand for a name. -/
inductive Lexeme where
  | mark (c : Char)
  | text (s : String)
  | scalar (o : Object)
  | brokenText (failure : Failure)
  | broken (failure : Failure)

/-! ## Texts -/

/-- The code that four hexadecimal digits at the start of a text denote. -/
def fourHex? (cs : List Char) : Option Nat :=
  let digits := cs.take 4
  if digits.length = 4 && digits.all Literal.isHexDigit then some (Literal.ofDigits 16 digits)
  else none

def isHighSurrogate (code : Nat) : Bool := 0xD800 ≤ code && code ≤ 0xDBFF

def isLowSurrogate (code : Nat) : Bool := 0xDC00 ≤ code && code ≤ 0xDFFF

/-- The character of a code; a surrogate alone is shown as a replacement character. -/
def charOf (code : Nat) : Char :=
  if 0xD800 ≤ code && code ≤ 0xDFFF then '\ufffd' else Char.ofNat code

/-- Read the digits of an escape `u`: the character, and how many characters to skip
after the `u`. A pair of escapes for two surrogates is one character. Some character has
to follow the digits of an escape. -/
def unicodeEscape (cs : List Char) : Except Failure (Char × Nat) :=
  match if cs.length < 5 then none else fourHex? cs with
  | none => .error ⟨.badUnicode, cs.length + 1⟩
  | some high =>
    match cs.drop 4 with
    | '\\' :: 'u' :: rest =>
      if isHighSurrogate high && 5 ≤ rest.length then
        match fourHex? rest with
        | none => .error ⟨.badUnicode, rest.length + 1⟩
        | some low =>
          if isLowSurrogate low then
            .ok (Char.ofNat (0x10000 + (high - 0xD800) * 0x400 + (low - 0xDC00)), 10)
          else .ok (charOf high, 4)
      else .ok (charOf high, 4)
    | _ => .ok (charOf high, 4)

/-- The character that an escape of one letter stands for. -/
def letterEscape? : Char → Option Char
  | '\x22' => some '\x22'
  | '\\' => some '\\'
  | '/' => some '/'
  | 'b' => some '\x08'
  | 'f' => some '\x0c'
  | 'n' => some '\n'
  | 'r' => some '\r'
  | 't' => some '\t'
  | _ => none

/-- Read a text after its opening quote, which stands where `opening` characters are
left; `done` holds the characters read, in reverse. -/
def readText (opening : Nat) (done : List Char) : List Char → Except Failure (String × List Char)
  | [] => .error ⟨.unterminated, opening⟩
  | '\x22' :: rest => .ok (String.ofList done.reverse, rest)
  | ['\\'] => .error ⟨.unterminated, opening⟩
  | '\\' :: 'u' :: rest =>
    match unicodeEscape rest with
    | .ok (c, skip) => readText opening (c :: done) (rest.drop skip)
    | .error failure => .error failure
  | '\\' :: letter :: rest =>
    match letterEscape? letter with
    | some c => readText opening (c :: done) rest
    | none => .error ⟨.badEscape, rest.length + 2⟩
  | c :: rest =>
    if c.toNat < 0x20 then .error ⟨.controlCharacter, rest.length + 1⟩
    else readText opening (c :: done) rest
termination_by cs => cs.length
decreasing_by all_goals simp_wf; try omega

/-- What is left after a text is shorter than what was there. -/
theorem length_of_readText {opening : Nat} {done cs : List Char} {s : String} {rest : List Char}
    (h : readText opening done cs = .ok (s, rest)) : rest.length < cs.length := by
  fun_induction readText opening done cs with
  | case1 | case3 | case5 | case7 | case8 => simp_all
  | case2 => simp_all
  | case4 _ _ _ _ _ ih =>
    have := ih h
    simp only [List.length_drop] at this
    simp only [List.length_cons]
    omega
  | case6 => rename_i ih; have := ih h; simp only [List.length_cons]; omega
  | case9 => rename_i ih; have := ih h; simp only [List.length_cons]; omega

/-! ## Numbers and words -/

/-- The length of the whole part at the start of a number: one zero, or digits that do
not start with it. -/
def wholeLength? : List Char → Option Nat
  | '0' :: _ => some 1
  | c :: rest =>
    if Literal.isDigit c then some (1 + (rest.takeWhile Literal.isDigit).length) else none
  | [] => none

/-- The length of a point and the digits after it, if there are any. -/
def fractionLength : List Char → Nat
  | '.' :: rest =>
    let digits := rest.takeWhile Literal.isDigit
    if digits.isEmpty then 0 else 1 + digits.length
  | _ => 0

/-- The length of an exponent, if there is a complete one. -/
def exponentLength : List Char → Nat
  | mark :: rest =>
    if mark = 'e' || mark = 'E' then
      let signLength := match rest with
        | '+' :: _ => 1
        | '-' :: _ => 1
        | _ => 0
      let digits := (rest.drop signLength).takeWhile Literal.isDigit
      if digits.isEmpty then 0 else 1 + signLength + digits.length
    else 0
  | [] => 0

/-- The longest number at the start of a text, and its length. Without a point and an
exponent it is an integer. -/
def number? (cs : List Char) : Option (Except Cause Object × Nat) :=
  let signLength := match cs with
    | '-' :: _ => 1
    | _ => 0
  match wholeLength? (cs.drop signLength) with
  | none => none
  | some count =>
    let whole := signLength + count
    let pointed := whole + fractionLength (cs.drop whole)
    let size := pointed + exponentLength (cs.drop pointed)
    let spelling := cs.take size
    if size = whole then
      if Atom.digitLimit < count then some (.error (.tooManyDigits count), size)
      else some (.ok (.int ((Literal.integer? spelling).getD 0)), size)
    else some (.ok (.float ((Literal.decimal? spelling).getD (.nan none))), size)

/-- The words of documents and what they stand for. -/
def words : List (String × Object) :=
  [("null", .null), ("true", .bool true), ("false", .bool false), ("NaN", .float (.nan none)),
    ("Infinity", .float (.signed false .infinite)), ("-Infinity", .float (.signed true .infinite))]

/-- The word at the start of a text, and its length. -/
def word? (cs : List Char) : Option (Object × Nat) :=
  (words.find? fun (name, _) => name.toList.isPrefixOf cs).map fun (name, o) => (o, name.length)

def isBlank (c : Char) : Bool := c = ' ' || c = '\t' || c = '\n' || c = '\r'

def isMark (c : Char) : Bool :=
  c = '\x7b' || c = '\x7d' || c = '[' || c = ']' || c = ':' || c = ','

/-- The lexemes of a text, each with the number of characters left from its start. -/
def lexemes : List Char → List (Lexeme × Nat)
  | [] => []
  | c :: rest =>
    let left := rest.length + 1
    if isBlank c then lexemes rest
    else if isMark c then (.mark c, left) :: lexemes rest
    else if c = '\x22' then
      match h : readText left [] rest with
      | .ok (s, after) =>
        have := length_of_readText h
        (.text s, left) :: lexemes after
      | .error failure => [(.brokenText failure, left)]
    else
      match word? (c :: rest) with
      | some (o, size) => (.scalar o, left) :: lexemes (rest.drop (size - 1))
      | none =>
        match number? (c :: rest) with
        | some (.ok o, size) => (.scalar o, left) :: lexemes (rest.drop (size - 1))
        | some (.error cause, _) => [(.broken ⟨cause, left⟩, left)]
        | none => [(.broken ⟨.expectedValue, left⟩, left)]
termination_by cs => cs.length
decreasing_by
  · simp
  · simp
  · simp only [List.length_cons]
    omega
  · simp only [List.length_drop, List.length_cons]
    omega
  · simp only [List.length_drop, List.length_cons]
    omega

end FuzzyRules.Document
