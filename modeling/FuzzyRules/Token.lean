import FuzzyRules.Text.Blank

/-!
# Tokens

Program text is words and parentheses; blanks only separate. A word is a maximal run of
characters that are neither blank nor a parenthesis, so every text has exactly one
reading as tokens.
-/

namespace FuzzyRules

namespace Token

/-- The kinds of tokens. Lexing makes no `blank` token, but a host may. -/
inductive Kind where
  | blank
  | atom
  | opening
  | closing
  deriving DecidableEq

end Token

/-- A piece of program text. -/
structure Token where
  kind : Token.Kind
  text : String
  deriving DecidableEq

namespace Token

def openParen : Token := ⟨.opening, "("⟩

def closeParen : Token := ⟨.closing, ")"⟩

/-- Put the word collected so far, if any, on top of the finished tokens. Both lists are
in reverse. -/
def endWord (done : List Token) : List Char → List Token
  | [] => done
  | word => ⟨.atom, String.ofList word.reverse⟩ :: done

/-- The tokens of the remaining text, after the finished tokens `done` and the beginning
of a word, both in reverse. -/
def scan (done : List Token) (word : List Char) : List Char → List Token
  | [] => (endWord done word).reverse
  | c :: rest =>
    if Text.isBlank c then scan (endWord done word) [] rest
    else if c = '(' then scan (openParen :: endWord done word) [] rest
    else if c = ')' then scan (closeParen :: endWord done word) [] rest
    else scan done (c :: word) rest

/-- The tokens of a program text, in order. -/
def tokenize (source : String) : List Token := scan [] [] source.toList

/-- What the first `count` requests for a next token give; past the end nothing comes. -/
def pull (tokens : List Token) (count : Nat) : List (Option Token) :=
  (List.range count).map (tokens[·]?)

end Token

end FuzzyRules
