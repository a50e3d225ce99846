import FuzzyRules.Table

/-!
# Objects of a host

A host program that embeds the library is dynamically typed: it may hand over any of its
objects where a value, a name or a handler is expected. This module has those objects,
the names of their kinds and their texts: `text?` shows an object plainly, `inspect?` so
that it can be told from all others. There is no text with an integer that is not shown.
-/

namespace FuzzyRules.Host

/-- An object of the host. A dictionary is the list of its entries, in order. A function
is known by its text, which says where it is. -/
inductive Object where
  | null
  | bool (truth : Bool)
  | int (number : Int)
  | float (number : Double)
  | str (text : String)
  | list (items : List Object)
  | dict (entries : List (Object × Object))
  | value (v : Value)
  | member (m : Weighted Value)
  | failure (message : String)
  | function (h : Handler) (shown : String)

namespace Object

/-- The name of an object's kind. -/
def kindName : Object → String
  | null => "NoneType"
  | bool _ => "bool"
  | int _ => "int"
  | float _ => "float"
  | str _ => "str"
  | list _ => "list"
  | dict _ => "dict"
  | value _ => "Value"
  | member _ => "FuzzyElement"
  | failure _ => "ValueError"
  | function _ _ => "function"

mutual

/-- An object with its kind apparent, also where it is too long to be shown. -/
def spelling : Object → String
  | null => "None"
  | bool b => truthText b
  | int i => toString i
  | float x => x.text
  | str s => Text.quoted s
  | list items => "[" ++ ", ".intercalate (spellings items) ++ "]"
  | dict entries => "\x7b" ++ ", ".intercalate (entrySpellings entries) ++ "\x7d"
  | value v => v.inspect
  | member m => m.inspect
  | failure message => "ValueError(" ++ Text.quoted message ++ ")"
  | function _ shown => shown

def spellings : List Object → List String
  | [] => []
  | o :: rest => spelling o :: spellings rest

/-- Each entry as `key: value`. -/
def entrySpellings : List (Object × Object) → List String
  | [] => []
  | (key, v) :: rest => (spelling key ++ ": " ++ spelling v) :: entrySpellings rest

end

mutual

/-- The integers anywhere in an object. -/
def integers : Object → List Int
  | int i => [i]
  | list items => integersAll items
  | dict entries => integersOf entries
  | value v => v.integers
  | member m => m.value.integers
  | _ => []

def integersAll : List Object → List Int
  | [] => []
  | o :: rest => integers o ++ integersAll rest

def integersOf : List (Object × Object) → List Int
  | [] => []
  | (key, v) :: rest => integers key ++ (integers v ++ integersOf rest)

end

/-- An object with its kind apparent, if all integers inside are shown. -/
def inspect? (o : Object) : Option String :=
  if o.integers.all isShowable then some o.spelling else none

/-- An object as plain text, if it has one. -/
def text? : Object → Option String
  | str s => some s
  | value v => v.text?
  | failure message => some message
  | o => o.inspect?

/-- Lists and dictionaries can change, so they are never keys. -/
def isHashable : Object → Bool
  | list _ => false
  | dict _ => false
  | _ => true

/-- The integer that an object is, truth values being zero and one. -/
def asInt? : Object → Option Int
  | bool b => some (if b then 1 else 0)
  | int i => some i
  | _ => none

/-- Whether two objects are the same key: numbers of all kinds by their value, texts,
values and members by their content, and a function as itself. -/
def sameKey : Object → Object → Bool
  | null, null => true
  | str s, str t => s == t
  | value v, value w => v.isEqual w
  | member m, member n => m.weight.agrees n.weight && m.value.isEqual n.value
  | function _ shown, function _ shown' => shown == shown'
  | float x, float y => x.agrees y
  | float x, o => o.asInt?.any x.isInt
  | o, float x => o.asInt?.any x.isInt
  | o, p =>
    match o.asInt?, p.asInt? with
    | some i, some j => i == j
    | _, _ => false

/-! ## Dictionaries -/

/-- Set a key in a list of entries: the first occurrence of a key keeps its place and
its spelling. -/
def insertEntry (entries : List (Object × Object)) (key v : Object) : List (Object × Object) :=
  match entries with
  | [] => [(key, v)]
  | (k, w) :: rest => if sameKey k key then (k, v) :: rest else (k, w) :: insertEntry rest key v

/-- The entries of a dictionary made from pairs: a repeated key stays in its first place
and takes its last value. -/
def collapse (pairs : List (Object × Object)) : List (Object × Object) :=
  pairs.foldl (fun entries pair => insertEntry entries pair.1 pair.2) []

/-- The dictionary made from pairs. -/
def ofPairs (pairs : List (Object × Object)) : Object := dict (collapse pairs)

end Object

end FuzzyRules.Host
