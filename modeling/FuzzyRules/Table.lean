import FuzzyRules.Connective.Apply
import FuzzyRules.OrderedMap

/-!
# Handlers and tables

A table maps names to handlers. Besides the connectives a host can register handlers of
its own: constants, handlers that look at their arguments without running them, one that
collects all results, one that lists the table, and one that writes a trace.
-/

namespace FuzzyRules

/-- What a call does. -/
inductive Handler where
  | connective (c : Connective)
  | const (v : Value)
  | count
  | quote
  | list
  | names
  | trace (label : String)

/-- Handlers by name. -/
abbrev Table := OrderedMap Handler

/-- Values by name. -/
abbrev Environment := OrderedMap Value

namespace Table

def ofConnectives (cs : List Connective) : Table :=
  .ofList (cs.map fun c => (c.name, .connective c))

/-- The table of two-valued logic. -/
def classical : Table := ofConnectives Connective.classical

/-- The table of graded logic. -/
def graded : Table := ofConnectives Connective.graded

/-- Both logics. -/
def standard : Table := classical.union graded

/-- The table with its names, sorted by code point. -/
def inspect (table : Table) : String :=
  let sorted := table.keys.mergeSort (fun a b => !decide (b < a))
  "<FunctionTable [" ++ ", ".intercalate (sorted.map Text.quoted) ++ "]>"

end Table

namespace Environment

/-- The bindings as text, in order. -/
def render (env : Environment) : String :=
  "\x7b" ++ ", ".intercalate (env.entries.map fun (key, v) => key ++ ": " ++ v.render) ++ "\x7d"

/-- The bindings as text, if all values have a text. -/
def text? (env : Environment) : Option String :=
  if env.entries.all fun (_, v) => v.integers.all isShowable then some (render env) else none

def inspect? (env : Environment) : Option String :=
  (text? env).map fun text => "<Environment " ++ text ++ ">"

end Environment

namespace Handler

/-- Run all arguments in order; errors are results like others. -/
def runEach : List Argument → Journaled (List Value)
  | [] => pure []
  | a :: rest => do return (← a.run ()) :: (← runEach rest)

/-- Call a handler of a table with its arguments. -/
def call (h : Handler) (table : Table) (args : List Argument) : Journaled Value :=
  match h with
  | connective c => c.apply args
  | const v => pure v
  | count => pure (.int args.length)
  | quote => pure (.expr (args.map (·.program)))
  | list => return .expr (← runEach args)
  | names => pure (.expr (table.keys.map .str))
  | trace label => do
    Journaled.emit (.trace (" ".intercalate (label :: args.map (·.program.render))))
    match args with
    | [] => pure (.bool true)
    | a :: _ => a.run ()

end Handler

end FuzzyRules
