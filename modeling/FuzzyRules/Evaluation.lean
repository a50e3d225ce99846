import FuzzyRules.Table

/-!
# Evaluation

A leaf evaluates to itself. An expression is a call: its first item names the function
and the others are the arguments. The name `env` always looks up the environment; every
other name is looked up in the table.

The meaning of a call is built from the meanings of its arguments, which the handler
runs or leaves alone; results are never evaluated again.
-/

namespace FuzzyRules

/-- The name that always looks up the environment. -/
def lookupName : String := "env"

/-- Look a key up in an environment. -/
def lookupKey (env : Environment) : Value → Journaled Value
  | .str name =>
    match env.get? name with
    | some v => pure v
    | none => do
      Journaled.emit (.note (.unboundKey name))
      pure (Fault.unboundKey name).value
  | _ => pure Fault.lookupKey.value

/-- Look up the key that the one argument is, or evaluates to if it is an expression. -/
def lookup (env : Environment) : List Argument → Journaled Value
  | [a] =>
    match a.program with
    | .expr _ => do
      match ← a.run () with
      | .error message => pure (.error message)
      | key => lookupKey env key
    | key => lookupKey env key
  | _ => pure Fault.lookupArity.value

/-- Call a function by name. -/
def callNamed (table : Table) (env : Environment) (name : String) (args : List Argument) :
    Journaled Value :=
  if name = lookupName then lookup env args
  else
    match table.get? name with
    | none => do
      Journaled.emit (.note (.unknownFunction name))
      pure (Fault.unknownFunction name).value
    | some handler => do
      Journaled.emit (.note (.applied name args.length))
      handler.call table args

mutual

/-- Evaluate a program. -/
def evaluate (table : Table) (env : Environment) : Value → Journaled Value
  | .expr [] => pure Fault.noFunctionName.value
  | .expr (head :: args) => callNamed table env head.asString (arguments table env args)
  | v => pure v

/-- Programs as arguments, each with its evaluation. -/
def arguments (table : Table) (env : Environment) : List Value → List Argument
  | [] => []
  | v :: rest => ⟨v, fun _ => evaluate table env v⟩ :: arguments table env rest

end

end FuzzyRules
