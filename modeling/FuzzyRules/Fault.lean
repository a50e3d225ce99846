import FuzzyRules.Connective.Basic
import FuzzyRules.Value.Basic

/-!
# Faults of evaluation

Why an evaluation fails. A fault is a normal result, the error value with its message.
-/

namespace FuzzyRules

/-- Why an evaluation fails. -/
inductive Fault where
  | noFunctionName
  | unknownFunction (name : String)
  | arity (c : Connective)
  | operand (c : Connective)
  | lookupArity
  | lookupKey
  | unboundKey (name : String)
  | tooDeep (depth : Nat) (limit : Int)

namespace Fault

def message : Fault → String
  | noFunctionName => "expression without function name"
  | unknownFunction name => "function " ++ name ++ " not found"
  | arity c => "Function `" ++ c.name ++ "' required " ++ c.arityText
  | operand c => "Function `" ++ c.name ++ "' expect " ++ c.operandText
  | lookupArity => "Function `env' expect 1 param"
  | lookupKey => "Function `env' expect 1 param is string"
  | unboundKey name => "Environment key `" ++ name ++ "' not found"
  | tooDeep depth limit =>
    "expression depth " ++ toString depth ++ " exceeds limit " ++ toString limit

/-- The error value of a fault. -/
def value (fault : Fault) : Value := .error fault.message

end Fault

end FuzzyRules
