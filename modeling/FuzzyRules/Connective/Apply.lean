import FuzzyRules.Fault
import FuzzyRules.FuzzySet
import FuzzyRules.Journal

/-!
# Connectives on unevaluated arguments

A connective receives its arguments unevaluated and runs those it needs, from left to
right. An argument that fails ends the whole with its error; one of the wrong kind ends
it with the connective's complaint.

`and` and `or` stop at the first decisive operand, `if` runs one of its branches only,
and `fand` and `for` run all their operands.
-/

namespace FuzzyRules

/-- An argument of a call: the program, and its evaluation when it is asked for. -/
structure Argument where
  program : Value
  run : Unit → Journaled Value

namespace Connective

/-- Run an argument and go on with its truth value. -/
def onBool (c : Connective) (a : Argument) (next : Bool → Journaled Value) : Journaled Value := do
  match ← a.run () with
  | .bool b => next b
  | .error message => pure (.error message)
  | _ => pure (Fault.operand c).value

/-- Run an argument and go on with its number. -/
def onFloat (c : Connective) (a : Argument) (next : Double → Journaled Value) :
    Journaled Value := do
  match ← a.run () with
  | .float x => next x
  | .error message => pure (.error message)
  | _ => pure (Fault.operand c).value

/-- Run truth values until one is `decisive`, which is then the result; if none is, the
result is the other one. -/
def untilDecisive (c : Connective) (decisive : Bool) : List Argument → Journaled Value
  | [] => pure (.bool (!decisive))
  | a :: rest => onBool c a fun b =>
    if b = decisive then pure (.bool decisive) else untilDecisive c decisive rest

/-- Run all numbers and combine them, from `x` on. -/
def combine (c : Connective) (op : Double → Double → Double) (x : Double) :
    List Argument → Journaled Value
  | [] => pure (.float x)
  | a :: rest => onFloat c a fun y => combine c op (op x y) rest

/-- Run all arguments up to the first error: their results, or that error. -/
def runAll : List Argument → Journaled (Except String (List Value))
  | [] => pure (.ok [])
  | a :: rest => do
    match ← a.run () with
    | .error message => pure (.error message)
    | v => return (← runAll rest).map (v :: ·)

/-- Run a set and then values: how far the values, together, belong to the set. -/
def membershipOf (set : Argument) (values : List Argument) : Journaled Value := do
  match ← set.run () with
  | .fuzzy members =>
    match ← runAll values with
    | .ok found => pure (.float (FuzzySet.membershipSum members found))
    | .error message => pure (.error message)
  | .error message => pure (.error message)
  | _ => pure (Fault.operand .membership).value

/-- Apply a connective to its arguments. -/
def apply (c : Connective) (args : List Argument) : Journaled Value :=
  match c, args with
  | .negation, [a] => onBool c a fun b => pure (.bool (!b))
  | .conjunction, _ :: _ => untilDecisive c false args
  | .disjunction, _ :: _ => untilDecisive c true args
  | .conditional, [test, yes, no] => onBool c test fun b => if b then yes.run () else no.run ()
  | .complement, [a] => onFloat c a fun x => pure (.float (Double.one.sub x))
  | .minimum, _ :: _ => combine c .lower .one args
  | .maximum, _ :: _ => combine c .upper .zero args
  | .membership, set :: v :: rest => membershipOf set (v :: rest)
  | c, _ => pure (Fault.arity c).value

end Connective

end FuzzyRules
