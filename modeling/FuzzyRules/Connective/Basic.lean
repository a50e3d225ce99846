/-!
# Connectives

The connectives of two-valued logic, on booleans, and of graded logic, on numbers: the
negations, the conjunctions and disjunctions of any number of operands, the choice
between two programs, and the degree to which values belong to a fuzzy set.
-/

namespace FuzzyRules

/-- The connectives of the two logics. -/
inductive Connective where
  | negation
  | conjunction
  | disjunction
  | conditional
  | complement
  | minimum
  | maximum
  | membership
  deriving DecidableEq

namespace Connective

/-- The name by which programs call a connective. -/
def name : Connective → String
  | negation => "not"
  | conjunction => "and"
  | disjunction => "or"
  | conditional => "if"
  | complement => "fnot"
  | minimum => "fand"
  | maximum => "for"
  | membership => "feq"

/-- The connectives of two-valued logic. -/
def classical : List Connective := [negation, conjunction, disjunction, conditional]

/-- The connectives of graded logic. -/
def graded : List Connective := [complement, minimum, maximum, membership]

/-- The number of operands, as it is put in a complaint. -/
def arityText : Connective → String
  | negation | complement => "one param"
  | conjunction | disjunction | minimum | maximum => "at least one param"
  | conditional => "3 param"
  | membership => "at least two params"

/-- The operands, as they are put in a complaint. -/
def operandText : Connective → String
  | negation | conjunction | disjunction => "bool param"
  | conditional => "bool param in condition"
  | complement | minimum | maximum => "float param"
  | membership => "fuzzy set param"

end Connective

end FuzzyRules
