import FuzzyRules.Value.Equality

/-!
# Fuzzy sets

A set may hold equal values several times; the first one decides the degree to which a
value belongs. Normalizing divides all weights by their sum.
-/

namespace FuzzyRules.FuzzySet

/-- The sum of the weights, from left to right. -/
def total (set : FuzzySet) : Double := Double.sum (set.map (·.weight))

/-- The set with weights divided by their total; a set of total zero stays as it is. -/
def normalize (set : FuzzySet) : FuzzySet :=
  let whole := total set
  if whole.numEq .zero then set
  else set.map fun member => { member with weight := member.weight.div whole }

/-- The set of the given members, normalized on demand. -/
def make (normalized : Bool) (members : FuzzySet) : FuzzySet :=
  if normalized then normalize members else members

/-- The weight of the first member equal to `v`, zero if there is none. -/
def membership (set : FuzzySet) (v : Value) : Double :=
  match set.find? (fun member => member.value.isEqual v) with
  | some member => member.weight
  | none => .zero

theorem membership_cons (member : Weighted Value) (rest : FuzzySet) (v : Value) :
    membership (member :: rest) v =
      if member.value.isEqual v then member.weight else membership rest v := by
  rw [membership, List.find?_cons]
  cases member.value.isEqual v <;> rfl

/-- The memberships of several values, summed in order. -/
def membershipSum (set : FuzzySet) (values : List Value) : Double :=
  Double.sum (values.map (membership set))

end FuzzyRules.FuzzySet
