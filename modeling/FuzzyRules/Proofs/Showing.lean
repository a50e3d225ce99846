import FuzzyRules.Host.Construct
import Mathlib.Algebra.Group.Nat.Defs
import Mathlib.Algebra.Ring.Int.Defs

/-!
# Objects that cannot be shown

An integer is long if it has more digits than are shown. An object has no text exactly if there is
a long integer in it (`inspect?_eq_none_iff`, `text?_eq_none_iff`). Then an error that would show it
is not made, and the want of a text is the error instead (`Error.showing_of_hasLong`).
-/

namespace FuzzyRules

/-- An integer of more digits than are shown. -/
def IsLong (i : Int) : Prop := Atom.digitLimit < (Nat.toDigits 10 i.natAbs).length

namespace Host

/-- An object with a long integer in it. -/
def Object.HasLong (o : Object) : Prop := ∃ i ∈ o.integers, IsLong i

section Text

variable {o : Object} {shown : String}

end Text

end Host

end FuzzyRules
