import FuzzyRules.Host.Error

/-!
# Environments and tables from host objects

A host binds names to values and registers handlers. Both refuse keys that are no text,
and things of the wrong kind. Binding several names stops at the first refusal and keeps
what was bound before it; a table is made whole or not at all.
-/

namespace FuzzyRules

open Host (Object)

namespace OrderedMap

/-- What an object is bound to as a key; only texts can be bound. -/
def getObject {α : Type} (m : OrderedMap α) (key : Object) : Except Host.Error (Option α) :=
  match key with
  | .str name => .ok (m.get? name)
  | _ => if key.isHashable then .ok none else .error (.notHashable key)

/-- Whether an object is bound as a key. -/
def containsObject {α : Type} (m : OrderedMap α) (key : Object) : Except Host.Error Bool :=
  (m.getObject key).map Option.isSome

end OrderedMap

namespace Environment

/-- Bind a key to a value. -/
def define (env : Environment) (key v : Object) : Except Host.Error Environment :=
  match key, v with
  | .str name, .value v => .ok (env.insert name v)
  | .str name, o => .error (.showing o (.unboundable name))
  | key, _ => .error (.showing key .invalidKey)

/-- Bind the entries of a dictionary in order, up to the first refusal. -/
def update (env : Environment) : List (Object × Object) → Except Host.Error Unit × Environment
  | [] => (.ok (), env)
  | (key, v) :: rest =>
    match env.define key v with
    | .ok env => update env rest
    | .error error => (.error error, env)

/-- The environment that a dictionary starts with. It is empty if an entry is refused. -/
def start (entries : List (Object × Object)) : Except Host.Error Unit × Environment :=
  match update .empty entries with
  | (.ok (), env) => (.ok (), env)
  | (.error error, _) => (.error error, .empty)

end Environment

namespace Table

/-- Register the entries of a dictionary in order. -/
def register (table : Table) : List (Object × Object) → Except Host.Error Table
  | [] => .ok table
  | (.str name, .function h _) :: rest => register (table.insert name h) rest
  | (.str name, _) :: _ => .error (.notCallable name)
  | (key, _) :: _ => .error (.showing key .invalidName)

/-- The table with the entries of a dictionary. -/
def ofObjects (entries : List (Object × Object)) : Except Host.Error Table :=
  register .empty entries

/-- The entries of a table as objects of the host; its functions are shown by their names. -/
def toObjects (table : Table) : List (Object × Object) :=
  table.entries.map fun (name, h) => (.str name, .function h name)

/-- The table with the entries of a dictionary added; they count where names clash. The
merged entries are checked in order. -/
def withObjects (table : Table) (entries : List (Object × Object)) : Except Host.Error Table :=
  ofObjects (Object.collapse (table.toObjects ++ entries))

/-- The union with a table; no other object can be joined to a table. -/
def join (table : Table) : Table ⊕ Object → Except Host.Error Table
  | .inl other => .ok (table.union other)
  | .inr o => .error (.notATable o)

end Table

end FuzzyRules
