import FuzzyRules.Host.Construct
import FuzzyRules.OrderedMap

/-!
# Environments from decoded documents

An entry of a decoded document becomes a binding: texts, truth values and numbers are
themselves, and a dictionary is the fuzzy set of its numeric entries. What has no form
as a value is skipped, with a note.
-/

namespace FuzzyRules.Host

/-- The member that an entry of a dictionary makes: numbers are weights, and truth values
are no numbers. The text of the key comes first. -/
def entryMember? : Object × Object → Except Error (Option (Weighted Value))
  | (key, .int i) => do
    let text ← key.toText
    return some ⟨.str text, ← toDouble i⟩
  | (key, .float x) => do return some ⟨.str (← key.toText), x.heldBy none⟩
  | _ => .ok none

/-- The members that the entries of a dictionary make, in order. -/
def entryMembers : List (Object × Object) → Except Error FuzzySet
  | [] => .ok []
  | entry :: rest => do
    let member ← entryMember? entry
    let members ← entryMembers rest
    return member.toList ++ members

/-- The value of a decoded object, if it has one. -/
def Object.toValue? : Object → Except Error (Option Value)
  | .bool b => .ok (some (.bool b))
  | .str s => .ok (some (.str s))
  | .int i => .ok (some (.int i))
  | .float x => .ok (some (.float (x.heldBy none)))
  | .dict entries => do return some (.fuzzy (FuzzySet.make false (← entryMembers entries)))
  | _ => .ok none

/-- Bind the entries of a decoded dictionary in order; keys are bound by their text. Of an
entry that is skipped, the text is needed for the note only. -/
def bindEntries (env : Environment) :
    List (Object × Object) → Journaled (Except Error Environment)
  | [] => pure (.ok env)
  | (key, o) :: rest =>
    match o.toValue? with
    | .error error => pure (.error error)
    | .ok (some v) =>
      match key.toText with
      | .error error => pure (.error error)
      | .ok name => bindEntries (env.insert name v) rest
    | .ok none => do
      if let some shown := key.inspect? then
        Journaled.emit (.note (.skippedKey shown o.kindName))
      bindEntries env rest

/-- The environment of a decoded dictionary. -/
def environmentOf (entries : List (Object × Object)) : Journaled (Except Error Environment) :=
  bindEntries .empty entries

end FuzzyRules.Host
