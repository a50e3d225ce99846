import FuzzyRules.Text.Quoted
import FuzzyRules.Value.Text

/-!
# The journal of a computation

What a computation does besides giving a result is returned as data: a list of events in
the order in which they happen. An event is a line written by a tracing handler or a
debug note of the library itself.
-/

namespace FuzzyRules

/-- A debug note of the library. -/
inductive Note where
  | parsed (source : String) (program : Value)
  | applied (name : String) (count : Nat)
  | unknownFunction (name : String)
  | unboundKey (name : String)
  | skippedKey (key kind : String)

namespace Note

/-- The channel on which a note is logged. -/
def channel : Note → String
  | parsed _ _ => "fuzzlisp.reader.parser"
  | applied _ _ => "fuzzlisp.evaluation.evaluator"
  | unknownFunction _ => "fuzzlisp.evaluation.evaluator"
  | unboundKey _ => "fuzzlisp.evaluation.special_forms.env_form"
  | skippedKey _ _ => "fuzzlisp.adapters.json_env"

def text : Note → String
  | parsed source program => "parsed " ++ Text.quoted source ++ " -> " ++ program.render
  | applied name count => "apply " ++ name ++ " to " ++ toString count ++ " args"
  | unknownFunction name => "function " ++ Text.quoted name ++ " not found"
  | unboundKey name => "env: key " ++ Text.quoted name ++ " not found"
  | skippedKey key kind => "skipping key " ++ key ++ ": unsupported " ++ kind

end Note

/-- Something that a computation did. -/
inductive Event where
  | trace (line : String)
  | note (note : Note)

namespace Event

def trace? : Event → Option String
  | trace line => some line
  | note _ => none

def note? : Event → Option Note
  | trace _ => none
  | note n => some n

end Event

/-- A result together with what was done on the way to it. -/
structure Journaled (α : Type) where
  result : α
  events : List Event

namespace Journaled

variable {α β : Type}

instance : Monad Journaled where
  pure a := ⟨a, []⟩
  bind m f :=
    let next := f m.result
    ⟨next.result, m.events ++ next.events⟩

@[simp] theorem result_pure (a : α) : (pure a : Journaled α).result = a := rfl

@[simp] theorem events_pure (a : α) : (pure a : Journaled α).events = [] := rfl

@[simp] theorem result_bind (m : Journaled α) (f : α → Journaled β) :
    (m >>= f).result = (f m.result).result := rfl

@[simp] theorem events_bind (m : Journaled α) (f : α → Journaled β) :
    (m >>= f).events = m.events ++ (f m.result).events := rfl

/-- What follows a computation matters at its result only. -/
theorem bind_congr_result {m : Journaled α} {f g : α → Journaled β} (h : f m.result = g m.result) :
    m >>= f = m >>= g := by
  show Journaled.mk (f m.result).result (m.events ++ (f m.result).events) = _
  rw [h]
  rfl

/-- Do one thing, with no result. -/
def emit (event : Event) : Journaled Unit := ⟨(), [event]⟩

/-- The lines of the tracing handlers. -/
def traceLines (m : Journaled α) : List String := m.events.filterMap Event.trace?

@[simp] theorem traceLines_pure (a : α) : (pure a : Journaled α).traceLines = [] := rfl

@[simp] theorem traceLines_bind (m : Journaled α) (f : α → Journaled β) :
    (m >>= f).traceLines = m.traceLines ++ (f m.result).traceLines :=
  List.filterMap_append

/-- The debug notes. -/
def notes (m : Journaled α) : List Note := m.events.filterMap Event.note?

end Journaled

end FuzzyRules
