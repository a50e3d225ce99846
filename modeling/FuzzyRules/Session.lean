import FuzzyRules.Cursor
import FuzzyRules.Evaluation
import FuzzyRules.Settings
import FuzzyRules.Value.Depth

/-!
# Sessions

A session evaluates programs over a table and an environment, and refuses programs
nested deeper than its limit before evaluating anything. The limit is fixed when the
session starts.
-/

namespace FuzzyRules

/-- Read a program text, with a note of what was read. -/
def parse (source : String) : Journaled (Except ReadError Value) :=
  match readProgram source with
  | .ok program => do
    Journaled.emit (.note (.parsed source program))
    pure (.ok program)
  | .error error => pure (.error error)

/-- A table, an environment and a limit on depth. -/
structure Session where
  table : Table
  env : Environment
  maxDepth? : Option Int

namespace Session

/-- Start a session. A limit given here counts before the one in the settings, and a
limit that is not positive is none. -/
def start (settings : Settings) (table : Table) (env : Environment) (limit : Option Int) :
    Session :=
  ⟨table, env,
    match limit with
    | some n => if 0 < n then some n else none
    | none => settings.maxDepth?⟩

/-- What evaluates programs over a table and an environment. -/
abbrev Evaluator := Table → Environment → Value → Journaled Value

/-- Evaluate a program with the given evaluator unless it is too deep. -/
def runWith (evaluator : Evaluator) (session : Session) (program : Value) : Journaled Value :=
  match session.maxDepth? with
  | some limit =>
    if program.depthExceeds limit then pure (Fault.tooDeep program.depth limit).value
    else evaluator session.table session.env program
  | none => evaluator session.table session.env program

/-- Read a program text and evaluate it with the given evaluator. -/
def evalWith (evaluator : Evaluator) (session : Session) (source : String) :
    Journaled (Except ReadError Value) := do
  match ← parse source with
  | .ok program => return .ok (← session.runWith evaluator program)
  | .error error => return .error error

/-- Evaluate a program unless it is too deep. -/
def run (session : Session) (program : Value) : Journaled Value :=
  session.runWith evaluate program

/-- Read a program text and evaluate it. -/
def eval (session : Session) (source : String) : Journaled (Except ReadError Value) :=
  session.evalWith evaluate source

end Session

end FuzzyRules
