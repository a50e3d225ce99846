import FuzzyRules.Host.Error
import FuzzyRules.Settings

/-!
# Logging

Debug notes are written, one per line, once a log has been opened and its level admits
them. A level is a number or a truth value; the level zero leaves the decision to the
enclosing log, which admits warnings only.
-/

namespace FuzzyRules

open Host (Object)

/-- A log level: a number, or a truth value counted as one. -/
inductive Level where
  | number (i : Int)
  | flag (b : Bool)

namespace Level

def code : Level → Int
  | number i => i
  | flag b => if b then 1 else 0

/-- The level of debug notes. -/
def debug : Int := 10

/-- The level that counts where none is set. -/
def inherited : Int := 30

/-- Whether debug notes are written. -/
def admitsDebug (level : Level) : Bool :=
  (if level.code = 0 then inherited else level.code) ≤ debug

/-- The levels that have names. -/
def names : List (String × Int) :=
  [("CRITICAL", 50), ("FATAL", 50), ("ERROR", 40), ("WARN", 30), ("WARNING", 30), ("INFO", 20),
    ("DEBUG", debug), ("NOTSET", 0)]

/-- Why an object is no level. -/
inductive Error where
  | unknown (name : String)
  | wrongKind (shown : String)
  | unshown (error : Host.Error)

def Error.message : Error → String
  | unknown name => "Unknown level: " ++ Text.quoted name
  | wrongKind shown => "Level not an integer or a valid string: " ++ shown
  | unshown error => error.message

/-- The level of a name; case matters. -/
def ofName (name : String) : Except Error Level :=
  match names.lookup name with
  | some i => .ok (.number i)
  | none => .error (.unknown name)

/-- The level that an object of the host gives. -/
def ofObject : Object → Except Error Level
  | .int i => .ok (.number i)
  | .bool b => .ok (.flag b)
  | .str name => ofName name
  | o =>
    match o.inspect? with
    | some shown => .error (.wrongKind shown)
    | none => .error (.unshown .tooManyDigits)

end Level

/-- A log: its level, and whether it has been opened. -/
structure Logger where
  level : Level
  isOpen : Bool

namespace Logger

/-- The log before it is configured. -/
def initial : Logger := ⟨.number 0, false⟩

/-- Open the log and set its level, by default to that of the settings. The log is open
also if the level is refused. -/
def configure (log : Logger) (settings : Settings) (level : Object) :
    Except Level.Error Unit × Logger :=
  let asked : Object := match level with
    | .null => .str settings.logLevel
    | o => o
  match Level.ofObject asked with
  | .ok level => (.ok (), ⟨level, true⟩)
  | .error error => (.error error, ⟨log.level, true⟩)

/-- The line of a note. -/
def line (note : Note) : String := note.channel ++ " DEBUG: " ++ note.text ++ "\n"

/-- What is written for notes. -/
def write (log : Logger) (notes : List Note) : String :=
  if log.isOpen && log.level.admitsDebug then String.join (notes.map line) else ""

end Logger

end FuzzyRules
