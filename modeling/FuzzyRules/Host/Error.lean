import FuzzyRules.Host.Object

/-!
# Errors of host calls

Why an object handed over by the host is refused. An error that shows the object is made
only once there is a text to show; if there is none, that is the error.
-/

namespace FuzzyRules.Host

/-- Why a call of the host fails. -/
inductive Error where
  | notAnItem (shown : String)
  | notAMember (shown : String)
  | wrongKind (expected : String) (o : Object)
  | invalidKey (shown : String)
  | unboundable (key shown : String)
  | invalidName (shown : String)
  | notCallable (name : String)
  | notIterable (o : Object)
  | notHashable (o : Object)
  | notATable (o : Object)
  | notADocument (o : Object)
  | tooLarge
  | tooManyDigits

namespace Error

/-- The error that shows an object, if the object can be shown. -/
def showing (o : Object) (error : String → Error) : Error :=
  match o.inspect? with
  | some shown => error shown
  | none => tooManyDigits

def message : Error → String
  | notAnItem shown => "Expression element " ++ shown ++ " is not a Value"
  | notAMember shown => "Fuzzy set member " ++ shown ++ " is not a FuzzyElement"
  | wrongKind expected o => "Expected " ++ expected ++ ", got " ++ o.kindName
  | invalidKey shown => "Cannot bind " ++ shown ++ ": environment keys are strings"
  | unboundable key shown => "Cannot bind " ++ key ++ ": " ++ shown ++ " is not a Value"
  | invalidName shown => "Cannot register " ++ shown ++ ": function names are strings"
  | notCallable name => "Handler for " ++ name ++ " is not callable"
  | notIterable o => "'" ++ o.kindName ++ "' object is not iterable"
  | notHashable o => "unhashable type: '" ++ o.kindName ++ "'"
  | notATable o => "unsupported operand type(s) for |: 'FunctionTable' and '" ++ o.kindName ++ "'"
  | notADocument o => "Expected a JSON object, got " ++ o.kindName
  | tooLarge => "int too large to convert to float"
  | tooManyDigits =>
    "Exceeds the limit (4300 digits) for integer string conversion; " ++
      "use sys.set_int_max_str_digits() to increase the limit"

end Error

end FuzzyRules.Host
