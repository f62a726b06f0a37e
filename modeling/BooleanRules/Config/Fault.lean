import BooleanRules.Json.Scalar
import BooleanRules.Text.Quoted

/-!
# Faults of configurations

Why a configuration cannot be loaded, as causes, with the category and the
wording of each.
-/

namespace BooleanRules

/-- A JSON value found where the configuration has no place for it. -/
inductive Intruder where
  /-- A value that is neither an array nor an object. -/
  | scalar (s : Json.Scalar)
  /-- An array. -/
  | list
  /-- An object. -/
  | map

/-- The words of a message for what was found. -/
def Intruder.words : Intruder → String
  | scalar .null => "null"
  | scalar (.bool b) => "boolean `" ++ toString b ++ "`"
  | scalar (.number (.int i)) => "integer `" ++ i.repr ++ "`"
  | scalar (.number (.float x)) => "floating point `" ++ x.layOut .value ++ "`"
  | scalar (.string s) => "string " ++ inspected s
  | list => "sequence"
  | map => "map"

/-- What the configuration has a place for. -/
inductive Wanted where
  /-- The configuration itself. -/
  | config
  /-- Nothing but a null. -/
  | unit

/-- The words of a message for what was wanted. -/
def Wanted.words : Wanted → String
  | config => "struct EvaluatorConfig"
  | unit => "unit"

/-- Why a configuration cannot be loaded. -/
inductive ConfigFault where
  /-- The text is no JSON, or has brackets where none may be. -/
  | text (f : Json.Fault)
  /-- The field of the policy occurs twice. -/
  | duplicateField (name : String)
  /-- No policy has the name. -/
  | unknownPolicy (name : String)
  /-- A value of the wrong type. -/
  | wrongType (found : Intruder) (wanted : Wanted)
  /-- What should be read is a directory. -/
  | isDirectory

namespace ConfigFault

/-- The category of a fault. -/
def category : ConfigFault → String
  | text .malformed => "syntax"
  | text .unfinished => "eof"
  | duplicateField _ | unknownPolicy _ | wrongType _ _ => "data"
  | isDirectory => "io"

/-- The wording of a fault.  Faults of the text are told by their category
alone. -/
def message? : ConfigFault → Option String
  | text _ => none
  | duplicateField name => some ("duplicate field `" ++ name ++ "`")
  | unknownPolicy name =>
    some ("unknown variant `" ++ name ++ "`, expected `default_false` or `error`")
  | wrongType found wanted =>
    some ("invalid type: " ++ found.words ++ ", expected " ++ wanted.words)
  | isDirectory => some "Is a directory (os error 21)"

end ConfigFault

end BooleanRules
