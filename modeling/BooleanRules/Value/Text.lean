import BooleanRules.Text.Quoted
import BooleanRules.Value.Basic

/-!
# Texts of values

* `Value.text` — compact JSON, without blanks.
* `Value.inspect` — the form for people, which names the kind of each value.
-/

namespace BooleanRules.Value

mutual

/-- The value as compact JSON. -/
def text : Value → String
  | .null => "null"
  | .bool b => toString b
  | .number n => n.text
  | .string s => quoted s
  | .array items => enclosed "[" (",".intercalate (itemTexts items)) "]"
  | .object entries => enclosed "\x7b" (",".intercalate (entryTexts entries)) "\x7d"

/-- The values of a list as compact JSON. -/
def itemTexts : List Value → List String
  | [] => []
  | v :: vs => v.text :: itemTexts vs

/-- Entries as compact JSON. -/
def entryTexts : List (String × Value) → List String
  | [] => []
  | (k, v) :: rest => (quoted k ++ ":" ++ v.text) :: entryTexts rest

end

mutual

/-- The value for people. -/
def inspect : Value → String
  | .null => "Null"
  | .bool b => enclosed "Bool(" (toString b) ")"
  | .number n => enclosed "Number(" n.text ")"
  | .string s => enclosed "String(" (inspected s) ")"
  | .array items => enclosed "Array [" (commaSeparated (inspectItems items)) "]"
  | .object entries => enclosed "Object \x7b" (commaSeparated (inspectEntries entries)) "\x7d"

/-- The values of a list for people. -/
def inspectItems : List Value → List String
  | [] => []
  | v :: vs => v.inspect :: inspectItems vs

/-- Entries for people. -/
def inspectEntries : List (String × Value) → List String
  | [] => []
  | (k, v) :: rest => (inspected k ++ ": " ++ v.inspect) :: inspectEntries rest

end

end BooleanRules.Value
