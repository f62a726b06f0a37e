import BooleanRules.Node.Basic
import BooleanRules.Text.Quoted

/-!
# Texts of nodes

* `Node.display` — the text by which error messages name a node: strings stand
  without quotes, the items of a list are joined by commas without brackets.
* `Node.inspect` — the form for people, which names the kind of each node.
-/

namespace BooleanRules.Node

mutual

/-- The text of a node in messages. -/
def display : Node → String
  | .null => "null"
  | .bool b => toString b
  | .number n => n.text
  | .string s => s
  | .list items => ",".intercalate (displayItems items)
  | .map entries => enclosed "\x7b" (commaSeparated (displayEntries entries)) "\x7d"
  | .predicate _ => "[predicate]"

/-- The texts of some nodes. -/
def displayItems : List Node → List String
  | [] => []
  | n :: ns => n.display :: displayItems ns

/-- The texts of some entries. -/
def displayEntries : List (String × Node) → List String
  | [] => []
  | (k, n) :: rest => (k ++ ": " ++ n.display) :: displayEntries rest

end

mutual

/-- The node for people. -/
def inspect : Node → String
  | .null => "Null"
  | .bool b => enclosed "Bool(" (toString b) ")"
  | .number n => enclosed "Number(Number(" n.text "))"
  | .string s => enclosed "String(" (inspected s) ")"
  | .list items => enclosed "List([" (commaSeparated (inspectItems items)) "])"
  | .map entries => enclosed "Map([" (commaSeparated (inspectEntries entries)) "])"
  | .predicate _ => "Predicate(Predicate)"

/-- Some nodes for people. -/
def inspectItems : List Node → List String
  | [] => []
  | n :: ns => n.inspect :: inspectItems ns

/-- Some entries for people. -/
def inspectEntries : List (String × Node) → List String
  | [] => []
  | (k, n) :: rest => enclosed "(" (inspected k ++ ", " ++ n.inspect) ")" :: inspectEntries rest

end

end BooleanRules.Node
