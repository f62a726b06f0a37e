import BooleanRules.Json.Document
import BooleanRules.Node.Basic
import BooleanRules.Value.Basic

/-!
# Values and nodes from JSON texts

A document becomes a value, whose objects remember neither order nor repetition,
or a node, whose maps keep both.

* `Value.ofDocument`, `Value.read` — to values.
* `Node.ofDocument`, `Node.read` — to nodes.
-/

namespace BooleanRules

open Json

namespace Value

/-- The value of a scalar. -/
def ofScalar : Scalar → Value
  | .null => .null
  | .bool b => .bool b
  | .number n => .number n
  | .string s => .string s

mutual

/-- The value of a document. -/
def ofDocument : Document → Value
  | .scalar s => .ofScalar s
  | .list items => .array (ofItems items)
  | .map entries => .ofEntries (ofFields entries)

/-- The values of the items of a document. -/
def ofItems : List Document → List Value
  | [] => []
  | d :: ds => ofDocument d :: ofItems ds

/-- The entries of a document with their values, as written. -/
def ofFields : List (String × Document) → List (String × Value)
  | [] => []
  | (k, d) :: rest => (k, ofDocument d) :: ofFields rest

end

/-- The value of a text. -/
def read (text : String) : Except Fault Value := (Document.read text).map ofDocument

end Value

namespace Node

/-- The node of a scalar. -/
def ofScalar : Scalar → Node
  | .null => .null
  | .bool b => .bool b
  | .number n => .number n
  | .string s => .string s

mutual

/-- The node of a document. -/
def ofDocument : Document → Node
  | .scalar s => .ofScalar s
  | .list items => .list (ofItems items)
  | .map entries => .map (ofFields entries)

/-- The nodes of the items of a document. -/
def ofItems : List Document → List Node
  | [] => []
  | d :: ds => ofDocument d :: ofItems ds

/-- The entries of a document with their nodes, as written. -/
def ofFields : List (String × Document) → List (String × Node)
  | [] => []
  | (k, d) :: rest => (k, ofDocument d) :: ofFields rest

end

/-- The node of a text. -/
def read (text : String) : Except Fault Node := (Document.read text).map ofDocument

end Node

end BooleanRules
