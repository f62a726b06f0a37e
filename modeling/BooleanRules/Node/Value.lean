import BooleanRules.EvalError
import BooleanRules.Node.Text

/-!
# Nodes and values

A node without predicates stands for a value: its maps become objects, of a
repeated key the last entry counts.  Back from a value, every object becomes the
map of its entries in key order.

* `Node.toValue` — the value of a node; a predicate anywhere in it is an error,
  also below an entry that a later one hides.
* `Node.ofValue` — the node of a value.
-/

namespace BooleanRules.Node

mutual

/-- The value that a node stands for. -/
def toValue : Node → Except EvalError Value
  | .null => .ok .null
  | .bool b => .ok (.bool b)
  | .number n => .ok (.number n)
  | .string s => .ok (.string s)
  | .list items => return .array (← toValues items)
  | .map entries => return .ofEntries (← toEntries entries)
  | .predicate name => .error (.unexpectedToken (predicate name).display)

/-- The values of some nodes, in order. -/
def toValues : List Node → Except EvalError (List Value)
  | [] => .ok []
  | n :: ns => return (← n.toValue) :: (← toValues ns)

/-- The entries of a map with their values, as written. -/
def toEntries : List (String × Node) → Except EvalError (List (String × Value))
  | [] => .ok []
  | (k, n) :: rest => return (k, ← n.toValue) :: (← toEntries rest)

end

mutual

/-- The node of a value. -/
def ofValue : Value → Node
  | .null => .null
  | .bool b => .bool b
  | .number n => .number n
  | .string s => .string s
  | .array items => .list (ofValues items)
  | .object entries => .map (ofEntries entries)

/-- The nodes of some values, in order. -/
def ofValues : List Value → List Node
  | [] => []
  | v :: vs => ofValue v :: ofValues vs

/-- The entries of an object with their nodes. -/
def ofEntries : List (String × Value) → List (String × Node)
  | [] => []
  | (k, v) :: rest => (k, ofValue v) :: ofEntries rest

end

/-- The error of a node, in the one place where conversion can fail. -/
@[simp] theorem toValue_predicate (name : String) :
    (predicate name).toValue = .error (.unexpectedToken "[predicate]") := rfl

end BooleanRules.Node
