import BooleanRules.Expr.Operator
import BooleanRules.Node.Value

/-!
# The grammar of nodes

Which grammatical form a node has.  Truth values and predicates stand for
themselves.  A map is read by its first entry: the key of an operator wants a
list of operands, another key with the sigil is an error, and any other key
names a function.  Nothing else is an expression.

* `Form`, `Node.classify` — the forms, and the form of a node.
* `Node.arguments` — the positional arguments that a function receives: a list
  is spread, any other node is the only argument.
-/

namespace BooleanRules

/-- The grammatical form of a node. -/
inductive Form where
  /-- A truth value. -/
  | literal (b : Bool)
  /-- A callable without arguments. -/
  | predicate (name : String)
  /-- An operator and its operands. -/
  | operator (op : Operator) (operands : List Node)
  /-- A function name and the node that holds its arguments. -/
  | function (name : String) (args : Node)

namespace Node

/-- The form of a map by its first entry. -/
def classifyEntry (key : String) (value : Node) : Except EvalError Form :=
  match KeyRole.ofKey key, value with
  | .operator op, .list operands => .ok (.operator op operands)
  | .operator _, other => .error (.unexpectedToken other.display)
  | .unrecognized, _ => .error (.unrecognizedOperator key)
  | .function, args => .ok (.function key args)

/-- The form of a node. -/
def classify : Node → Except EvalError Form
  | .bool b => .ok (.literal b)
  | .predicate name => .ok (.predicate name)
  | .map ((key, value) :: _) => classifyEntry key value
  | other => .error (.unexpectedToken other.display)

/-- The positional arguments that a node holds. -/
def arguments : Node → Except EvalError (List Value)
  | .list items => toValues items
  | other => return [← other.toValue]

end Node

end BooleanRules
