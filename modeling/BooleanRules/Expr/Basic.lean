import BooleanRules.Expr.Form

/-!
# Expressions

What a tree means, with every node read by the grammar and everything dropped
that no evaluation can see: map entries after the first, and the shape of
arguments beyond their values.  Nodes that are no expression, and arguments that
are no values, become expressions that fail when they are reached, so that a
fault in an operand nobody looks at does no harm.

* `Expr`, `Expr.ofNode` — expressions, and the expression of a node.
* `Expr.ofForm`, `ofNode_eq` — reading a tree is reading its root by
  `Node.classify` and then its operands.
* `Expr.size` — the number of positions in an expression.
-/

namespace BooleanRules

/-- An expression. -/
inductive Expr where
  /-- A truth value. -/
  | literal (b : Bool)
  /-- A call without arguments. -/
  | predicate (name : String)
  /-- An operator and its operands. -/
  | operator (op : Operator) (operands : List Expr)
  /-- A call of a registered function.  Arguments that are no values are an
  error only once the function is found. -/
  | function (name : String) (args : Except EvalError (List Value))
  /-- No expression; reaching it fails. -/
  | invalid (error : EvalError)

namespace Expr

mutual

/-- The expression that a node means. -/
def ofNode : Node → Expr
  | .bool b => .literal b
  | .predicate name => .predicate name
  | .map ((key, value) :: _) =>
    match KeyRole.ofKey key with
    | .operator op => match value with
      | .list operands => .operator op (ofNodes operands)
      | other => .invalid (.unexpectedToken other.display)
    | .unrecognized => .invalid (.unrecognizedOperator key)
    | .function => .function key value.arguments
  | other => .invalid (.unexpectedToken other.display)

/-- The expressions of some nodes, in order. -/
def ofNodes : List Node → List Expr
  | [] => []
  | n :: ns => ofNode n :: ofNodes ns

end

/-- The expression of a form. -/
def ofForm : Form → Expr
  | .literal b => .literal b
  | .predicate name => .predicate name
  | .operator op operands => .operator op (operands.map ofNode)
  | .function name args => .function name args.arguments

theorem ofNodes_eq_map (ns : List Node) : ofNodes ns = ns.map ofNode := by
  induction ns with
  | nil => rfl
  | cons n ns ih => simp [ofNodes, ih]

/-- A node is read by its form; without one it is invalid for the reason that
`Node.classify` gives. -/
theorem ofNode_eq (n : Node) :
    ofNode n = match n.classify with
      | .ok form => ofForm form
      | .error e => .invalid e := by
  cases n with
  | map entries =>
    cases entries with
    | nil => rfl
    | cons e rest =>
      obtain ⟨key, value⟩ := e
      cases value <;> simp only [ofNode, Node.classify, Node.classifyEntry] <;>
        cases KeyRole.ofKey key <;> simp [ofForm, ofNodes_eq_map]
  | _ => rfl

mutual

/-- The number of positions: the expression itself and those of its operands. -/
def size : Expr → Nat
  | .operator _ operands => 1 + sizes operands
  | _ => 1

/-- The number of positions in some expressions. -/
def sizes : List Expr → Nat
  | [] => 0
  | e :: es => e.size + sizes es

end

end Expr

end BooleanRules
