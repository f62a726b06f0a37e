import BooleanRules.Value.Basic

/-!
# Evaluation errors

Why an evaluation has no answer, as causes; `EvalError.message` words them.
-/

namespace BooleanRules

/-- Who produced a result: a predicate of the tree or a registered function. -/
inductive CallKind where
  /-- A predicate of the tree. -/
  | callback
  /-- A registered function. -/
  | function
  deriving DecidableEq

/-- The word for a kind of call. -/
def CallKind.name : CallKind → String
  | callback => "callback"
  | function => "function"

/-- The kind of a call as its constructor is spelled. -/
def CallKind.title : CallKind → String
  | callback => "Callback"
  | function => "Function"

/-- The causes for which an evaluation fails. -/
inductive EvalError where
  /-- There is no expression, and the policy demands one. -/
  | expectedExpression
  /-- A node of this text stands where the grammar has no place for it. -/
  | unexpectedToken (text : String)
  /-- The key has the sigil of operators and names none. -/
  | unrecognizedOperator (key : String)
  /-- No function is registered under the name. -/
  | undefinedFunction (name : String)
  /-- A call gave a value that is not a truth value. -/
  | unexpectedReturnType (kind : CallKind) (found : ValueType)
  /-- A call below the root gave a deferred result where none can be awaited. -/
  | unexpectedNestedPromise (kind : CallKind)
  deriving DecidableEq

/-- The wording of an error. -/
def EvalError.message : EvalError → String
  | expectedExpression => "Expected an expression"
  | unexpectedToken text => "Unexpected token '" ++ text ++ "'"
  | unrecognizedOperator key => "Unrecognized operator: '" ++ key ++ "'"
  | undefinedFunction name => "Undefined function: '" ++ name ++ "'"
  | unexpectedReturnType kind found =>
    "Unexpected return type [" ++ found.name ++ "] from a " ++ kind.name
  | unexpectedNestedPromise kind => "Unexpected nested promise " ++ kind.name

/-- The truth value that a call had to give. -/
def Value.expectBool (kind : CallKind) : Value → Except EvalError Bool
  | .bool b => .ok b
  | other => .error (.unexpectedReturnType kind other.type)

@[simp] theorem Value.expectBool_bool (kind : CallKind) (b : Bool) :
    (Value.bool b).expectBool kind = .ok b := rfl

/-- Only truth values pass. -/
theorem Value.expectBool_eq_ok_iff {kind : CallKind} {v : Value} {b : Bool} :
    v.expectBool kind = .ok b ↔ v = .bool b := by
  cases v <;> simp [expectBool]

end BooleanRules
