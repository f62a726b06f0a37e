import BooleanRules.Evaluation.Outcome
import BooleanRules.Expr.Basic

/-!
# Asynchronous evaluation

The computation that waits for every promise it meets, at any depth.  One
promise is awaited at a time: an operand is not begun before the one to its left
has its value.

* `Async.evaluate`, `Async.evaluateOperands` — the computation for an expression
  and for the operands that are left of an operator.
-/

namespace BooleanRules.Async

variable {σ : Type}

mutual

/-- Evaluate the expression at position `p`. -/
def evaluate (env : Callables σ) (p : Position) : Expr → Pollable σ Bool
  | .literal b => do
    Pollable.enter p
    return b
  | .predicate name => do
    Pollable.enter p
    let call : Call := ⟨p, .predicate name⟩
    let output ← Pollable.perform call (env.predicate name)
    output.await call
  | .operator op operands => do
    Pollable.enter p
    evaluateOperands env op p 0 operands
  | .function name args => do
    Pollable.enter p
    -- the function is looked up before its arguments are looked at
    let f ← Pollable.demand (env.function name)
    let args ← Pollable.demand args
    let call : Call := ⟨p, .function name args⟩
    let output ← Pollable.perform call (f args)
    output.await call
  | .invalid e => do
    Pollable.enter p
    Pollable.demand (.error e)

/-- Evaluate the operands from the `i`-th on, none of the earlier ones having
decided. -/
def evaluateOperands (env : Callables σ) (op : Operator) (p : Position) (i : Nat) :
    List Expr → Pollable σ Bool
  | [] => return op.fallthroughValue
  | e :: es => do
    let b ← evaluate env (p ++ [i]) e
    if b = op.decidingValue then return b
    else evaluateOperands env op p (i + 1) es

end

end BooleanRules.Async
