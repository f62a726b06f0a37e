import BooleanRules.Evaluation.Outcome
import BooleanRules.Expr.Basic

/-!
# Synchronous evaluation

The walk over an expression that never waits.  Operands are taken from left to
right until one decides the operator; what stands after it is not looked at.

* `Sync.evaluate`, `Sync.evaluateOperands` — the walk over an expression and
  over the operands that are left of an operator.
-/

namespace BooleanRules.Sync

variable {σ : Type}

mutual

/-- Evaluate the expression at position `p`. -/
def evaluate (env : Callables σ) (p : Position) : Expr → Walk σ Evaluation
  | .literal b => do
    Walk.enter p
    return .ready b
  | .predicate name => do
    Walk.enter p
    let call : Call := ⟨p, .predicate name⟩
    let output ← Walk.perform call (env.predicate name)
    Walk.check (output.settle call ·)
  | .operator op operands => do
    Walk.enter p
    let b ← evaluateOperands env op p 0 operands
    return .ready b
  | .function name args => do
    Walk.enter p
    -- the function is looked up before its arguments are looked at
    let f ← Walk.demand (env.function name)
    let args ← Walk.demand args
    let call : Call := ⟨p, .function name args⟩
    let output ← Walk.perform call (f args)
    Walk.check (output.settle call ·)
  | .invalid e => do
    Walk.enter p
    Walk.demand (.error e)

/-- Evaluate the operands from the `i`-th on, none of the earlier ones having
decided. -/
def evaluateOperands (env : Callables σ) (op : Operator) (p : Position) (i : Nat) :
    List Expr → Walk σ Bool
  | [] => return op.fallthroughValue
  | e :: es => do
    let outcome ← evaluate env (p ++ [i]) e
    -- no promise gets here: the check has refused it below the root
    let b ← Walk.demand outcome.operandValue
    if b = op.decidingValue then return b
    else evaluateOperands env op p (i + 1) es

end

end BooleanRules.Sync
