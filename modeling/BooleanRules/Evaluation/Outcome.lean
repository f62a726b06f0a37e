import BooleanRules.Evaluation.Pollable
import BooleanRules.Evaluation.Walk

/-!
# Outcomes of synchronous evaluation

A synchronous evaluation cannot wait.  It gives a truth value, or it hands over
the promise that the call at the root gave; a promise from anywhere else is an
error.

* `Deferred`, `Evaluation` — a promise handed over, and the two outcomes.
* `Output.settle` — the check of a call's result during a walk.
* `Output.await` — the check of a call's result when waiting is possible.
* `Evaluation.resolve` — waiting for an outcome.
-/

namespace BooleanRules

/-- The promise that a call gave, not yet polled. -/
structure Deferred where
  /-- The call. -/
  call : Call
  /-- Its promise. -/
  promise : Promise

namespace Deferred

/-- The kind of the call. -/
def kind (d : Deferred) : CallKind := d.call.kind

/-- The promised value as it is, of whatever type. -/
def value {σ : Type} (d : Deferred) : Pollable σ Value := .await d.call d.promise

/-- The promised value, which has to be a truth value. -/
def resolve {σ : Type} (d : Deferred) : Pollable σ Bool := do
  let v ← d.value
  .demand (v.expectBool d.kind)

/-- The promise for people. -/
def inspect (d : Deferred) : String := "Deferred \x7b kind: " ++ d.kind.title ++ " \x7d"

end Deferred

/-- The outcome of a synchronous evaluation. -/
inductive Evaluation where
  /-- A truth value. -/
  | ready (b : Bool)
  /-- The promise of the root. -/
  | deferred (d : Deferred)

namespace Evaluation

/-- The truth value, if it is there. -/
def ready? : Evaluation → Option Bool
  | .ready b => some b
  | .deferred _ => none

/-- The outcome is a promise. -/
def isDeferred : Evaluation → Bool
  | .ready _ => false
  | .deferred _ => true

/-- Wait for the truth value. -/
def resolve {σ : Type} : Evaluation → Pollable σ Bool
  | .ready b => pure b
  | .deferred d => d.resolve

/-- The outcome for people. -/
def inspect : Evaluation → String
  | .ready b => enclosed "Ready(" (toString b) ")"
  | .deferred d => enclosed "Deferred(" d.inspect ")"

/-- The truth value of an operand.  A promise would come from a node that is not
the root. -/
def operandValue : Evaluation → Except EvalError Bool
  | .ready b => .ok b
  | .deferred d => .error (.unexpectedNestedPromise d.kind)

end Evaluation

/-- The check of a call's result during a walk: a value has to be a truth value,
and a promise is handed over from the root alone. -/
def Output.settle (call : Call) (counter : VisitCounter) : Output → Except EvalError Evaluation
  | .ready v => return .ready (← v.expectBool call.kind)
  | .deferred p =>
    if counter.isRootVisit then .ok (.deferred ⟨call, p⟩)
    else .error (.unexpectedNestedPromise call.kind)

/-- The value of a call's result when waiting is possible, which has to be a
truth value. -/
def Output.await {σ : Type} (call : Call) : Output → Pollable σ Bool
  | .ready v => .demand (v.expectBool call.kind)
  | .deferred p => do
    let v ← .await call p
    .demand (v.expectBool call.kind)

end BooleanRules
