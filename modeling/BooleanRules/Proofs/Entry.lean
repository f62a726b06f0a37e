import BooleanRules.Evaluator
import BooleanRules.Proofs.Reached

/-!
# How an evaluation begins

The policy for an absent expression either settles the matter, with an error or
with false, or names the root, and then the evaluation is the one of the root's
expression at the empty position.

## Main results

* `MissingRoot.root_some` — a root that is not null is always evaluated.
* `evaluateSync_of_root`, `evaluateAsync_of_root` — the evaluation of a root.
-/

namespace BooleanRules

variable {σ : Type} {policy : MissingRoot} {env : Callables σ} {expression : Option Node}

/-- A root that is not null is evaluated under either policy. -/
theorem MissingRoot.root_some (policy : MissingRoot) {root : Node} (h : root ≠ .null) :
    policy.root (some root) = .ok (some root) := by
  cases policy with
  | error => rfl
  | defaultFalse => simp [MissingRoot.root, h]

/-- A policy tells null from the rest and nothing else. -/
theorem MissingRoot.root_congr (policy : MissingRoot) {n n' : Node}
    (h : n.isNull = n'.isNull) :
    policy.root (some n) = .ok none ∧ policy.root (some n') = .ok none ∨
      policy.root (some n) = .ok (some n) ∧ policy.root (some n') = .ok (some n') := by
  cases policy with
  | error => exact .inr ⟨rfl, rfl⟩
  | defaultFalse =>
    simp only [root, ← h]
    cases n.isNull with
    | true => exact .inl ⟨rfl, rfl⟩
    | false => exact .inr ⟨rfl, rfl⟩

/-- A tree is not evaluated at all, or it is evaluated as it stands. -/
theorem MissingRoot.root_some_cases (policy : MissingRoot) (root : Node) :
    policy.root (some root) = .ok none ∨ policy.root (some root) = .ok (some root) :=
  (policy.root_congr (rfl : root.isNull = root.isNull)).imp And.left And.left

/-- The only fault of an entry is that there is no expression and the policy demands
one. -/
theorem MissingRoot.eq_of_root_error {error : EvalError}
    (h : policy.root expression = .error error) :
    policy = .error ∧ expression = none ∧ error = .expectedExpression := by
  cases policy <;> cases expression <;> cases h
  exact ⟨rfl, rfl, rfl⟩

/-- Only the root itself is evaluated. -/
theorem MissingRoot.eq_of_root_some {root : Node} (h : policy.root expression = .ok (some root)) :
    expression = some root := by
  cases policy <;> cases expression <;> simp_all [MissingRoot.root]

theorem evaluateSync_of_error {error : EvalError} (h : policy.root expression = .error error)
    (c : VisitCounter) (s : σ) :
    evaluateSync policy env expression c s = ⟨[], [], c, s, .error error⟩ := by
  simp only [evaluateSync, h]
  rfl

theorem evaluateSync_of_none (h : policy.root expression = .ok none) (c : VisitCounter) (s : σ) :
    evaluateSync policy env expression c s = ⟨[], [], c, s, .ok (.ready false)⟩ := by
  simp only [evaluateSync, h]
  rfl

theorem evaluateSync_of_root {root : Node} (h : policy.root expression = .ok (some root))
    (c : VisitCounter) (s : σ) :
    evaluateSync policy env expression c s = Sync.evaluate env [] (.ofNode root) c s := by
  simp only [evaluateSync, h]
  rfl

theorem evaluateAsync_of_error {error : EvalError} (h : policy.root expression = .error error)
    (s : σ) : evaluateAsync policy env expression s = .done [] s (.error error) := by
  simp only [evaluateAsync, h]
  rfl

theorem evaluateAsync_of_none (h : policy.root expression = .ok none) (s : σ) :
    evaluateAsync policy env expression s = .done [] s (.ok false) := by
  simp only [evaluateAsync, h]
  rfl

theorem evaluateAsync_of_root {root : Node} (h : policy.root expression = .ok (some root))
    (s : σ) :
    evaluateAsync policy env expression s = Async.evaluate env [] (.ofNode root) s := by
  simp only [evaluateAsync, h]
  exact Step.after_nil _

theorem finish_evaluateAsync_of_root {root : Node} (h : policy.root expression = .ok (some root))
    (s : σ) :
    (evaluateAsync policy env expression).finish s =
      (Async.evaluate env [] (.ofNode root)).finish s := by
  rw [Pollable.finish, evaluateAsync_of_root h, Pollable.finish]

/-- A root is evaluated, or nothing happens. -/
theorem root_or_journal_nil (policy : MissingRoot) (env : Callables σ) (expression : Option Node)
    (s : σ) :
    (∃ root, policy.root expression = .ok (some root)) ∨
      ((evaluateSync policy env expression).run s).journal = [] ∧
        ((evaluateAsync policy env expression).finish s).journal = [] := by
  match h : policy.root expression with
  | .error error =>
    rw [Walk.run, evaluateSync_of_error h, Pollable.finish, evaluateAsync_of_error h]
    exact .inr ⟨rfl, rfl⟩
  | .ok none =>
    rw [Walk.run, evaluateSync_of_none h, Pollable.finish, evaluateAsync_of_none h]
    exact .inr ⟨rfl, rfl⟩
  | .ok (some root) => exact .inl ⟨root, rfl⟩

end BooleanRules
