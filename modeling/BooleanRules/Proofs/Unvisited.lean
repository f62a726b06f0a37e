import BooleanRules.Proofs.Contexts
import BooleanRules.Proofs.ShortCircuit

/-!
# What is never visited does not matter

An operator stops at the first operand that decides it, fails, or gives a promise that is
refused.  What follows there is not looked at: it may be replaced by other operands, by more
of them, by none or by nodes that are no expressions, and this in all operators at once that
a run goes through, at any depth.  The run on the changed tree is the same run.

Which operands follow the one that an operator stops at depends on the run, and so does the
relation between the two trees: it goes along with a run, in the order of the evaluation, and
carries the state in which each operand is evaluated.

## Main definitions

* `Course` — the operands on the way of a run, and what they come to.
* `Course.Agrees` — a tree that differs from another one only where a run does not get.
* `Sync.course`, `Async.course` — the ways of the two evaluations.
* `Step.Alike` — steps that go the same way when they are polled.

## Main results

* `Step.Alike.run_eq` — what goes the same way is the same run, within any budget.
* `Sync.evaluate_of_agrees`, `Async.alike_of_agrees` — the evaluations of trees that agree.
* `unvisited_operands_irrelevant` — **runs do not depend on what they do not visit.**
-/

namespace BooleanRules

variable {σ τ α β : Type}

/-! ### Trees that agree along a run -/

/-- How a run gets from operand to operand: the state in which an operator turns to its
operands, and what an operand comes to, with the state after it. -/
structure Course (τ : Type) where
  /-- The state in which an operator turns to its operands. -/
  enter : τ → τ
  /-- The truth value of an operand, or why it has none, and the state after it. -/
  operand : Position → Node → τ → Except EvalError Bool × τ

namespace Course

mutual

/-- `c.Agrees p t n n'` says that the node `n'` is like `n` as far as a run gets that comes to
`n` at the position `p` in the state `t`. -/
inductive Agrees (c : Course τ) : Position → τ → Node → Node → Prop
  | same (p : Position) (t : τ) (n : Node) : Agrees c p t n n
  | operator (op : Operator) (rest : List (String × Node)) {p : Position} {t : τ}
    {items items' : List Node} (operands : AgreeFrom c op p 0 (c.enter t) items items') :
    Agrees c p t (.map ((op.key, .list items) :: rest)) (.map ((op.key, .list items') :: rest))

/-- The operands that are left from the `i`-th on are alike as far as a run gets: up to the
one that the operator stops at, which is followed by anything. -/
inductive AgreeFrom (c : Course τ) : Operator → Position → Nat → τ → List Node → List Node → Prop
  | nil (op : Operator) (p : Position) (i : Nat) (t : τ) : AgreeFrom c op p i t [] []
  | stop {op : Operator} {p : Position} {i : Nat} {t : τ} {n n' : Node} (ns ns' : List Node)
    (first : Agrees c (p ++ [i]) t n n')
    (stops : (c.operand (p ++ [i]) n t).1 ≠ .ok op.fallthroughValue) :
    AgreeFrom c op p i t (n :: ns) (n' :: ns')
  | pass {op : Operator} {p : Position} {i : Nat} {t : τ} {n n' : Node} {ns ns' : List Node}
    (first : Agrees c (p ++ [i]) t n n')
    (passes : (c.operand (p ++ [i]) n t).1 = .ok op.fallthroughValue)
    (rest : AgreeFrom c op p (i + 1) (c.operand (p ++ [i]) n t).2 ns ns') :
    AgreeFrom c op p i t (n :: ns) (n' :: ns')

end

/-- Only an operator can differ from what it agrees with, so null agrees with null alone. -/
theorem Agrees.isNull_eq {c : Course τ} {p : Position} {t : τ} {n n' : Node}
    (h : c.Agrees p t n n') : n'.isNull = n.isNull := by
  cases h <;> rfl

end Course

/-! ### The synchronous evaluation -/

namespace Sync

variable {env : Callables σ}

/-- The way of a walk. -/
def course (env : Callables σ) : Course (VisitCounter × σ) where
  enter t := (t.1.visit, t.2)
  operand p n t :=
    let w := evaluate env p (.ofNode n) t.1 t.2
    (w.result.bind Evaluation.operandValue, w.counter, w.state)

/-- Walks over operands are the same if the first operand makes them the same and, should it
leave the operator open, the rest does in the state after it. -/
theorem evaluateOperands_cons_congr {op : Operator} {p : Position} {i : Nat} {e e' : Expr}
    {es es' : List Expr} {c : VisitCounter} {s : σ}
    (hfirst : evaluate env (p ++ [i]) e' c s = evaluate env (p ++ [i]) e c s)
    (hrest : let w := evaluate env (p ++ [i]) e c s
      w.result.bind Evaluation.operandValue = .ok op.fallthroughValue →
        evaluateOperands env op p (i + 1) es' w.counter w.state =
          evaluateOperands env op p (i + 1) es w.counter w.state) :
    evaluateOperands env op p i (e' :: es') c s = evaluateOperands env op p i (e :: es) c s := by
  rcases op.cases_of_outcome (evaluate env (p ++ [i]) e c s).result with ⟨error, h⟩ | h | h
  · rw [evaluateOperands_cons_of_error es h, evaluateOperands_cons_of_error es' (hfirst ▸ h),
      hfirst]
  · rw [evaluateOperands_cons_of_decided es h, evaluateOperands_cons_of_decided es' (hfirst ▸ h),
      hfirst]
  · have hopen : (evaluate env (p ++ [i]) e c s).result.bind Evaluation.operandValue =
        .ok op.fallthroughValue := by rw [h]; rfl
    rw [evaluateOperands_cons_of_undecided es h,
      evaluateOperands_cons_of_undecided es' (hfirst ▸ h), hfirst]
    simp only [hrest hopen]

mutual

/-- **The walk over a tree that agrees is the same walk.** -/
theorem evaluate_of_agrees {p : Position} {t : VisitCounter × σ} {n n' : Node} :
    (course env).Agrees p t n n' →
      evaluate env p (.ofNode n') t.1 t.2 = evaluate env p (.ofNode n) t.1 t.2
  | .same .. => rfl
  | .operator op rest operands => by
    have hops := evaluateOperands_of_agree operands
    simp only [course] at hops
    rw [Expr.ofNode_operator, Expr.ofNode_operator, evaluate_operator, evaluate_operator, hops]

theorem evaluateOperands_of_agree {op : Operator} {p : Position} {i : Nat}
    {t : VisitCounter × σ} {ns ns' : List Node} :
    (course env).AgreeFrom op p i t ns ns' →
      evaluateOperands env op p i (ns'.map .ofNode) t.1 t.2 =
        evaluateOperands env op p i (ns.map .ofNode) t.1 t.2
  | .nil .. => rfl
  | .stop ns ns' first stops => by
    refine evaluateOperands_cons_congr (evaluate_of_agrees first) ?_
    intro w hopen
    exact absurd hopen stops
  | .pass first passes rest => by
    refine evaluateOperands_cons_congr (evaluate_of_agrees first) ?_
    intro w hopen
    exact evaluateOperands_of_agree rest

end

end Sync

/-! ### Steps that go the same way -/

/-- Two steps are alike if they do the same when each poll begins in the state that the one
before has left.  Resumed in another state they may differ. -/
inductive Step.Alike : Step σ α → Step σ α → Prop
  | done (j : Journal) (s : σ) (r : Except EvalError α) : Alike (.done j s r) (.done j s r)
  | pending (j : Journal) (s : σ) {resume resume' : σ → Step σ α}
    (resumed : Alike (resume s) (resume' s)) :
    Alike (.pending j s resume) (.pending j s resume')

namespace Step.Alike

variable {t t' : Step σ α}

theorem refl (t : Step σ α) : Alike t t := by
  induction t with
  | done j s r => exact .done j s r
  | pending j s resume ih => exact .pending j s (ih s)

theorem after (h : Alike t t') (j : Journal) : Alike (t.after j) (t'.after j) := by
  cases h with
  | done j' s r => exact .done (j ++ j') s r
  | pending j' s resumed => exact .pending (j ++ j') s resumed

/-- Steps that are alike go on alike, if what follows on their result is alike in the state
that they leave. -/
theorem next (h : Alike t t') {f f' : α → Pollable σ β}
    (hf : ∀ a, t.finish.result = .ok a → Alike (f a t.finish.state) (f' a t.finish.state)) :
    Alike (t.next f) (t'.next f') := by
  induction h with
  | done j s r =>
    cases r with
    | ok a => exact (hf a rfl).after j
    | error e => exact .done j s (.error e)
  | pending j s _ ih => exact .pending j s (ih hf)

theorem finish_eq (h : Alike t t') : t.finish = t'.finish := by
  induction h with
  | done j s r => rfl
  | pending j s _ ih => simp only [finish, ih]

theorem drive_eq (h : Alike t t') (more : Nat) : t.drive more = t'.drive more := by
  induction h generalizing more with
  | done j s r => rfl
  | pending j s _ ih =>
    cases more with
    | zero => rfl
    | succ more => simp only [drive, ih]

/-- **What goes the same way is the same run**, within any budget. -/
theorem run_eq {t t' : Pollable σ α} {s : σ} (h : Alike (t s) (t' s)) (budget : Option Nat) :
    t.run budget s = t'.run budget s := by
  match budget with
  | none => exact congrArg Finished.driven h.finish_eq
  | some 0 => rfl
  | some (more + 1) => exact h.drive_eq more

end Step.Alike

/-! ### The asynchronous evaluation -/

namespace Async

variable {env : Callables σ}

/-- The way of an evaluation with waiting. -/
def course (env : Callables σ) : Course σ where
  enter s := s
  operand p n s :=
    let f := (evaluate env p (.ofNode n)).finish s
    (f.result, f.state)

mutual

/-- **Waiting for a tree that agrees goes the same way.** -/
theorem alike_of_agrees {p : Position} {s : σ} {n n' : Node} :
    (course env).Agrees p s n n' →
      Step.Alike (evaluate env p (.ofNode n) s) (evaluate env p (.ofNode n') s)
  | .same .. => .refl _
  | .operator op rest operands => by
    have hops := operands_alike_of_agree operands
    rw [Expr.ofNode_operator, Expr.ofNode_operator, evaluate_operator, evaluate_operator]
    exact hops.after [.visited p]

theorem operands_alike_of_agree {op : Operator} {p : Position} {i : Nat} {s : σ}
    {ns ns' : List Node} :
    (course env).AgreeFrom op p i s ns ns' →
      Step.Alike (evaluateOperands env op p i (ns.map .ofNode) s)
        (evaluateOperands env op p i (ns'.map .ofNode) s)
  | .nil .. => .refl _
  | .stop ns ns' first stops => by
    refine (alike_of_agrees first).next ?_
    intro b hb
    -- the operand has not the value that would lead to the operands after it
    rcases op.eq_decidingValue_or b with rfl | rfl
    · rw [if_pos rfl, if_pos rfl]
      exact .refl _
    · exact absurd hb stops
  | .pass first passes rest => by
    refine (alike_of_agrees first).next ?_
    intro b hb
    obtain rfl : b = op.fallthroughValue := Except.ok.inj (hb.symm.trans passes)
    rw [if_neg op.fallthroughValue_ne, if_neg op.fallthroughValue_ne]
    exact operands_alike_of_agree rest

end

end Async

/-! ### The main theorem -/

/-- **Runs do not depend on what they do not visit.**  If a tree differs from another one only
in operands that follow, in operators that a run visits, the operand at which the operator
stops, then the run on this tree from the same state is the same: all that happens in it and
its result, the polls it takes, and the state it leaves. -/
theorem unvisited_operands_irrelevant (policy : MissingRoot) (env : Callables σ)
    (root root' : Node) (s : σ) :
    ((Sync.course env).Agrees [] ({}, s) root root' →
        (evaluateSync policy env (some root')).run s =
          (evaluateSync policy env (some root)).run s) ∧
      ((Async.course env).Agrees [] s root root' → ∀ budget,
        (evaluateAsync policy env (some root')).run budget s =
          (evaluateAsync policy env (some root)).run budget s) := by
  constructor
  · intro h
    rcases policy.root_congr h.isNull_eq with ⟨hroot', hroot⟩ | ⟨hroot', hroot⟩
    · rw [Walk.run, Walk.run, evaluateSync_of_none hroot', evaluateSync_of_none hroot]
    · rw [Walk.run, Walk.run, evaluateSync_of_root hroot', evaluateSync_of_root hroot]
      exact Sync.evaluate_of_agrees h
  · intro h budget
    refine (Step.Alike.run_eq ?_ budget).symm
    rcases policy.root_congr h.isNull_eq with ⟨hroot', hroot⟩ | ⟨hroot', hroot⟩
    · rw [evaluateAsync_of_none hroot', evaluateAsync_of_none hroot]
      exact .refl _
    · rw [evaluateAsync_of_root hroot', evaluateAsync_of_root hroot]
      exact Async.alike_of_agrees h

/-- The operands of `earlyAnswer` that are not visited, replaced in the conjunction and left
out in the disjunction: a walk stops there at a promise, and waiting at its value. -/
theorem earlyAnswer_unvisited :
    let rule := earlyAnswer "slow"
    let changed : Node := .or [.and [.predicate "no", .null, .call "missing" (.list [])],
      .predicate "slow"]
    (evaluateSync .error countedAnswers (some changed)).run 0 =
        (evaluateSync .error countedAnswers (some rule)).run 0 ∧
      ∀ budget, (evaluateAsync .error countedAnswers (some changed)).run budget 0 =
        (evaluateAsync .error countedAnswers (some rule)).run budget 0 := by
  intro rule changed
  have hwalk : (Sync.course countedAnswers).Agrees [] ({}, 0) rule changed := by
    have hno : ((Sync.course countedAnswers).operand [0, 0] (.predicate "no") (⟨2⟩, 0)).1 =
        .ok false := rfl
    have hslow : ((Sync.course countedAnswers).operand [1] (.predicate "slow") (⟨3⟩, 1)).1 =
        .error (.unexpectedNestedPromise .callback) := rfl
    refine .operator .or [] (.pass (.operator .and [] (.stop _ _ (.same ..) ?_)) rfl
      (.stop _ _ (.same ..) ?_))
    · exact fun h => by cases hno.symm.trans h
    · exact fun h => by cases hslow.symm.trans h
  have hwait : (Async.course countedAnswers).Agrees [] 0 rule changed := by
    have hno : ((Async.course countedAnswers).operand [0, 0] (.predicate "no") 0).1 =
        .ok false := rfl
    have hslow : ((Async.course countedAnswers).operand [1] (.predicate "slow") 1).1 =
        .ok true := rfl
    refine .operator .or [] (.pass (.operator .and [] (.stop _ _ (.same ..) ?_)) rfl
      (.stop _ _ (.same ..) ?_))
    · exact fun h => by cases hno.symm.trans h
    · exact fun h => by cases hslow.symm.trans h
  have hirrelevant := unvisited_operands_irrelevant .error countedAnswers rule changed 0
  exact ⟨hirrelevant.1 hwalk, hirrelevant.2 hwait⟩

end BooleanRules
