import BooleanRules.Proofs.Reached
import BooleanRules.Proofs.Relabel

/-!
# What an evaluation does, wherever it stands

Positions say where something happens, and the visit counter tells the root from the rest.
Below the root an evaluation depends on neither.  So an expression has a meaning of its own,
a computation that enters no nodes and makes all its calls at one place, and both evaluations
are this computation for those who do not look at places.  They differ in what becomes of
the result of a call, and in nothing else.

Meanings are put together from the meanings of the operands by a loop that any monad has, so
laws about operators can be proved of the loop.

## Main definitions

* `Operator.loop` — the operands of an operator one after the other, until one decides.
* `Expr.meaning` — what an expression does, wherever it stands.
* `Event.placeless?`, `Journal.placeless` — events without their places.

## Main results

* `Sync.evaluate_meaning`, `Async.evaluate_meaning` — **the evaluations of an expression are
  its meaning, apart from places.**
-/

namespace BooleanRules

variable {σ : Type}

/-! ### The monad of computations -/

theorem Step.next_done {α : Type} (t : Step σ α) : t.next Pollable.done = t := by
  induction t with
  | done j s r =>
    cases r with
    | ok a => simp [next, Pollable.done, after]
    | error e => rfl
  | pending j s resume ih =>
    simp only [next]
    congr 1
    funext s'
    exact ih s'

instance : LawfulMonad (Pollable σ) :=
  LawfulMonad.mk' _
    (fun t => funext fun s => Step.next_done (t s))
    (fun a f => funext fun s => Step.after_nil (f a s))
    (fun t f g => funext fun s => Step.next_next (t s) f g)

/-! ### The loop of an operator -/

/-- The operands of an operator one after the other, until one of them decides. -/
def Operator.loop {m : Type → Type} [Monad m] (op : Operator) : List (m Bool) → m Bool
  | [] => pure op.fallthroughValue
  | first :: rest => do
    let b ← first
    if b = op.decidingValue then pure b else op.loop rest

/-! ### Meanings -/

namespace Output

/-- The truth value of a call's result where promises are refused. -/
def atOnce (call : Call) : Output → Except EvalError Bool
  | .ready v => v.expectBool call.kind
  | .deferred _ => .error (.unexpectedNestedPromise call.kind)

/-- Promises are refused. -/
def refuse (call : Call) (o : Output) : Pollable σ Bool := .demand (o.atOnce call)

/-- Below the root, as an operand, a promise is refused whatever the counter is. -/
theorem operandValue_settle (call : Call) (o : Output) (c : VisitCounter) :
    (o.settle call c).bind Evaluation.operandValue = o.atOnce call := by
  cases o with
  | ready v =>
    simp only [settle, atOnce]
    cases v.expectBool call.kind <;> rfl
  | deferred p =>
    simp only [settle, atOnce]
    cases c.isRootVisit <;> rfl

end Output

namespace Expr

section

variable (env : Callables σ) (take : Call → Output → Pollable σ Bool)

mutual

/-- What an expression does wherever it stands, where `take` says what becomes of the
results of calls. -/
def meaning : Expr → Pollable σ Bool
  | .literal b => return b
  | .predicate name => do
    let call : Call := ⟨[], .predicate name⟩
    let output ← Pollable.perform call (env.predicate name)
    take call output
  | .operator op operands => op.loop (meanings operands)
  | .function name args => do
    let f ← Pollable.demand (env.function name)
    let args ← Pollable.demand args
    let call : Call := ⟨[], .function name args⟩
    let output ← Pollable.perform call (f args)
    take call output
  | .invalid e => .demand (.error e)

/-- What some expressions do. -/
def meanings : List Expr → List (Pollable σ Bool)
  | [] => []
  | e :: es => e.meaning :: meanings es

end

end

variable {env : Callables σ} {take : Call → Output → Pollable σ Bool} {e : Expr}

theorem meanings_eq_map (es : List Expr) : meanings env take es = es.map (meaning env take) := by
  induction es with
  | nil => rfl
  | cons e es ih => rw [meanings, ih, List.map_cons]

theorem meaning_of_call {callee : Callee} {f : σ → Output × σ}
    (h : env.reach e = .call callee f) (s : σ) :
    e.meaning env take s =
      (take ⟨[], callee⟩ (f s).1 (f s).2).after [.called ⟨[], callee⟩ (f s).1] := by
  rcases Callables.eq_of_reach_call h with
    ⟨name, rfl, rfl, rfl⟩ | ⟨name, vs, g, rfl, hg, rfl, rfl⟩
  · rfl
  · simp only [meaning, Pollable.bind_eq, Pollable.next_apply, Pollable.demand, Step.next, hg,
      Pollable.perform, Step.after_nil]

theorem meaning_of_fault {error : EvalError} (h : env.reach e = .fault error) (s : σ) :
    e.meaning env take s = .done [] s (.error error) := by
  rcases Callables.eq_of_reach_fault h with rfl | ⟨name, args, rfl, hg⟩ | ⟨name, g, rfl, hg⟩
  · rfl
  · simp only [meaning, Pollable.bind_eq, Pollable.next_apply, Pollable.demand, Step.next, hg]
  · simp only [meaning, Pollable.bind_eq, Pollable.next_apply, Pollable.demand, Step.next, hg,
      Step.after_nil]

end Expr

/-! ### Events without places -/

/-- A call as it would be made at the root. -/
def Call.placeless (call : Call) : Call := ⟨[], call.callee⟩

/-- The event without its place; entering a node is nothing but its place. -/
def Event.placeless? : Event → Option Event
  | .visited _ => none
  | .called call o => some (.called call.placeless o)
  | .started call => some (.started call.placeless)
  | .finished call => some (.finished call.placeless)

namespace Journal

/-- The journal without places. -/
def placeless (j : Journal) : Journal := j.filterMap Event.placeless?

@[simp] theorem placeless_append (j k : Journal) :
    placeless (j ++ k) = placeless j ++ placeless k :=
  List.filterMap_append

/-- The log does not show places. -/
theorem lines_placeless (j : Journal) : lines (placeless j) = j.lines := by
  rw [lines, placeless, List.filterMap_filterMap]
  exact congrArg (List.filterMap · j) (funext fun ev => by cases ev <;> rfl)

end Journal

/-! ### The synchronous evaluation -/

/-- A walk for those who do not look at places. -/
def Walked.placeless (w : Walked σ Bool) : Step σ Bool := .done w.journal.placeless w.state w.result

/-- A walk over an operand: a promise at its end is refused. -/
def Walked.asOperand (w : Walked σ Evaluation) : Walked σ Bool :=
  ⟨w.journal, w.checks, w.counter, w.state, w.result.bind Evaluation.operandValue⟩

namespace Sync

/-- **The walk over an operand is its meaning**, apart from places, wherever the operand
stands and whatever the counter is. -/
theorem evaluate_meaning (env : Callables σ) :
    (∀ e p c s, e.meaning env Output.refuse s = (evaluate env p e c s).asOperand.placeless) ∧
      ∀ es op p i c s, op.loop (Expr.meanings env Output.refuse es) s =
        (evaluateOperands env op p i es c s).placeless := by
  refine env.induct ?_ ?_ ?_ ?_ ?_ ?_
  · intro b p c s
    rfl
  · intro e callee f hreach p c s
    rw [Expr.meaning_of_call hreach, evaluate_of_call hreach]
    have htaken := (f s).1.operandValue_settle ⟨p, callee⟩ c.visit
    simp only [Walked.asOperand, Walked.placeless, htaken]
    cases (f s).1 <;> rfl
  · intro e error hreach p c s
    rw [Expr.meaning_of_fault hreach, evaluate_of_fault hreach]
    rfl
  · intro op es ih p c s
    have hops := ih op p 0 c.visit s
    rw [Expr.meaning, hops, evaluate_operator]
    simp only [Walked.asOperand, Walked.placeless]
    cases (evaluateOperands env op p 0 es c.visit s).result <;> rfl
  · intro op p i c s
    rfl
  · intro e es ihe ihes op p i c s
    have hfirst := ihe (p ++ [i]) c s
    have hloop : op.loop (Expr.meanings env Output.refuse (e :: es)) s =
        (e.meaning env Output.refuse s).next fun b =>
          if b = op.decidingValue then Pollable.done b
          else op.loop (Expr.meanings env Output.refuse es) := rfl
    rw [hloop, hfirst]
    rcases op.cases_of_outcome (evaluate env (p ++ [i]) e c s).result with ⟨error, h⟩ | h | h
    · rw [evaluateOperands_cons_of_error es h]
      simp only [Walked.asOperand, Walked.placeless, h, Step.next]
    · rw [evaluateOperands_cons_of_decided es h]
      simp only [Walked.asOperand, Walked.placeless, h, Except.bind, Evaluation.operandValue,
        Step.next, if_true, Pollable.done, Step.after, List.append_nil]
    · rw [evaluateOperands_cons_of_undecided es h]
      simp only [Walked.asOperand, Walked.placeless, h, Except.bind, Evaluation.operandValue,
        Step.next, if_neg op.fallthroughValue_ne]
      rw [ihes op p (i + 1) (evaluate env (p ++ [i]) e c s).counter]
      simp only [Walked.placeless, Step.after, Journal.placeless_append]

end Sync

/-! ### The asynchronous evaluation -/

/-- The value of a result is waited for wherever the call stands. -/
theorem Output.await_placeless (call : Call) (o : Output) (s : σ) :
    o.await call.placeless s = (o.await call s).relabel Event.placeless? id := by
  have hstarted : Event.placeless? (.started call) = some (.started call.placeless) := rfl
  have hfinished : Event.placeless? (.finished call) = some (.finished call.placeless) := rfl
  have hcheck : ∀ v : Value,
      (id v).expectBool call.placeless.kind = (v.expectBool call.kind).map id := by
    intro v
    cases v <;> rfl
  have hawait := await_relabel hstarted hfinished hcheck o s
  rwa [map_id] at hawait

namespace Async

/-- **Waiting for an expression is its meaning**, apart from places, wherever the expression
stands. -/
theorem evaluate_meaning (env : Callables σ) :
    (∀ e p s, e.meaning env Output.await s =
        (evaluate env p e s).relabel Event.placeless? id) ∧
      ∀ es op p i s, op.loop (Expr.meanings env Output.await es) s =
        (evaluateOperands env op p i es s).relabel Event.placeless? id := by
  refine env.induct ?_ ?_ ?_ ?_ ?_ ?_
  · intro b p s
    rfl
  · intro e callee f hreach p s
    have hawait := (f s).1.await_placeless ⟨p, callee⟩ (f s).2
    rw [Expr.meaning_of_call hreach, evaluate_of_call hreach, Step.relabel_after, ← hawait]
    rfl
  · intro e error hreach p s
    rw [Expr.meaning_of_fault hreach, evaluate_of_fault hreach]
    rfl
  · intro op es ih p s
    rw [Expr.meaning, ih op p 0 s, evaluate_operator, Step.relabel_after]
    exact (Step.after_nil _).symm
  · intro op p i s
    rfl
  · intro e es ihe ihes op p i s
    have hloop : op.loop (Expr.meanings env Output.await (e :: es)) s =
        (e.meaning env Output.await s).next fun b =>
          if b = op.decidingValue then Pollable.done b
          else op.loop (Expr.meanings env Output.await es) := rfl
    rw [hloop, ihe (p ++ [i]) s, evaluateOperands_cons]
    refine Step.relabel_next ?_ _
    intro b s'
    by_cases hb : b = op.decidingValue
    · rw [id, if_pos hb, if_pos hb]
      rfl
    · rw [id, if_neg hb, if_neg hb]
      exact ihes op p (i + 1) s'

end Async

end BooleanRules
