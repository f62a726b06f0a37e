import BooleanRules.Evaluation.Async
import BooleanRules.Evaluation.Sync
import BooleanRules.Proofs.Polling

/-!
# What reaching an expression leads to

Both evaluations enter an expression in the same way and then do one of four
things: take a truth value, make a call, fail, or go on to the operands.  Which
one depends on the registry alone (`Callables.reach`); what it comes to is said
here once for each evaluation, and for the asynchronous one also after polling to
the end.  No later proof looks into the evaluations themselves.

## Main definitions

* `Reached`, `Callables.reach` — the four cases, and the case of an expression.
* `Output.yields`, `Output.waits` — how often a result is found pending, and what
  waiting for it leaves in the journal.

## Main results

* `Callables.induct` — induction over expressions by what reaching them leads to.
* `Sync.evaluate_of_call`, `Async.finish_evaluate_of_call` and their neighbours —
  the two evaluations in each case.
-/

namespace BooleanRules

variable {σ : Type}

/-- What reaching an expression leads to. -/
inductive Reached (σ : Type) where
  /-- It is a truth value. -/
  | value (b : Bool)
  /-- Something is called. -/
  | call (callee : Callee) (perform : σ → Output × σ)
  /-- There is nothing to call, or no expression at all. -/
  | fault (error : EvalError)
  /-- The operands of an operator come next. -/
  | operands (op : Operator) (operands : List Expr)

/-- What reaching an expression leads to.  A function that is not there is a fault
before its arguments are. -/
def Callables.reach (env : Callables σ) : Expr → Reached σ
  | .literal b => .value b
  | .predicate name => .call (.predicate name) (env.predicate name)
  | .operator op operands => .operands op operands
  | .function name args =>
    match env.function name, args with
    | .error e, _ => .fault e
    | .ok _, .error e => .fault e
    | .ok f, .ok args => .call (.function name args) (f args)
  | .invalid e => .fault e

namespace Callables

variable (env : Callables σ)

/-- What is called is a predicate, or a function that is there with arguments that
are values. -/
theorem eq_of_reach_call {env : Callables σ} {e : Expr} {callee : Callee} {f : σ → Output × σ}
    (h : env.reach e = .call callee f) :
    (∃ name, e = .predicate name ∧ callee = .predicate name ∧ f = env.predicate name) ∨
      ∃ name vs g, e = .function name (.ok vs) ∧ env.function name = .ok g ∧
        callee = .function name vs ∧ f = g vs := by
  cases e with
  | predicate name => cases h; exact .inl ⟨name, rfl, rfl, rfl⟩
  | function name args =>
    simp only [reach] at h
    cases hg : env.function name with
    | error e => rw [hg] at h; cases h
    | ok g =>
      rw [hg] at h
      cases args with
      | error e => cases h
      | ok vs => cases h; exact .inr ⟨name, vs, g, rfl, hg, rfl, rfl⟩
  | _ => cases h

/-- What is at fault is no expression, or a function that is not there, or one that
is there with arguments that are no values. -/
theorem eq_of_reach_fault {env : Callables σ} {e : Expr} {error : EvalError}
    (h : env.reach e = .fault error) :
    e = .invalid error ∨
      (∃ name args, e = .function name args ∧ env.function name = .error error) ∨
      ∃ name g, e = .function name (.error error) ∧ env.function name = .ok g := by
  cases e with
  | invalid e => cases h; exact .inl rfl
  | function name args =>
    simp only [reach] at h
    cases hg : env.function name with
    | error e => rw [hg] at h; cases h; exact .inr (.inl ⟨name, args, rfl, hg⟩)
    | ok g =>
      rw [hg] at h
      cases args with
      | error e => cases h; exact .inr (.inr ⟨name, g, rfl, hg⟩)
      | ok vs => cases h
  | _ => cases h

/-- A function is called or at fault. -/
theorem reach_function (name : String) (args : Except EvalError (List Value)) :
    (∃ callee f, env.reach (.function name args) = .call callee f) ∨
      ∃ error, env.reach (.function name args) = .fault error := by
  simp only [reach]
  cases env.function name <;> cases args <;> simp

theorem eq_of_reach_value {env : Callables σ} {e : Expr} {b : Bool} (h : env.reach e = .value b) :
    e = .literal b := by
  cases e with
  | literal b => cases h; rfl
  | function name args =>
    rcases env.reach_function name args with ⟨callee, f, hcall⟩ | ⟨error, hfault⟩
    · rw [hcall] at h; cases h
    · rw [hfault] at h; cases h
  | _ => cases h

theorem eq_of_reach_operands {env : Callables σ} {e : Expr} {op : Operator} {es : List Expr}
    (h : env.reach e = .operands op es) : e = .operator op es := by
  cases e with
  | operator op es => cases h; rfl
  | function name args =>
    rcases env.reach_function name args with ⟨callee, f, hcall⟩ | ⟨error, hfault⟩
    · rw [hcall] at h; cases h
    · rw [hfault] at h; cases h
  | _ => cases h

/-- Induction over expressions by what reaching them leads to, together with lists
of operands. -/
theorem induct {P : Expr → Prop} {Q : List Expr → Prop}
    (value : ∀ b, P (.literal b))
    (call : ∀ e callee f, env.reach e = .call callee f → P e)
    (fault : ∀ e error, env.reach e = .fault error → P e)
    (operator : ∀ op es, Q es → P (.operator op es))
    (nil : Q []) (cons : ∀ e es, P e → Q es → Q (e :: es)) :
    (∀ e, P e) ∧ ∀ es, Q es :=
  ⟨expression, operands⟩
where
  expression : ∀ e, P e
    | .literal b => value b
    | .predicate name => call (.predicate name) _ _ rfl
    | .operator op es => operator op es (operands es)
    | .function name args => by
      rcases env.reach_function name args with ⟨callee, f, h⟩ | ⟨error, h⟩
      · exact call _ _ _ h
      · exact fault _ _ h
    | .invalid e => fault (.invalid e) e rfl
  operands : ∀ es, Q es
    | [] => nil
    | e :: es => cons e es (expression e) (operands es)

end Callables

/-! ### Results of calls -/

namespace Output

/-- How often a result is found pending. -/
def yields : Output → Nat
  | .ready _ => 0
  | .deferred p => p.yields

/-- What waiting for the result of a call leaves in the journal. -/
def waits (call : Call) : Output → Journal
  | .ready _ => []
  | .deferred _ => [.started call, .finished call]

end Output

theorem Pollable.finish_waiting (call : Call) (v : Value) (n : Nat) (s : σ) :
    (waiting call v n s).finish = ⟨n + 1, [.finished call], s, .ok v⟩ := by
  induction n with
  | zero => rfl
  | succ n ih => simp [waiting, Step.finish, ih]

theorem Pollable.finish_await (call : Call) (p : Promise) (s : σ) :
    (await call p s).finish = ⟨p.yields + 1, [.started call, .finished call], s, .ok p.value⟩ := by
  simp [await, finish_waiting, Finished.after]

/-- Waiting for the result of a call, polled to the end. -/
theorem Output.finish_await (call : Call) (o : Output) (s : σ) :
    (o.await call s).finish =
      ⟨o.yields + 1, o.waits call, s, o.value.expectBool call.kind⟩ := by
  cases o with
  | ready v => rfl
  | deferred p =>
    have h := Pollable.finish_await call p s
    have hnext := Step.finish_next_of_ok (f := fun v : Value =>
      (Pollable.demand (v.expectBool call.kind) : Pollable σ Bool)) (t := Pollable.await call p s)
      (by rw [h])
    rw [h] at hnext
    exact hnext

/-! ### Values of operands -/

namespace Operator

theorem fallthroughValue_ne (op : Operator) : op.fallthroughValue ≠ op.decidingValue := by
  cases op <;> decide

/-- Of the two truth values one decides an operator and the other leaves it open. -/
theorem eq_decidingValue_or (op : Operator) (b : Bool) :
    b = op.decidingValue ∨ b = op.fallthroughValue := by
  cases op <;> cases b <;> decide

/-- What an operand that was awaited means for its operator. -/
theorem cases_of_result (op : Operator) (r : Except EvalError Bool) :
    (∃ error, r = .error error) ∨ r = .ok op.decidingValue ∨ r = .ok op.fallthroughValue := by
  cases r with
  | error e => exact .inl ⟨e, rfl⟩
  | ok b => rcases op.eq_decidingValue_or b with rfl | rfl <;> simp

/-- What the outcome of an operand means for its operator. -/
theorem cases_of_outcome (op : Operator) (r : Except EvalError Evaluation) :
    (∃ error, r.bind Evaluation.operandValue = .error error) ∨
      r = .ok (.ready op.decidingValue) ∨ r = .ok (.ready op.fallthroughValue) := by
  match r with
  | .error e => exact .inl ⟨e, rfl⟩
  | .ok (.deferred d) => exact .inl ⟨_, rfl⟩
  | .ok (.ready b) => rcases op.eq_decidingValue_or b with rfl | rfl <;> simp

end Operator

/-! ### The synchronous evaluation -/

namespace Sync

variable {env : Callables σ}

theorem evaluate_literal (p : Position) (b : Bool) (c : VisitCounter) (s : σ) :
    evaluate env p (.literal b) c s = ⟨[.visited p], [], c.visit, s, .ok (.ready b)⟩ := rfl

theorem evaluate_of_call {e : Expr} {callee : Callee} {f : σ → Output × σ}
    (h : env.reach e = .call callee f) (p : Position) (c : VisitCounter) (s : σ) :
    evaluate env p e c s =
      ⟨[.visited p, .called ⟨p, callee⟩ (f s).1], [c.visit], c.visit, (f s).2,
        (f s).1.settle ⟨p, callee⟩ c.visit⟩ := by
  rcases Callables.eq_of_reach_call h with
    ⟨name, rfl, rfl, rfl⟩ | ⟨name, vs, g, rfl, hg, rfl, rfl⟩
  · rfl
  · simp only [evaluate, Walk.bind_eq, Walk.next, Walk.demand, hg]
    rfl

theorem evaluate_of_fault {e : Expr} {error : EvalError} (h : env.reach e = .fault error)
    (p : Position) (c : VisitCounter) (s : σ) :
    evaluate env p e c s = ⟨[.visited p], [], c.visit, s, .error error⟩ := by
  rcases Callables.eq_of_reach_fault h with rfl | ⟨name, args, rfl, hg⟩ | ⟨name, g, rfl, hg⟩
  · rfl
  · simp only [evaluate, Walk.bind_eq, Walk.next, Walk.demand, hg]
    rfl
  · simp only [evaluate, Walk.bind_eq, Walk.next, Walk.demand, hg]
    rfl

theorem evaluate_operator (op : Operator) (es : List Expr) (p : Position) (c : VisitCounter)
    (s : σ) :
    evaluate env p (.operator op es) c s =
      let w := evaluateOperands env op p 0 es c.visit s
      ⟨.visited p :: w.journal, w.checks, w.counter, w.state, w.result.map .ready⟩ := by
  simp only [evaluate, Walk.bind_eq, Walk.next, Walk.enter]
  cases (evaluateOperands env op p 0 es c.visit s).result <;>
    simp [Walk.pure_eq, Walk.done, Except.map]

section Operands

variable {op : Operator} {p : Position} {i : Nat} {e : Expr} (es : List Expr) {c : VisitCounter}
  {s : σ}

/-- An operand that fails ends the operator, and so does one that gives a promise. -/
theorem evaluateOperands_cons_of_error {error : EvalError}
    (h : (evaluate env (p ++ [i]) e c s).result.bind Evaluation.operandValue = .error error) :
    evaluateOperands env op p i (e :: es) c s =
      let w := evaluate env (p ++ [i]) e c s
      ⟨w.journal, w.checks, w.counter, w.state, .error error⟩ := by
  simp only [evaluateOperands, Walk.bind_eq, Walk.next]
  cases hr : (evaluate env (p ++ [i]) e c s).result with
  | error e' =>
    rw [hr] at h
    cases h
    rfl
  | ok outcome =>
    rw [hr] at h
    simp only [Except.bind] at h
    simp [Walk.demand, h]

/-- An operand of the deciding value ends the operator. -/
theorem evaluateOperands_cons_of_decided
    (h : (evaluate env (p ++ [i]) e c s).result = .ok (.ready op.decidingValue)) :
    evaluateOperands env op p i (e :: es) c s =
      let w := evaluate env (p ++ [i]) e c s
      ⟨w.journal, w.checks, w.counter, w.state, .ok op.decidingValue⟩ := by
  simp only [evaluateOperands, Walk.bind_eq, Walk.next, h, Walk.demand, Evaluation.operandValue,
    if_true, Walk.pure_eq, Walk.done, List.append_nil]

/-- An operand of the other value leaves the operator to the operands after it. -/
theorem evaluateOperands_cons_of_undecided
    (h : (evaluate env (p ++ [i]) e c s).result = .ok (.ready op.fallthroughValue)) :
    evaluateOperands env op p i (e :: es) c s =
      let w := evaluate env (p ++ [i]) e c s
      let rest := evaluateOperands env op p (i + 1) es w.counter w.state
      ⟨w.journal ++ rest.journal, w.checks ++ rest.checks, rest.counter, rest.state,
        rest.result⟩ := by
  simp only [evaluateOperands, Walk.bind_eq, Walk.next, h, Walk.demand, Evaluation.operandValue,
    if_neg op.fallthroughValue_ne, List.nil_append]

end Operands

end Sync

/-! ### The asynchronous evaluation -/

namespace Async

variable {env : Callables σ}

theorem evaluate_literal (p : Position) (b : Bool) (s : σ) :
    evaluate env p (.literal b) s = .done [.visited p] s (.ok b) := rfl

theorem evaluate_of_call {e : Expr} {callee : Callee} {f : σ → Output × σ}
    (h : env.reach e = .call callee f) (p : Position) (s : σ) :
    evaluate env p e s =
      ((f s).1.await ⟨p, callee⟩ (f s).2).after [.visited p, .called ⟨p, callee⟩ (f s).1] := by
  rcases Callables.eq_of_reach_call h with
    ⟨name, rfl, rfl, rfl⟩ | ⟨name, vs, g, rfl, hg, rfl, rfl⟩
  · exact Step.after_after _ _ _
  · simp only [evaluate, Pollable.bind_eq, Pollable.next_apply, Pollable.enter, Step.next,
      Pollable.demand, hg, Pollable.perform, Step.after_after]
    rfl

theorem evaluate_of_fault {e : Expr} {error : EvalError} (h : env.reach e = .fault error)
    (p : Position) (s : σ) :
    evaluate env p e s = .done [.visited p] s (.error error) := by
  rcases Callables.eq_of_reach_fault h with rfl | ⟨name, args, rfl, hg⟩ | ⟨name, g, rfl, hg⟩
  · rfl
  · simp only [evaluate, Pollable.bind_eq, Pollable.next_apply, Pollable.enter, Step.next,
      Pollable.demand, hg]
    rfl
  · simp only [evaluate, Pollable.bind_eq, Pollable.next_apply, Pollable.enter, Step.next,
      Pollable.demand, hg]
    rfl

theorem evaluate_operator (op : Operator) (es : List Expr) (p : Position) (s : σ) :
    evaluate env p (.operator op es) s =
      (evaluateOperands env op p 0 es s).after [.visited p] := rfl

theorem evaluateOperands_cons (op : Operator) (p : Position) (i : Nat) (e : Expr) (es : List Expr)
    (s : σ) :
    evaluateOperands env op p i (e :: es) s =
      (evaluate env (p ++ [i]) e s).next fun b =>
        if b = op.decidingValue then Pollable.done b else evaluateOperands env op p (i + 1) es :=
  rfl

/-- An expression is entered in the poll in which it is reached. -/
theorem evaluate_eq_after (env : Callables σ) (e : Expr) (p : Position) (s : σ) :
    ∃ t : Step σ Bool, evaluate env p e s = t.after [.visited p] := by
  cases h : env.reach e with
  | value b =>
    obtain rfl := Callables.eq_of_reach_value h
    exact ⟨.done [] s (.ok b), evaluate_literal p b s⟩
  | call callee f =>
    refine ⟨((f s).1.await ⟨p, callee⟩ (f s).2).after [.called ⟨p, callee⟩ (f s).1], ?_⟩
    rw [evaluate_of_call h, Step.after_after]
    rfl
  | fault error => exact ⟨.done [] s (.error error), evaluate_of_fault h p s⟩
  | operands op es =>
    obtain rfl := Callables.eq_of_reach_operands h
    exact ⟨_, evaluate_operator op es p s⟩

/-! ### Polling it to the end -/

theorem finish_evaluate_literal (p : Position) (b : Bool) (s : σ) :
    (evaluate env p (.literal b)).finish s = ⟨1, [.visited p], s, .ok b⟩ := by
  rw [Pollable.finish, evaluate_literal, Step.finish_done]

theorem finish_evaluate_of_call {e : Expr} {callee : Callee} {f : σ → Output × σ}
    (h : env.reach e = .call callee f) (p : Position) (s : σ) :
    (evaluate env p e).finish s =
      let call : Call := ⟨p, callee⟩
      ⟨(f s).1.yields + 1, .visited p :: .called call (f s).1 :: (f s).1.waits call, (f s).2,
        (f s).1.value.expectBool callee.kind⟩ := by
  simp only [Pollable.finish, evaluate_of_call h, Step.finish_after, Output.finish_await]
  rfl

theorem finish_evaluate_of_fault {e : Expr} {error : EvalError} (h : env.reach e = .fault error)
    (p : Position) (s : σ) :
    (evaluate env p e).finish s = ⟨1, [.visited p], s, .error error⟩ := by
  rw [Pollable.finish, evaluate_of_fault h, Step.finish_done]

theorem finish_evaluate_operator (op : Operator) (es : List Expr) (p : Position) (s : σ) :
    (evaluate env p (.operator op es)).finish s =
      ((evaluateOperands env op p 0 es).finish s).after [.visited p] := by
  rw [Pollable.finish, evaluate_operator, Step.finish_after, Pollable.finish]

theorem finish_evaluateOperands_nil (op : Operator) (p : Position) (i : Nat) (s : σ) :
    (evaluateOperands env op p i []).finish s = ⟨1, [], s, .ok op.fallthroughValue⟩ := rfl

section Operands

variable {op : Operator} {p : Position} {i : Nat} {e : Expr} (es : List Expr) {s : σ}

/-- An operand that fails ends the operator. -/
theorem finish_evaluateOperands_cons_of_error {error : EvalError}
    (h : ((evaluate env (p ++ [i]) e).finish s).result = .error error) :
    (evaluateOperands env op p i (e :: es)).finish s = (evaluate env (p ++ [i]) e).finish s := by
  rw [Pollable.finish, evaluateOperands_cons, Step.finish_next_of_error h, ← h]
  rfl

/-- An operand of the deciding value ends the operator. -/
theorem finish_evaluateOperands_cons_of_decided
    (h : ((evaluate env (p ++ [i]) e).finish s).result = .ok op.decidingValue) :
    (evaluateOperands env op p i (e :: es)).finish s = (evaluate env (p ++ [i]) e).finish s := by
  rw [Pollable.finish, evaluateOperands_cons, Step.finish_next_of_ok h, if_pos rfl]
  simp only [Pollable.done, Step.finish_done, Finished.followedBy, List.append_nil, ← h]
  rfl

/-- An operand of the other value leaves the operator to the operands after it. -/
theorem finish_evaluateOperands_cons_of_undecided
    (h : ((evaluate env (p ++ [i]) e).finish s).result = .ok op.fallthroughValue) :
    (evaluateOperands env op p i (e :: es)).finish s =
      let first := (evaluate env (p ++ [i]) e).finish s
      first.followedBy ((evaluateOperands env op p (i + 1) es).finish first.state) := by
  rw [Pollable.finish, evaluateOperands_cons, Step.finish_next_of_ok h,
    if_neg op.fallthroughValue_ne]
  rfl

end Operands

end Async

end BooleanRules
