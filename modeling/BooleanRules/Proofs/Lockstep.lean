import BooleanRules.Proofs.Reading
import BooleanRules.Proofs.Visits

/-!
# Walking and waiting in step

Below the root the synchronous and the asynchronous evaluation of an expression do
the same until a call gives a promise: the one then fails, the other waits for the
promise and goes on.  `InStep` says so of a walk and the first step of waiting, in
a form that a sequence of operands keeps: what waiting does after the promise is
left open.

## Main definitions

* `Journal.Immediate` — no call gave a promise.
* `InStep` — a walk and a step of waiting, side by side.

## Main results

* `Sync.inStep_evaluate` — the two evaluations of an expression that is not the
  root are in step.
-/

namespace BooleanRules

variable {σ α : Type}

/-- Every call gave its value at once. -/
def Journal.Immediate (j : Journal) : Prop := ∀ call p, Event.called call (.deferred p) ∉ j

/-- A walk and a step of waiting, side by side.  `embed` is how the walk gives the
truth value that waiting gives. -/
inductive InStep (embed : Bool → α) (w : Walked σ α) (t : Step σ Bool) : Prop where
  /-- Both are done, with a truth value. -/
  | done (b : Bool) (result : w.result = .ok (embed b)) (immediate : w.journal.Immediate)
      (step : t = .done w.journal w.state (.ok b))
  /-- Both are done, with an error that is not about a promise. -/
  | failed (error : EvalError) (result : w.result = .error error)
      (other : ∀ kind, error ≠ .unexpectedNestedPromise kind) (immediate : w.journal.Immediate)
      (step : t = .done w.journal w.state (.error error))
  /-- The last call of the walk gave a promise.  The walk has failed for it, and
  waiting goes on with it. -/
  | waits (earlier : Journal) (call : Call) (promise : Promise) (resume : Value → Pollable σ Bool)
      (result : w.result = .error (.unexpectedNestedPromise call.kind))
      (journal : w.journal = earlier ++ [.called call (.deferred promise)])
      (immediate : earlier.Immediate)
      (step : t = ((Pollable.await call promise).next resume w.state).after w.journal)

namespace Journal

theorem immediate_nil : Immediate [] := by
  intro call p h
  cases h

theorem Immediate.append {j k : Journal} (hj : j.Immediate) (hk : k.Immediate) :
    Immediate (j ++ k) := by
  intro call p h
  rcases List.mem_append.mp h with h | h
  · exact hj call p h
  · exact hk call p h

theorem immediate_visited (p : Position) : Immediate [.visited p] := by
  intro call q h
  simp at h

/-- A promise that comes last is the only one. -/
theorem Immediate.eq_of_called {before earlier later : Journal} {last call : Call}
    {promise promise' : Promise} (himm : before.Immediate)
    (h : before ++ [.called last (.deferred promise')] =
      earlier ++ .called call (.deferred promise) :: later) :
    call = last ∧ later = [] := by
  rcases split_append h with ⟨rest, rfl, -⟩ | ⟨between, rfl, hlast⟩
  · exact absurd (List.mem_append_right _ List.mem_cons_self) (himm call promise)
  · cases between with
    | nil =>
      simp only [List.nil_append, List.cons.injEq, Event.called.injEq] at hlast
      exact ⟨hlast.1.1.symm, hlast.2.symm⟩
    | cons ev between => simp at hlast

end Journal

/-- A value passes the check of a call's result, or it is of another type. -/
theorem Value.expectBool_cases (kind : CallKind) (v : Value) :
    (∃ b, v.expectBool kind = .ok b) ∨
      v.expectBool kind = .error (.unexpectedReturnType kind v.type) := by
  cases v with
  | bool b => exact .inl ⟨b, rfl⟩
  | _ => exact .inr rfl

namespace Output

variable {v : Value} {b : Bool} {error : EvalError}

theorem settle_ready_of_ok (call : Call) (h : v.expectBool call.kind = .ok b) (c : VisitCounter) :
    (ready v).settle call c = .ok (.ready b) := by
  simp only [settle, h]
  rfl

theorem settle_ready_of_error (call : Call) (h : v.expectBool call.kind = .error error)
    (c : VisitCounter) : (ready v).settle call c = .error error := by
  simp only [settle, h]
  rfl

end Output

namespace InStep

variable {embed : Bool → α} {w : Walked σ α} {t : Step σ Bool}

/-- A walk with more before it, and waiting with the same before it. -/
theorem after {v : Walked σ Bool} (h : InStep id v t) {j : Journal} (hj : j.Immediate)
    (journal : w.journal = j ++ v.journal) (state : w.state = v.state)
    (result : w.result = v.result.map embed) : InStep embed w (t.after j) := by
  rcases h with ⟨b, hres, himm, rfl⟩ | ⟨error, hres, hother, himm, rfl⟩ |
    ⟨earlier, call, promise, resume, hres, hjournal, himm, rfl⟩
  · refine .done b (by rw [result, hres]; rfl) (journal ▸ hj.append himm) ?_
    rw [journal, state]
    rfl
  · refine .failed error (by rw [result, hres]; rfl) hother (journal ▸ hj.append himm) ?_
    rw [journal, state]
    rfl
  · refine .waits (j ++ earlier) call promise resume (by rw [result, hres]; rfl) ?_
      (hj.append himm) ?_
    · rw [journal, hjournal, List.append_assoc]
    · rw [journal, state, Step.after_after]

/-- The walk begins what waiting does. -/
theorem journal_isPrefix (h : InStep embed w t) : w.journal <+: t.finish.journal := by
  rcases h with ⟨b, -, -, rfl⟩ | ⟨error, -, -, -, rfl⟩ |
    ⟨earlier, call, promise, resume, -, -, -, rfl⟩
  · exact List.prefix_rfl
  · exact List.prefix_rfl
  · rw [Step.finish_after]
    exact List.prefix_append _ _

/-- A value that a call gave at once, checked and awaited. -/
theorem settle_ready (call : Call) (v : Value) (c : VisitCounter) (p : Position)
    (checks : List VisitCounter) (s : σ) :
    InStep .ready
      ⟨[.visited p, .called call (.ready v)], checks, c, s, (Output.ready v).settle call c⟩
      (((Output.ready v).await call s).after [.visited p, .called call (.ready v)]) := by
  have himm : Journal.Immediate [.visited p, .called call (.ready v)] := by
    intro call' promise h
    simp at h
  rcases v.expectBool_cases call.kind with ⟨b, hb⟩ | herror
  · refine .done b (Output.settle_ready_of_ok call hb c) himm ?_
    simp only [Output.await, Pollable.demand, hb]
    rfl
  · refine .failed _ (Output.settle_ready_of_error call herror c) (by intro kind h; cases h) himm ?_
    simp only [Output.await, Pollable.demand, herror]
    rfl

/-- The result of a call below the root, checked and awaited. -/
theorem settle (call : Call) (o : Output) {c : VisitCounter} (hc : c.isRootVisit = false)
    (p : Position) (checks : List VisitCounter) (s : σ) :
    InStep .ready ⟨[.visited p, .called call o], checks, c, s, o.settle call c⟩
      ((o.await call s).after [.visited p, .called call o]) := by
  cases o with
  | ready v => exact settle_ready call v c p checks s
  | deferred promise =>
    refine .waits [.visited p] call promise
      (fun v => Pollable.demand (v.expectBool call.kind)) ?_ rfl (Journal.immediate_visited p) rfl
    simp [Output.settle, hc]

end InStep

namespace Sync

theorem isRootVisit_visit {c : VisitCounter} (hc : 1 ≤ c.visits) :
    c.visit.isRootVisit = false := by
  simp only [VisitCounter.isRootVisit, VisitCounter.visits_visit, beq_eq_false_iff_ne]
  omega

/-- **The two evaluations are in step** below the root, where some node has been
entered before. -/
theorem inStep (env : Callables σ) :
    (∀ e : Expr, e.Readable → ∀ p c s, 1 ≤ c.visits →
        InStep .ready (evaluate env p e c s) (Async.evaluate env p e s)) ∧
      ∀ es, Expr.AllReadable es → ∀ op p i c s, 1 ≤ c.visits →
        InStep id (evaluateOperands env op p i es c s)
          (Async.evaluateOperands env op p i es s) := by
  refine env.induct ?_ ?_ ?_ ?_ ?_ ?_
  · intro b _ p c s _
    exact .done b rfl (Journal.immediate_visited p) rfl
  · intro e callee f h _ p c s hc
    rw [evaluate_of_call h, Async.evaluate_of_call h]
    exact .settle ⟨p, callee⟩ _ (isRootVisit_visit hc) p _ _
  · intro e error h he p c s _
    rw [evaluate_of_fault h, Async.evaluate_of_fault h]
    refine .failed error rfl ?_ (Journal.immediate_visited p) rfl
    rintro kind rfl
    rcases Callables.error_of_reach_fault he h with hreading | ⟨name, hname⟩
    · exact hreading
    · cases hname
  · intro op es ih he p c s _
    have hops := ih he op p 0 c.visit s (Nat.le_add_left 1 c.visits)
    rw [evaluate_operator, Async.evaluate_operator]
    exact hops.after (Journal.immediate_visited p) rfl rfl rfl
  · intro _ op p i c s _
    exact .done op.fallthroughValue rfl Journal.immediate_nil rfl
  · intro e es ihe ihes hreadable op p i c s hc
    rw [Async.evaluateOperands_cons]
    -- what the first operand comes to decides what is left to do
    rcases ihe hreadable.1 (p ++ [i]) c s hc with ⟨b, hres, himm, hstep⟩ |
      ⟨error, hres, hother, himm, hstep⟩ |
      ⟨earlier, call, promise, resume, hres, hjournal, himm, hstep⟩
    · rw [hstep]
      rcases op.eq_decidingValue_or b with rfl | rfl
      · rw [evaluateOperands_cons_of_decided es hres, Step.next, if_pos rfl]
        refine .done op.decidingValue rfl himm ?_
        simp only [Pollable.done, Step.after, List.append_nil]
      · have hle := (counted_evaluate env e (p ++ [i]) c s).le_visits_counter
        have hrest := ihes hreadable.2 op p (i + 1) (evaluate env (p ++ [i]) e c s).counter
          (evaluate env (p ++ [i]) e c s).state (Nat.le_trans hc hle)
        rw [evaluateOperands_cons_of_undecided es hres, Step.next, if_neg op.fallthroughValue_ne]
        refine hrest.after himm rfl rfl ?_
        cases (evaluateOperands env op p (i + 1) es _ _).result <;> rfl
    · rw [evaluateOperands_cons_of_error es (by rw [hres]; rfl), hstep]
      exact .failed error rfl hother himm rfl
    · rw [evaluateOperands_cons_of_error es (by rw [hres]; rfl), hstep, Step.next_after,
        Pollable.next_apply, Step.next_next]
      exact .waits earlier call promise _ rfl hjournal himm rfl

theorem inStep_evaluate (env : Callables σ) {e : Expr} (he : e.Readable) (p : Position)
    {c : VisitCounter} (hc : 1 ≤ c.visits) (s : σ) :
    InStep .ready (evaluate env p e c s) (Async.evaluate env p e s) :=
  (inStep env).1 e he p c s hc

theorem inStep_evaluateOperands (env : Callables σ) {es : List Expr} (hes : Expr.AllReadable es)
    (op : Operator) (p : Position) (i : Nat) {c : VisitCounter} (hc : 1 ≤ c.visits) (s : σ) :
    InStep id (evaluateOperands env op p i es c s) (Async.evaluateOperands env op p i es s) :=
  (inStep env).2 es hes op p i c s hc

/-- An operator keeps in step wherever it stands, at the root too. -/
theorem inStep_operator (env : Callables σ) {es : List Expr} (hes : Expr.AllReadable es)
    (op : Operator) (p : Position) (c : VisitCounter) (s : σ) :
    InStep .ready (evaluate env p (.operator op es) c s)
      (Async.evaluate env p (.operator op es) s) := by
  have hops := inStep_evaluateOperands env hes op p 0 (Nat.le_add_left 1 c.visits) s
  rw [evaluate_operator, Async.evaluate_operator]
  exact hops.after (Journal.immediate_visited p) rfl rfl rfl

end Sync

end BooleanRules
