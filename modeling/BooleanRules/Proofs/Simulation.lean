import BooleanRules.Proofs.Entry
import BooleanRules.Proofs.Lockstep
import BooleanRules.Proofs.Positions

/-!
# The asynchronous evaluation simulates the synchronous one

An evaluation without waiting is, seen from the one with waiting, either all of it
or a beginning of it.  If no call gave a promise the two are the same.  If the root
gave one, waiting for the outcome is what is missing.  If a call below the root
gave one, the walk has failed at the very point where waiting begins.

## Main definitions

* `Simulation` — how the end of waiting follows from the end of the walk.

## Main results

* `evaluateAsync_simulates_evaluateSync` — **the two evaluations of an optional
  expression, under any policy and from any state, simulate each other.**
* `Simulation.journal_isPrefix` — a walk begins what the waiting does.
-/

namespace BooleanRules

variable {σ : Type}

/-- How the end `a` of waiting follows from the end `w` of a walk. -/
structure Simulation (w : Walked σ Evaluation) (a : Finished σ Bool) : Prop where
  /-- A truth value at the end of the walk is the result of one poll, in which the
  same happens. -/
  ready : ∀ b, w.result = .ok (.ready b) → a = ⟨1, w.journal, w.state, .ok b⟩
  /-- So is an error that is not about a promise. -/
  failed : ∀ error, w.result = .error error →
    (∀ kind, error ≠ .unexpectedNestedPromise kind) → a = ⟨1, w.journal, w.state, .error error⟩
  /-- Waiting for the promise of the root comes to the same, in as many polls, and
  what happens then is what is missing in the walk. -/
  deferred : ∀ d, w.result = .ok (.deferred d) →
    a = ((Evaluation.deferred d).resolve.finish w.state).after w.journal ∧
      ((∃ b, a.result = .ok b) ∨
        a.result = .error (.unexpectedReturnType d.kind d.promise.value.type))
  /-- A promise below the root comes from the last call of the walk.  Waiting does
  what the walk did, then waits for this promise, and goes on. -/
  nested : ∀ kind, w.result = .error (.unexpectedNestedPromise kind) →
    ∃ earlier call promise, ∃ resume : Value → Pollable σ Bool,
      call.kind = kind ∧ call.position ≠ [] ∧
      w.journal = earlier ++ [.called call (.deferred promise)] ∧
      a = (((Pollable.await call promise).next resume).finish w.state).after w.journal ∧
      promise.yields < a.polls ∧
      ∃ later, a.journal = w.journal ++ .started call :: .finished call :: later

namespace Simulation

variable {w : Walked σ Evaluation} {a : Finished σ Bool}

theorem of_ready {b : Bool} (hw : w.result = .ok (.ready b))
    (ha : a = ⟨1, w.journal, w.state, .ok b⟩) : Simulation w a where
  ready b' h := by rw [hw] at h; cases h; exact ha
  failed error h := by rw [hw] at h; cases h
  deferred d h := by rw [hw] at h; cases h
  nested kind h := by rw [hw] at h; cases h

theorem of_failed {error : EvalError} (hw : w.result = .error error)
    (hother : ∀ kind, error ≠ .unexpectedNestedPromise kind)
    (ha : a = ⟨1, w.journal, w.state, .error error⟩) : Simulation w a where
  ready b h := by rw [hw] at h; cases h
  failed error' h _ := by rw [hw] at h; cases h; exact ha
  deferred d h := by rw [hw] at h; cases h
  nested kind h := by rw [hw] at h; cases h; exact absurd rfl (hother kind)

theorem of_deferred {d : Deferred} (hw : w.result = .ok (.deferred d))
    (ha : a = ((Evaluation.deferred d).resolve.finish w.state).after w.journal) :
    Simulation w a where
  ready b h := by rw [hw] at h; cases h
  failed error h := by rw [hw] at h; cases h
  deferred d' h := by
    rw [hw] at h
    cases h
    refine ⟨ha, ?_⟩
    have hresult : a.result = d.promise.value.expectBool d.kind := by
      rw [ha, Finished.result_after]
      exact congrArg Finished.result (Output.finish_await d.call (.deferred d.promise) w.state)
    rw [hresult]
    exact d.promise.value.expectBool_cases d.kind
  nested kind h := by rw [hw] at h; cases h

/-- Waiting for a promise and going on, polled to the end. -/
theorem finish_await_next (call : Call) (promise : Promise) (resume : Value → Pollable σ Bool)
    (s : σ) :
    ((Pollable.await call promise).next resume).finish s =
      (⟨promise.yields + 1, [.started call, .finished call], s, .ok promise.value⟩ :
        Finished σ Value).followedBy ((resume promise.value).finish s) := by
  have h : (Pollable.await call promise s).finish.result = .ok promise.value := by
    rw [Pollable.finish_await]
  rw [Pollable.finish, Pollable.next_apply, Step.finish_next_of_ok h, Pollable.finish_await]
  rfl

theorem of_nested {earlier : Journal} {call : Call} {promise : Promise}
    (resume : Value → Pollable σ Bool)
    (hw : w.result = .error (.unexpectedNestedPromise call.kind)) (hcall : call.position ≠ [])
    (hjournal : w.journal = earlier ++ [.called call (.deferred promise)])
    (ha : a = (((Pollable.await call promise).next resume).finish w.state).after w.journal) :
    Simulation w a where
  ready b h := by rw [hw] at h; cases h
  failed error h hother := by rw [hw] at h; cases h; exact absurd rfl (hother call.kind)
  deferred d h := by rw [hw] at h; cases h
  nested kind h := by
    rw [hw] at h
    cases h
    refine ⟨earlier, call, promise, resume, rfl, hcall, hjournal, ha, ?_, ?_⟩
    · rw [ha, Finished.polls_after, finish_await_next]
      exact Nat.lt_of_lt_of_le (Nat.lt_succ_self _) (Nat.le_add_right _ _)
    · refine ⟨((resume promise.value).finish w.state).journal, ?_⟩
      rw [ha, Finished.journal_after, finish_await_next]
      rfl

end Simulation

/-- What is in step is a simulation, if no promise is from the root. -/
theorem InStep.simulation {w : Walked σ Evaluation} {t : Step σ Bool} (h : InStep .ready w t)
    (hcalls : ∀ call promise, .called call (.deferred promise) ∈ w.journal →
      call.position ≠ []) :
    Simulation w t.finish := by
  rcases h with ⟨b, hres, -, rfl⟩ | ⟨error, hres, hother, -, rfl⟩ |
    ⟨earlier, call, promise, resume, hres, hjournal, -, rfl⟩
  · exact .of_ready hres rfl
  · exact .of_failed hres hother rfl
  · have hmem : .called call (.deferred promise) ∈ w.journal := by
      rw [hjournal]
      exact List.mem_append_right _ (List.mem_singleton_self _)
    exact .of_nested resume hres (hcalls call _ hmem) hjournal (Step.finish_after _ _)

/-- A walk begins what the waiting does that simulates it. -/
theorem Simulation.journal_isPrefix {w : Walked σ Evaluation} {a : Finished σ Bool}
    (h : Simulation w a) : w.journal <+: a.journal := by
  match hres : w.result with
  | .ok (.ready b) =>
    obtain rfl := h.ready b hres
    exact List.prefix_rfl
  | .ok (.deferred d) =>
    rw [(h.deferred d hres).1]
    exact List.prefix_append _ _
  | .error error =>
    by_cases hkind : ∃ kind, error = .unexpectedNestedPromise kind
    · obtain ⟨kind, rfl⟩ := hkind
      obtain ⟨_, _, _, _, _, _, _, _, _, later, hlater⟩ := h.nested kind hres
      rw [hlater]
      exact List.prefix_append _ _
    · obtain rfl := h.failed error hres fun kind heq => hkind ⟨kind, heq⟩
      exact List.prefix_rfl

namespace Sync

/-- An operator at the root calls nothing there. -/
theorem position_ne_nil_of_operator (env : Callables σ) (op : Operator) {es : List Expr}
    (hes : Expr.AllReadable es) {c : VisitCounter} (hc : 1 ≤ c.visits) (s : σ) (call : Call)
    (o : Output) (h : .called call o ∈ (evaluateOperands env op [] 0 es c s).journal) :
    call.position ≠ [] := by
  have hstep := inStep_evaluateOperands env hes op [] 0 hc s
  obtain ⟨k, -, hk⟩ :=
    Async.under_evaluateOperands env es op [] 0 s _ (hstep.journal_isPrefix.subset h)
  intro hnil
  rw [Event.position, hnil] at hk
  exact Position.not_prefix_self [] k hk

/-- The walk from a root, and waiting for it. -/
theorem simulation_evaluate (env : Callables σ) {e : Expr} (he : e.Readable) (s : σ) :
    Simulation ((evaluate env [] e).run s) ((Async.evaluate env [] e).finish s) := by
  match hreach : env.reach e with
  | .value b =>
    obtain rfl := Callables.eq_of_reach_value hreach
    exact .of_ready (b := b) rfl rfl
  | .call callee f =>
    rw [Walk.run, evaluate_of_call hreach, Pollable.finish, Async.evaluate_of_call hreach]
    cases (f s).1 with
    | ready v =>
      refine (InStep.settle_ready ⟨[], callee⟩ v _ [] _ _).simulation ?_
      intro call promise h
      simp at h
    | deferred promise =>
      -- the first node entered is the root, so its promise is handed over
      exact .of_deferred (d := ⟨⟨[], callee⟩, promise⟩) rfl (Step.finish_after _ _)
  | .fault error =>
    rw [Walk.run, evaluate_of_fault hreach, Async.finish_evaluate_of_fault hreach]
    refine .of_failed rfl ?_ rfl
    rintro kind rfl
    rcases Callables.error_of_reach_fault he hreach with hreading | ⟨name, hname⟩
    · exact hreading
    · cases hname
  | .operands op es =>
    obtain rfl := Callables.eq_of_reach_operands hreach
    refine (inStep_operator env he op [] {} s).simulation ?_
    intro call promise h
    rw [evaluate_operator] at h
    rcases List.mem_cons.mp h with heq | h
    · cases heq
    · exact position_ne_nil_of_operator env op he (Nat.le_refl 1) s call _ h

end Sync

/-- **Waiting simulates walking**: under any policy, for any expression and from any
state. -/
theorem evaluateAsync_simulates_evaluateSync (policy : MissingRoot) (env : Callables σ)
    (expression : Option Node) (s : σ) :
    Simulation ((evaluateSync policy env expression).run s)
      ((evaluateAsync policy env expression).finish s) := by
  match hroot : policy.root expression with
  | .error error =>
    rw [Walk.run, evaluateSync_of_error hroot, Pollable.finish, evaluateAsync_of_error hroot]
    obtain ⟨-, -, rfl⟩ := MissingRoot.eq_of_root_error hroot
    exact .of_failed rfl (by intro kind h; cases h) rfl
  | .ok none =>
    rw [Walk.run, evaluateSync_of_none hroot, Pollable.finish, evaluateAsync_of_none hroot]
    exact .of_ready rfl rfl
  | .ok (some root) =>
    rw [Walk.run, evaluateSync_of_root hroot, Pollable.finish, evaluateAsync_of_root hroot]
    exact Sync.simulation_evaluate env (Expr.readable_ofNode root) s

end BooleanRules
