import Mathlib.Data.List.Forall2
import BooleanRules.Proofs.Conversion
import BooleanRules.Proofs.RootPromise
import BooleanRules.Proofs.Simulation

/-!
# Evidence for answers

An evaluation looks at operands in a fixed order and stops early, but an answer can be
justified without any order: by the truth value that a call gives, by one operand that
decides its operator, or by all operands if none of them does.  What nobody looked at is no
part of such evidence, and it does no harm if it is malformed.  Where callables are pure, there
is evidence for at most one truth value.  So two evaluations that answer can be compared through
the evidence for their answers, however different the ways are that they took.

## Main definitions

* `answerSync`, `answerAsync` — the truth value that an evaluation comes to in the end.
* `Callables.Pure` — what a call gives does not depend on the state; `admitting` is an example.
* `Expr.Supports` — there is evidence for a truth value of an expression.

## Main results

* `Expr.Supports.unique` — **pure callables support one truth value at most.**
* `answerAsync_of_answerSync` — who waits comes to the same answer.
* `supports_of_answerAsync` — **answers are supported.**
* `Expr.Supports.operator_congr` — evidence for an operator from evidence for operands.
-/

namespace BooleanRules

variable {σ : Type}

/-! ### Answers -/

/-- The truth value that an evaluation without waiting comes to; a promise that it hands over
is waited for. -/
def answerSync (policy : MissingRoot) (env : Callables σ) (expression : Option Node) (s : σ) :
    Except EvalError Bool :=
  let w := (evaluateSync policy env expression).run s
  w.result.bind fun outcome => (outcome.resolve.finish w.state).result

/-- The truth value that an evaluation with waiting comes to. -/
def answerAsync (policy : MissingRoot) (env : Callables σ) (expression : Option Node) (s : σ) :
    Except EvalError Bool :=
  ((evaluateAsync policy env expression).finish s).result

section Answers

variable {policy : MissingRoot} {env : Callables σ} {expression : Option Node} {s : σ}

/-- A walk that has an outcome comes to what waiting comes to. -/
theorem Simulation.result_eq {w : Walked σ Evaluation} {a : Finished σ Bool}
    (h : Simulation w a) {outcome : Evaluation} (hw : w.result = .ok outcome) :
    (outcome.resolve.finish w.state).result = a.result := by
  cases outcome with
  | ready b =>
    rw [h.ready b hw]
    rfl
  | deferred d =>
    rw [(h.deferred d hw).1]
    rfl

/-- An evaluation without waiting that has an outcome answers like the one with waiting. -/
theorem answerSync_eq_answerAsync {outcome : Evaluation}
    (h : ((evaluateSync policy env expression).run s).result = .ok outcome) :
    answerSync policy env expression s = answerAsync policy env expression s := by
  match hroot : policy.root expression with
  | .error error =>
    rw [Walk.run, evaluateSync_of_error hroot] at h
    cases h
  | .ok none =>
    rw [answerSync, answerAsync, Walk.run, evaluateSync_of_none hroot, Pollable.finish,
      evaluateAsync_of_none hroot]
    rfl
  | .ok (some root) =>
    have hsimulation := Sync.simulation_evaluate env (Expr.readable_ofNode root) s
    rw [Walk.run, evaluateSync_of_root hroot] at h
    rw [answerSync, answerAsync, Walk.run, evaluateSync_of_root hroot, h,
      finish_evaluateAsync_of_root hroot]
    exact hsimulation.result_eq h

theorem answerAsync_of_answerSync {b : Bool}
    (h : answerSync policy env expression s = .ok b) :
    answerAsync policy env expression s = .ok b := by
  obtain ⟨outcome, hresult, -⟩ := exists_of_bind_eq_ok h
  rw [← answerSync_eq_answerAsync hresult, h]

end Answers

/-! ### Pure callables -/

/-- What a call gives does not depend on the state: a predicate always gives the same value,
and the value of a function depends on its arguments alone. -/
structure Callables.Pure (env : Callables σ) : Prop where
  /-- The predicates. -/
  predicate : ∀ name s s', (env.predicate name s).1.value = (env.predicate name s').1.value
  /-- The functions. -/
  function : ∀ name f, env.functions.get? name = some f →
    ∀ args s s', (f args s).1.value = (f args s').1.value

theorem Callables.Pure.value_eq {env : Callables σ} (h : env.Pure) {e : Expr} {callee : Callee}
    {f : σ → Output × σ} (hreach : env.reach e = .call callee f) (s s' : σ) :
    (f s).1.value = (f s').1.value := by
  rcases eq_of_reach_call hreach with ⟨name, rfl, rfl, rfl⟩ | ⟨name, vs, g, rfl, hg, rfl, rfl⟩
  · exact h.predicate name s s'
  · exact h.function name g (function_eq_ok_iff.mp hg) vs s s'

/-- Guests may be admitted, and then they own every file and not the draft alone.  Other
predicates promise true, later with each call.  The state counts the calls. -/
def admitting (guests : Bool) : Callables Nat where
  predicate name calls :=
    (if name = "guest" then .ready (.bool guests) else .deferred ⟨.bool true, calls⟩, calls + 1)
  functions := Registry.empty.register "owns" fun args calls =>
    (.ready (.bool (guests || match args with | [.string "draft"] => true | _ => false)), calls + 1)

/-- What is promised does not depend on the number of calls, only when it is there does. -/
theorem admitting_pure (guests : Bool) : (admitting guests).Pure where
  predicate name calls calls' := by
    by_cases hname : name = "guest" <;> simp [admitting, hname, Output.value]
  function name f hf args calls calls' := by
    simp only [admitting, Registry.get?_register, Registry.get?_empty] at hf
    by_cases hname : name = "owns"
    · rw [if_pos hname] at hf
      cases hf
      rfl
    · rw [if_neg hname] at hf
      cases hf

/-! ### Lists side by side -/

section Lists

variable {α β : Type} {R : α → β → Prop} {xs : List α} {ys : List β}

theorem exists_counterpart (h : List.Forall₂ R xs ys) {x : α} (hx : x ∈ xs) :
    ∃ y ∈ ys, R x y := by
  induction h with
  | nil => cases hx
  | cons hfirst _ ih =>
    rcases List.mem_cons.mp hx with rfl | hx
    · exact ⟨_, List.mem_cons_self, hfirst⟩
    · obtain ⟨y, hy, hxy⟩ := ih hx
      exact ⟨y, List.mem_cons_of_mem _ hy, hxy⟩

theorem exists_original (h : List.Forall₂ R xs ys) {y : β} (hy : y ∈ ys) :
    ∃ x ∈ xs, R x y :=
  exists_counterpart h.flip hy

end Lists

/-! ### Evidence -/

namespace Expr

/-- There is evidence that the expression has the truth value. -/
inductive Supports (env : Callables σ) : Expr → Bool → Prop
  /-- A literal is evidence for itself. -/
  | literal (b : Bool) : Supports env (.literal b) b
  /-- A call gives the truth value. -/
  | call {e : Expr} {callee : Callee} {f : σ → Output × σ} {s : σ} {b : Bool}
    (reached : env.reach e = .call callee f) (given : (f s).1.value = .bool b) : Supports env e b
  /-- An operand decides the operator. -/
  | decided {op : Operator} {es : List Expr} {e : Expr} (mem : e ∈ es)
    (operand : Supports env e op.decidingValue) :
    Supports env (.operator op es) op.decidingValue
  /-- No operand decides the operator. -/
  | undecided {op : Operator} {es : List Expr}
    (operands : ∀ e ∈ es, Supports env e op.fallthroughValue) :
    Supports env (.operator op es) op.fallthroughValue

variable {env : Callables σ} {op : Operator} {es : List Expr} {b : Bool}

/-- What supports an operator: an operand that decides it, or all of them. -/
theorem supports_operator_iff :
    Supports env (.operator op es) b ↔
      (b = op.decidingValue ∧ ∃ e ∈ es, Supports env e b) ∨
        (b = op.fallthroughValue ∧ ∀ e ∈ es, Supports env e b) := by
  constructor
  · intro h
    cases h with
    | call reached given => cases reached
    | decided mem operand => exact .inl ⟨rfl, _, mem, operand⟩
    | undecided operands => exact .inr ⟨rfl, operands⟩
  · rintro (⟨rfl, e, mem, operand⟩ | ⟨rfl, operands⟩)
    · exact .decided mem operand
    · exact .undecided operands

/-- **Pure callables support one truth value at most.** -/
theorem Supports.unique (hpure : env.Pure) {e : Expr} {b b' : Bool} (h : Supports env e b)
    (h' : Supports env e b') : b = b' := by
  induction h generalizing b' with
  | literal b =>
    cases h' with
    | literal => rfl
    | call reached given => cases reached
  | @call e callee f s b reached given =>
    cases h' with
    | literal => cases reached
    | @call _ _ _ s' _ reached' given' =>
      rw [reached] at reached'
      cases reached'
      rw [hpure.value_eq reached s s', given'] at given
      cases given
      rfl
    | decided => cases reached
    | undecided => cases reached
  | decided mem operand ih =>
    rcases supports_operator_iff.mp h' with ⟨rfl, -⟩ | ⟨rfl, operands⟩
    · rfl
    · exact ih (operands _ mem)
  | undecided operands ih =>
    rcases supports_operator_iff.mp h' with ⟨rfl, e, mem, operand⟩ | ⟨rfl, -⟩
    · exact ih e mem operand
    · rfl

/-- Evidence for an operator is made of evidence for its operands, of whatever callables, and
does not depend on their order. -/
theorem Supports.operator_congr {env' : Callables σ} {es' es'' : List Expr}
    (hoperands : List.Forall₂ (fun e e' => Supports env e b → Supports env' e' b) es es')
    (hperm : es'.Perm es'') (h : Supports env (.operator op es) b) :
    Supports env' (.operator op es'') b := by
  rw [supports_operator_iff] at h ⊢
  rcases h with ⟨hb, e, mem, operand⟩ | ⟨hb, operands⟩
  · obtain ⟨e', mem', himp⟩ := exists_counterpart hoperands mem
    exact .inl ⟨hb, e', hperm.mem_iff.mp mem', himp operand⟩
  · refine .inr ⟨hb, fun e' mem' => ?_⟩
    obtain ⟨e, mem, himp⟩ := exists_original hoperands (hperm.mem_iff.mpr mem')
    exact himp (operands e mem)

end Expr

/-! ### Answers are supported -/

/-- **What waiting comes to is supported.** -/
theorem Async.supports (env : Callables σ) :
    (∀ e p s b, ((evaluate env p e).finish s).result = .ok b → e.Supports env b) ∧
      ∀ es op p i s b, ((evaluateOperands env op p i es).finish s).result = .ok b →
        (Expr.operator op es).Supports env b := by
  refine env.induct ?_ ?_ ?_ ?_ ?_ ?_
  · intro b p s b' h
    cases h
    exact .literal b
  · intro e callee f hreach p s b h
    rw [finish_evaluate_of_call hreach] at h
    exact .call hreach (Value.expectBool_eq_ok_iff.mp h)
  · intro e error hreach p s b h
    rw [finish_evaluate_of_fault hreach] at h
    cases h
  · intro op es ih p s b h
    rw [finish_evaluate_operator] at h
    exact ih op p 0 s b h
  · intro op p i s b h
    cases h
    exact .undecided fun e he => by cases he
  · intro e es ihe ihes op p i s b h
    rcases op.cases_of_result ((evaluate env (p ++ [i]) e).finish s).result with
      ⟨error, hop⟩ | hop | hop
    · rw [finish_evaluateOperands_cons_of_error es hop, hop] at h
      cases h
    · have hfirst := ihe (p ++ [i]) s _ hop
      rw [finish_evaluateOperands_cons_of_decided es hop, hop] at h
      cases h
      exact .decided List.mem_cons_self hfirst
    · have hfirst := ihe (p ++ [i]) s _ hop
      rw [finish_evaluateOperands_cons_of_undecided es hop] at h
      -- the operands after it decide, or none of all does
      rcases Expr.supports_operator_iff.mp (ihes op p (i + 1) _ b h) with
        ⟨rfl, e', mem, operand⟩ | ⟨rfl, operands⟩
      · exact .decided (List.mem_cons_of_mem _ mem) operand
      · exact .undecided (List.forall_mem_cons.mpr ⟨hfirst, operands⟩)

section Answers

variable {policy : MissingRoot} {env : Callables σ} {root : Node} {s : σ} {b : Bool}

/-- **The answers of evaluations with waiting are supported**, unless the policy gives them. -/
theorem supports_of_answerAsync (hroot : policy.root (some root) = .ok (some root))
    (h : answerAsync policy env (some root) s = .ok b) : (Expr.ofNode root).Supports env b := by
  rw [answerAsync, finish_evaluateAsync_of_root hroot] at h
  exact (Async.supports env).1 _ [] s b h

end Answers

end BooleanRules
