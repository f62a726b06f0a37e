import BooleanRules.Proofs.Causes
import BooleanRules.Proofs.Sequence

/-!
# Where errors come from

If an evaluation fails, then everything around the place of the failure fails with it:
of each operator there it can be said that its own evaluation ended with the same error,
in the same state, and that nothing has happened since.  The argument is the same for
both evaluations (`exists_suffix`): an operator that fails ends with an operand that
fails, and the last event tells which one.

## Main definitions

* `Async.Fails`, `Sync.Fails` — the evaluations of an expression that fail.
* `Provenance` — where the error of an evaluation comes from.

## Main results

* `Async.Fails.operand`, `Sync.FailsInside.operand` — what fails in an operator.
* `failure_provenance` — **an evaluation fails exactly if there is a reason to, with the
  error that belongs to the reason, which comes out of every operator around it.**
-/

namespace BooleanRules

variable {σ : Type}

/-! ### The way out -/

theorem Journal.Under.exists_last {p : Position} {j : Journal} (h : Under p j) (hne : j ≠ []) :
    ∃ ev, j.getLast? = some ev ∧ p <+: ev.position :=
  ⟨j.getLast hne, List.getLast?_eq_some_getLast hne, h _ (List.getLast_mem hne)⟩

/-- If the failing evaluation of an operator always ends with the failing evaluation of one
of its operands, then what fails is all that is around the last event. -/
theorem exists_suffix (fails : Position → Expr → Journal → Prop)
    (last : ∀ {p e j}, fails p e j → ∃ ev, j.getLast? = some ev ∧ p <+: ev.position)
    (operand : ∀ {p op es j}, fails p (.operator op es) j →
      ∃ i e k, es[i]? = some e ∧ k <:+ j ∧ fails (p ++ [i]) e k)
    {q p : Position} {e e' : Expr} {j : Journal} {ev : Event} (h : fails p e j)
    (hat : e.at? q = some e') (hev : j.getLast? = some ev) (hq : p ++ q <+: ev.position) :
    ∃ k, k <:+ j ∧ fails (p ++ q) e' k := by
  induction q generalizing p e j with
  | nil =>
    cases hat
    rw [List.append_nil]
    exact ⟨j, List.suffix_rfl, h⟩
  | cons i q ih =>
    obtain ⟨d, hd, hdq⟩ := Option.bind_eq_some_iff.mp hat
    cases e with
    | operator op es =>
      obtain ⟨n, d', k, hd', ⟨before, rfl⟩, hk⟩ := operand h
      -- the last event is that of the operand, so it is the operand on the way to it
      obtain ⟨ev', hev', hposition⟩ := last hk
      rw [List.getLast?_append, hev', Option.some_or, Option.some.injEq] at hev
      subst hev
      rw [List.append_cons] at hq ⊢
      have hi : p ++ [i] <+: ev'.position := (List.prefix_append _ q).trans hq
      obtain rfl := Position.apart hi hposition
      obtain rfl : d = d' := Option.some.inj (hd.symm.trans hd')
      obtain ⟨k', hk', hfails⟩ := ih hk hdq hev' hq
      exact ⟨k', hk'.trans (List.suffix_append before k), hfails⟩
    | _ => cases hd

/-! ### Evaluations that fail -/

namespace Async

/-- The first thing in an evaluation is that its expression is entered. -/
theorem journal_head (env : Callables σ) (e : Expr) (p : Position) (s : σ) :
    ∃ rest, ((evaluate env p e).finish s).journal = .visited p :: rest := by
  obtain ⟨t, ht⟩ := evaluate_eq_after env e p s
  rw [Pollable.finish, ht, Step.finish_after]
  exact ⟨t.finish.journal, rfl⟩

/-- The expression fails at `p` with an error: what happens, and the state at the end. -/
def Fails (env : Callables σ) (p : Position) (e : Expr) (j : Journal) (s : σ)
    (error : EvalError) : Prop :=
  ∃ s₀, ((evaluate env p e).finish s₀).journal = j ∧ ((evaluate env p e).finish s₀).state = s ∧
    ((evaluate env p e).finish s₀).result = .error error

variable {env : Callables σ} {p : Position} {e : Expr} {j : Journal} {s : σ} {error : EvalError}

theorem Fails.last (h : Fails env p e j s error) :
    ∃ ev, j.getLast? = some ev ∧ p <+: ev.position := by
  obtain ⟨s₀, rfl, -, -⟩ := h
  obtain ⟨rest, hrest⟩ := journal_head env e p s₀
  refine (under_evaluate env e p s₀).exists_last ?_
  rw [hrest]
  exact List.cons_ne_nil _ rest

/-- When operands fail, one of them does, and it is the last one. -/
theorem Fails.of_operands (env : Callables σ) (op : Operator) {es : List Expr} (p : Position)
    {i : Nat} {s₀ : σ} {error : EvalError}
    (h : ((evaluateOperands env op p i es).finish s₀).result = .error error) :
    ∃ n e k, es[n]? = some e ∧ k <:+ ((evaluateOperands env op p i es).finish s₀).journal ∧
      Fails env (p ++ [i + n]) e k ((evaluateOperands env op p i es).finish s₀).state error := by
  induction es generalizing i s₀ with
  | nil => cases h
  | cons e es ih =>
    rcases op.cases_of_result ((evaluate env (p ++ [i]) e).finish s₀).result with
      ⟨error', hfirst⟩ | hfirst | hfirst
    · rw [finish_evaluateOperands_cons_of_error es hfirst] at h ⊢
      exact ⟨0, e, _, rfl, List.suffix_rfl, s₀, rfl, rfl, h⟩
    · rw [finish_evaluateOperands_cons_of_decided es hfirst, hfirst] at h
      cases h
    · rw [finish_evaluateOperands_cons_of_undecided es hfirst] at h ⊢
      obtain ⟨n, e', k, he', hk, hfails⟩ := ih h
      rw [show i + 1 + n = i + (n + 1) by omega] at hfails
      exact ⟨n + 1, e', k, he', hk.trans (List.suffix_append _ _), hfails⟩

theorem Fails.operand {op : Operator} {es : List Expr}
    (h : Fails env p (.operator op es) j s error) :
    ∃ i e k, es[i]? = some e ∧ k <:+ j ∧ Fails env (p ++ [i]) e k s error := by
  obtain ⟨s₀, rfl, rfl, hresult⟩ := h
  rw [finish_evaluate_operator] at hresult ⊢
  obtain ⟨n, e, k, he, hk, hfails⟩ := Fails.of_operands env op p hresult
  rw [Nat.zero_add] at hfails
  exact ⟨n, e, k, he, hk.trans (List.suffix_append _ _), hfails⟩

end Async

namespace Sync

/-- The expression fails at `p` with an error: what happens, and the state at the end. -/
def Fails (env : Callables σ) (p : Position) (e : Expr) (j : Journal) (s : σ)
    (error : EvalError) : Prop :=
  ∃ c s₀, (evaluate env p e c s₀).journal = j ∧ (evaluate env p e c s₀).state = s ∧
    (evaluate env p e c s₀).result = .error error

/-- The expression fails at `p` as part of a walk from the root, so that below the root
some node has been entered before. -/
def FailsInside (env : Callables σ) (s : σ) (error : EvalError) (p : Position) (e : Expr)
    (j : Journal) : Prop :=
  e.Readable ∧ ∃ c s₀, (p ≠ [] → 1 ≤ c.visits) ∧ (evaluate env p e c s₀).journal = j ∧
    (evaluate env p e c s₀).state = s ∧ (evaluate env p e c s₀).result = .error error

variable {env : Callables σ} {p : Position} {e : Expr} {j : Journal} {s : σ} {error : EvalError}

theorem FailsInside.fails (h : FailsInside env s error p e j) : Fails env p e j s error := by
  obtain ⟨-, c, s₀, -, hj, hs, hresult⟩ := h
  exact ⟨c, s₀, hj, hs, hresult⟩

theorem FailsInside.last (h : FailsInside env s error p e j) :
    ∃ ev, j.getLast? = some ev ∧ p <+: ev.position := by
  obtain ⟨he, c, s₀, hc, rfl, -, -⟩ := h
  obtain ⟨rest, hrest⟩ := journal_evaluate_head env e p c s₀
  have hunder : (evaluate env p e c s₀).journal.Under p := by
    by_cases hp : p = []
    · intro ev hev
      rw [hp]
      exact List.nil_prefix
    · have hbegins := (inStep_evaluate env he p (hc hp) s₀).journal_isPrefix
      exact (Async.under_evaluate env e p s₀).of_isPrefix hbegins
  refine hunder.exists_last ?_
  rw [hrest]
  exact List.cons_ne_nil _ rest

/-- When operands fail, one of them does, and it is the last one. -/
theorem FailsInside.of_operands (env : Callables σ) (op : Operator) {es : List Expr}
    (hes : Expr.AllReadable es) (p : Position) {i : Nat} {c : VisitCounter} (hc : 1 ≤ c.visits)
    {s₀ : σ} {error : EvalError}
    (h : (evaluateOperands env op p i es c s₀).result = .error error) :
    ∃ n e k, es[n]? = some e ∧ k <:+ (evaluateOperands env op p i es c s₀).journal ∧
      FailsInside env (evaluateOperands env op p i es c s₀).state error (p ++ [i + n]) e k := by
  induction es generalizing i c s₀ with
  | nil => cases h
  | cons e es ih =>
    rcases op.cases_of_outcome (evaluate env (p ++ [i]) e c s₀).result with
      ⟨error', hfirst⟩ | hfirst | hfirst
    · rw [evaluateOperands_cons_of_error es hfirst] at h ⊢
      cases h
      refine ⟨0, e, _, rfl, List.suffix_rfl, hes.1, c, s₀, fun _ => hc, rfl, rfl, ?_⟩
      -- the operand failed itself, since below the root it has no promise to hand over
      cases hresult : (evaluate env (p ++ [i]) e c s₀).result with
      | error error =>
        rw [hresult] at hfirst
        cases hfirst
        rfl
      | ok outcome =>
        rw [hresult] at hfirst
        cases outcome with
        | ready b => cases hfirst
        | deferred d => exact absurd hresult (result_ne_deferred hes.1 (p ++ [i]) hc s₀ d)
    · rw [evaluateOperands_cons_of_decided es hfirst] at h
      cases h
    · rw [evaluateOperands_cons_of_undecided es hfirst] at h ⊢
      have hle := (counted_evaluate env e (p ++ [i]) c s₀).le_visits_counter
      obtain ⟨n, e', k, he', hk, hfails⟩ := ih hes.2 (Nat.le_trans hc hle) h
      rw [show i + 1 + n = i + (n + 1) by omega] at hfails
      exact ⟨n + 1, e', k, he', hk.trans (List.suffix_append _ _), hfails⟩

theorem FailsInside.operand {op : Operator} {es : List Expr}
    (h : FailsInside env s error p (.operator op es) j) :
    ∃ i e k, es[i]? = some e ∧ k <:+ j ∧ FailsInside env s error (p ++ [i]) e k := by
  obtain ⟨hes, c, s₀, -, rfl, rfl, hresult⟩ := h
  rw [evaluate_operator] at hresult ⊢
  have hops : (evaluateOperands env op p 0 es c.visit s₀).result = .error error := by
    cases hr : (evaluateOperands env op p 0 es c.visit s₀).result with
    | error error' =>
      simp only [hr] at hresult
      cases hresult
      rfl
    | ok b =>
      simp only [hr] at hresult
      cases hresult
  obtain ⟨n, e, k, he, hk, hfails⟩ :=
    FailsInside.of_operands env op hes p (Nat.le_add_left 1 c.visits) hops
  rw [Nat.zero_add] at hfails
  exact ⟨n, e, k, he, hk.trans (List.suffix_cons _ _), hfails⟩

end Sync

/-! ### Evaluations of an optional expression -/

section Entry

variable {policy : MissingRoot} {env : Callables σ} {expression : Option Node} {s : σ}

/-- Resolving a promise fails for the type of its value alone. -/
theorem Deferred.resolve_eq_error_iff (d : Deferred) (s : σ) {error : EvalError} :
    (d.resolve.finish s).result = .error error ↔ d.promise.value.type ≠ .boolean ∧
      error = .unexpectedReturnType d.kind d.promise.value.type := by
  have hresult : (d.resolve.finish s).result = d.promise.value.expectBool d.kind :=
    congrArg Finished.result (Output.finish_await d.call (.deferred d.promise) s)
  rw [hresult, Value.expectBool_eq_error_iff]

/-- After a fatal event an evaluation with waiting waits at most. -/
theorem evaluateAsync_stops {root : Node} {earlier later : Journal} {ev : Event} {reason : Reason}
    {error : EvalError} (hexpression : expression = some root)
    (hj : ((evaluateAsync policy env expression).finish s).journal = earlier ++ ev :: later)
    (hfatal : ev.Fatal env root reason error) : later = ev.remains := by
  rcases root_or_journal_nil policy env expression s with ⟨root', hroot⟩ | ⟨-, hnil⟩
  · rw [MissingRoot.eq_of_root_some hroot, Option.some.injEq] at hexpression
    subst hexpression
    rw [finish_evaluateAsync_of_root hroot] at hj
    exact ((Async.verdict env root').1 (.ofNode root') [] s rfl).eq_remains hj hfatal
  · rw [hnil] at hj
    simp at hj

/-- After a fatal event a walk does nothing that waiting does not. -/
theorem evaluateSync_stops {root : Node} {earlier later : Journal} {ev : Event} {reason : Reason}
    {error : EvalError} (hexpression : expression = some root)
    (hj : ((evaluateSync policy env expression).run s).journal = earlier ++ ev :: later)
    (hfatal : ev.Fatal env root reason error) : later <+: ev.remains := by
  obtain ⟨rest, hrest⟩ := journal_evaluateSync_isPrefix policy env expression s
  rw [hj, List.append_assoc, List.cons_append] at hrest
  exact ⟨rest, evaluateAsync_stops hexpression hrest.symm hfatal⟩

/-- After a promise below the root a walk does nothing. -/
theorem evaluateSync_stops_at_promise {earlier later : Journal} {call : Call} {promise : Promise}
    (hj : ((evaluateSync policy env expression).run s).journal =
      earlier ++ .called call (.deferred promise) :: later)
    (hposition : call.position ≠ []) : later = [] := by
  rcases root_or_journal_nil policy env expression s with ⟨root, hroot⟩ | ⟨hnil, -⟩
  · rw [Walk.run, evaluateSync_of_root hroot] at hj
    exact (Sync.eq_of_called_deferred (Expr.readable_ofNode root) hj hposition).2
  · rw [hnil] at hj
    simp at hj

/-- What fails in a walk is all that is around the last event. -/
theorem evaluateSync_unchanged {root n : Node} {p : Position} {error : EvalError} {ev : Event}
    (hexpression : expression = some root) (hn : root.at? p = some n)
    (hresult : ((evaluateSync policy env expression).run s).result = .error error)
    (hev : ((evaluateSync policy env expression).run s).journal.getLast? = some ev)
    (hp : p <+: ev.position) :
    ∃ k, k <:+ ((evaluateSync policy env expression).run s).journal ∧
      Sync.Fails env p (.ofNode n) k ((evaluateSync policy env expression).run s).state error := by
  have hat : (Expr.ofNode root).at? p = some (.ofNode n) :=
    Expr.at?_ofNode_eq_some_iff.mpr ⟨n, hn, rfl⟩
  rcases root_or_journal_nil policy env expression s with ⟨root', hroot⟩ | ⟨hnil, -⟩
  · rw [MissingRoot.eq_of_root_some hroot, Option.some.injEq] at hexpression
    subst hexpression
    rw [Walk.run, evaluateSync_of_root hroot] at hresult hev ⊢
    have hfails : Sync.FailsInside env _ error [] (.ofNode root') _ :=
      ⟨Expr.readable_ofNode root', {}, s, fun h => absurd rfl h, rfl, rfl, hresult⟩
    obtain ⟨k, hk, hkfails⟩ := exists_suffix (Sync.FailsInside env _ error)
      Sync.FailsInside.last Sync.FailsInside.operand hfails hat hev hp
    exact ⟨k, hk, hkfails.fails⟩
  · rw [hnil] at hev
    cases hev

/-- What fails while waiting is all that is around the last event. -/
theorem evaluateAsync_unchanged {root n : Node} {p : Position} {error : EvalError} {ev : Event}
    (hexpression : expression = some root) (hn : root.at? p = some n)
    (hresult : ((evaluateAsync policy env expression).finish s).result = .error error)
    (hev : ((evaluateAsync policy env expression).finish s).journal.getLast? = some ev)
    (hp : p <+: ev.position) :
    ∃ k, k <:+ ((evaluateAsync policy env expression).finish s).journal ∧
      Async.Fails env p (.ofNode n) k ((evaluateAsync policy env expression).finish s).state
        error := by
  have hat : (Expr.ofNode root).at? p = some (.ofNode n) :=
    Expr.at?_ofNode_eq_some_iff.mpr ⟨n, hn, rfl⟩
  rcases root_or_journal_nil policy env expression s with ⟨root', hroot⟩ | ⟨-, hnil⟩
  · rw [MissingRoot.eq_of_root_some hroot, Option.some.injEq] at hexpression
    subst hexpression
    rw [finish_evaluateAsync_of_root hroot] at hresult hev ⊢
    have hfails : Async.Fails env [] (.ofNode root') _ _ error := ⟨s, rfl, rfl, hresult⟩
    exact exists_suffix (fun p e j => Async.Fails env p e j _ error)
      Async.Fails.last Async.Fails.operand hfails hat hev hp
  · rw [hnil] at hev
    cases hev

end Entry

/-! ### The main theorem -/

/-- Where the error of an evaluation of `expression` comes from, which has left the journal
`j` and the state `s`.  `fails` says of which expressions the evaluation fails. -/
structure Provenance {α : Type} (policy : MissingRoot) (env : Callables σ)
    (expression : Option Node) (fails : Position → Expr → Journal → σ → EvalError → Prop)
    (j : Journal) (s : σ) (result : Except EvalError α) : Prop where
  /-- It fails exactly if there is a reason to, with the error that belongs to the reason. -/
  fails_iff : ∀ error, result = .error error ↔
    ∃ reason, Cause policy env expression j reason error
  /-- There is no second reason, and no second error. -/
  unique : ∀ reason reason' error error', Cause policy env expression j reason error →
    Cause policy env expression j reason' error' → reason = reason' ∧ error = error'
  /-- Nothing happens after a node that is rejected or a call that is refused, but that the
  promise is waited for whose value is refused. -/
  stops : ∀ root earlier ev later reason error, expression = some root →
    j = earlier ++ ev :: later → ev.Fatal env root reason error → later <+: ev.remains
  /-- Wherever the failure is at an evaluated position or below it, what stands there has
  failed with the same error, and nothing has happened since. -/
  unchanged : ∀ root n p error ev, expression = some root → root.at? p = some n →
    result = .error error → j.getLast? = some ev → p <+: ev.position →
    ∃ k, k <:+ j ∧ fails p (.ofNode n) k s error

/-- **Where errors come from**: an evaluation fails exactly if there is a reason to fail in
its journal, which is the only one and ends it, and the error of the reason comes out of
every operator around it.  A walk is ended by a promise below the root too, and resolving
the promise of the root fails for the type of its value alone.  Waiting never fails for a
promise, and what fails within a budget fails as without one. -/
theorem failure_provenance (policy : MissingRoot) (env : Callables σ) (expression : Option Node)
    (s : σ) :
    let w := (evaluateSync policy env expression).run s
    let f := (evaluateAsync policy env expression).finish s
    Provenance policy env expression (Sync.Fails env) w.journal w.state w.result ∧
      (∀ (earlier : Journal) call promise later,
        w.journal = earlier ++ .called call (.deferred promise) :: later → call.position ≠ [] →
          later = []) ∧
      (∀ d, w.result = .ok (.deferred d) → ∀ (s' : σ) error,
        ((Evaluation.deferred d).resolve.finish s').result = .error error ↔
          d.promise.value.type ≠ .boolean ∧
            error = .unexpectedReturnType d.kind d.promise.value.type) ∧
      Provenance policy env expression (Async.Fails env) f.journal f.state f.result ∧
      (∀ kind, f.result ≠ .error (.unexpectedNestedPromise kind)) ∧
      ∀ budget error,
        ((evaluateAsync policy env expression).run budget s).result = some (.error error) →
        (evaluateAsync policy env expression).run budget s = f.driven := by
  intro w f
  have hunique : ∀ j reason reason' error error', Cause policy env expression j reason error →
      Cause policy env expression j reason' error' → reason = reason' ∧ error = error' :=
    fun _ _ _ _ _ h h' => h.unique h'
  refine ⟨?_, ?_, ?_, ?_, evaluateAsync_ne_nestedPromise policy env expression s, ?_⟩
  · exact {
      fails_iff := evaluateSync_fails_iff policy env expression s
      unique := hunique w.journal
      stops := fun _ _ _ _ _ _ hexpression hj => evaluateSync_stops hexpression hj
      unchanged := fun _ _ _ _ _ hexpression => evaluateSync_unchanged hexpression }
  · intro earlier call promise later
    exact evaluateSync_stops_at_promise
  · intro d _ s' error
    exact d.resolve_eq_error_iff s'
  · exact {
      fails_iff := evaluateAsync_fails_iff policy env expression s
      unique := hunique f.journal
      stops := by
        intro root earlier ev later reason error hexpression hj hfatal
        obtain rfl := evaluateAsync_stops hexpression hj hfatal
        exact List.prefix_rfl
      unchanged := fun _ _ _ _ _ hexpression => evaluateAsync_unchanged hexpression }
  · intro budget error h
    exact Pollable.run_eq_of_result h

end BooleanRules
