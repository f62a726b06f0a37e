import BooleanRules.Proofs.Blocks
import BooleanRules.Proofs.Grammar
import BooleanRules.Proofs.Places
import BooleanRules.Proofs.RootPromise

/-!
# Reasons to fail

An evaluation that fails stops there: its journal ends with the node that was rejected,
or with the call whose result was refused, and with nothing after that.  So the journal
alone tells the reason and the error, and an evaluation that does not fail leaves a
journal in which every node was accepted and every call gave a truth value.

## Main definitions

* `Cause` — the reason for which an evaluation that has left a journal fails.
* `Journal.blamed` — the reason and the error that a journal tells.
* `Event.Fatal`, `Journal.Accepted` — an event after which the evaluation with waiting
  cannot go on, and journals without one.
* `Verdict` — how an evaluation with waiting has gone.

## Main results

* `Cause.unique` — there is one reason, and one error.
* `Async.verdict` — an evaluation is ended by the first fatal event, and by nothing else.
* `evaluateSync_fails_iff`, `evaluateAsync_fails_iff` — an evaluation of an optional
  expression fails exactly if there is a reason to.
-/

namespace BooleanRules

variable {σ : Type}

/-- A value is refused for its type. -/
theorem Value.expectBool_eq_error_iff {kind : CallKind} {v : Value} {error : EvalError} :
    v.expectBool kind = .error error ↔
      v.type ≠ .boolean ∧ error = .unexpectedReturnType kind v.type := by
  cases v <;> simp [expectBool, type, eq_comm]

/-! ### Reasons to fail -/

/-- Why an evaluation of `expression` that has left the journal `j` fails: the reason, and
the error that belongs to it. -/
inductive Cause (policy : MissingRoot) (env : Callables σ) (expression : Option Node)
    (j : Journal) : Reason → EvalError → Prop where
  /-- There is no expression, and the policy demands one. -/
  | absent (policy_eq : policy = .error) (expression_eq : expression = none)
    (journal_eq : j = []) : Cause policy env expression j .absent .expectedExpression
  /-- The node visited last is rejected. -/
  | rejected (root n : Node) (earlier : Journal) (p : Position) (reason : Reason)
    (error : EvalError) (expression_eq : expression = some root)
    (node_eq : root.at? p = some n) (journal_eq : j = earlier ++ [.visited p])
    (rejected : n.Rejected env reason error) : Cause policy env expression j reason error
  /-- The last call gave, once it was waited for, something else than a truth value. -/
  | returnType (earlier : Journal) (call : Call) (o : Output)
    (journal_eq : j = earlier ++ o.block call) (type_ne : o.value.type ≠ .boolean) :
    Cause policy env expression j .returnType
      (.unexpectedReturnType call.kind o.value.type)
  /-- The last call gave a promise below the root. -/
  | nestedPromise (earlier : Journal) (call : Call) (promise : Promise)
    (journal_eq : j = earlier ++ [.called call (.deferred promise)])
    (position_ne : call.position ≠ []) :
    Cause policy env expression j .nestedPromise (.unexpectedNestedPromise call.kind)

/-- Why a node is rejected, if it is. -/
def Node.blamed (env : Callables σ) (n : Node) : Option (Reason × EvalError) :=
  match env.reach (.ofNode n) with
  | .fault error => some (n.reason env, error)
  | _ => none

/-- The reason and the error that a journal tells: the last event is a node, a promise
that was not waited for, or it belongs to the last call. -/
def Journal.blamed (env : Callables σ) (expression : Option Node) (j : Journal) :
    Option (Reason × EvalError) :=
  match j.getLast? with
  | none => some (.absent, .expectedExpression)
  | some (.visited p) => (expression.bind fun root => root.at? p).bind (Node.blamed env)
  | some (.called call (.deferred _)) =>
    some (.nestedPromise, .unexpectedNestedPromise call.kind)
  | some _ => j.made.getLast?.map fun m =>
    (.returnType, .unexpectedReturnType m.1.kind m.2.value.type)

theorem Node.Rejected.blamed_eq {env : Callables σ} {n : Node} {reason : Reason}
    {error : EvalError} (h : n.Rejected env reason error) :
    n.blamed env = some (reason, error) := by
  rw [blamed, Callables.reach_of_rejected h, h.reason_eq]

theorem Journal.getLast?_made_block (earlier : Journal) (call : Call) (o : Output) :
    (earlier ++ o.block call).made.getLast? = some (call, o) := by
  rw [made_append, made_block, List.getLast?_concat]

namespace Cause

variable {policy : MissingRoot} {env : Callables σ} {expression : Option Node} {j : Journal}
  {reason reason' : Reason} {error error' : EvalError}

/-- The journal tells the reason and the error. -/
theorem blamed_eq (h : Cause policy env expression j reason error) :
    j.blamed env expression = some (reason, error) := by
  cases h with
  | absent hpolicy hexpression hj =>
    rw [hj]
    rfl
  | rejected root n earlier p reason error hexpression hn hj hrejected =>
    rw [Journal.blamed, hj, List.getLast?_concat]
    simp only [hexpression, Option.bind_some, hn, hrejected.blamed_eq]
  | returnType earlier call o hj htype =>
    have hmade := Journal.getLast?_made_block earlier call o
    rw [Journal.blamed, hj, hmade]
    cases o with
    | ready v =>
      rw [Output.block, Output.waits, List.getLast?_concat]
      rfl
    | deferred promise =>
      have hlast : (earlier ++ (Output.deferred promise).block call).getLast? =
          some (.finished call) := by
        simp [Output.block, Output.waits]
      rw [hlast]
      rfl
  | nestedPromise earlier call promise hj hposition =>
    rw [Journal.blamed, hj, List.getLast?_concat]

/-- **There is one reason to fail, and one error.** -/
theorem unique (h : Cause policy env expression j reason error)
    (h' : Cause policy env expression j reason' error') : reason = reason' ∧ error = error' := by
  have heq := h.blamed_eq.symm.trans h'.blamed_eq
  simpa using heq

end Cause

/-! ### Events that end an evaluation -/

/-- `ev.Fatal env root reason error` says that the evaluation with waiting of `root` cannot
go on after the event: the node there is rejected, or the call comes to something else
than a truth value. -/
inductive Event.Fatal (env : Callables σ) (root : Node) : Event → Reason → EvalError → Prop where
  | rejected (p : Position) (n : Node) (reason : Reason) (error : EvalError)
    (node_eq : root.at? p = some n) (rejected : n.Rejected env reason error) :
    Fatal env root (.visited p) reason error
  | returnType (call : Call) (o : Output) (type_ne : o.value.type ≠ .boolean) :
    Fatal env root (.called call o) .returnType (.unexpectedReturnType call.kind o.value.type)

/-- What happens after a fatal event nevertheless: a promise is waited for, since its value
is what is refused. -/
def Event.remains : Event → Journal
  | .called call o => o.waits call
  | _ => []

/-- No event in the journal is fatal. -/
def Journal.Accepted (env : Callables σ) (root : Node) (j : Journal) : Prop :=
  ∀ ev ∈ j, ∀ reason error, ¬ ev.Fatal env root reason error

namespace Journal

variable {env : Callables σ} {root : Node} {j k : Journal}

theorem accepted_nil (env : Callables σ) (root : Node) : Accepted env root [] := by
  intro ev hev
  cases hev

theorem Accepted.append (hj : j.Accepted env root) (hk : k.Accepted env root) :
    (j ++ k).Accepted env root := by
  intro ev hev
  rcases List.mem_append.mp hev with hev | hev
  · exact hj ev hev
  · exact hk ev hev

/-- A node that is not rejected when it is reached. -/
theorem accepted_visited {p : Position} {e : Expr} (hat : (Expr.ofNode root).at? p = some e)
    (hreach : ∀ error, env.reach e ≠ .fault error) : Accepted env root [.visited p] := by
  intro ev hev reason error hfatal
  obtain rfl := List.mem_singleton.mp hev
  cases hfatal with
  | rejected _ n _ _ hn hrejected =>
    obtain ⟨n', hn', rfl⟩ := Expr.at?_ofNode_eq_some_iff.mp hat
    obtain rfl : n' = n := Option.some.inj (hn'.symm.trans hn)
    exact hreach error (Callables.reach_of_rejected hrejected)

/-- Waiting is never fatal. -/
theorem accepted_remains (ev : Event) : Accepted env root ev.remains := by
  intro ev' hev' reason error hfatal
  cases ev with
  | called call o =>
    cases o with
    | ready v => cases hev'
    | deferred promise =>
      simp only [Event.remains, Output.waits, List.mem_cons, List.not_mem_nil, or_false] at hev'
      rcases hev' with rfl | rfl <;> cases hfatal
  | _ => cases hev'

/-- A call that comes to a truth value, and waiting for it. -/
theorem accepted_block {call : Call} {o : Output} (ho : o.value.type = .boolean) :
    Accepted env root (o.block call) := by
  have hcalled : Accepted env root [.called call o] := by
    intro ev hev reason error hfatal
    obtain rfl := List.mem_singleton.mp hev
    cases hfatal with
    | returnType _ _ htype => exact htype ho
  exact hcalled.append (accepted_remains (.called call o))

end Journal

/-! ### The end of waiting -/

/-- How an evaluation polled to its end has gone: it fails by a fatal event, after which
there is only waiting, and before which there was no other; or it does not fail, and
there was none at all. -/
structure Verdict (env : Callables σ) (root : Node) (f : Finished σ Bool) : Prop where
  /-- If it fails, it has been ended by a fatal event. -/
  halted : ∀ error, f.result = .error error → ∃ earlier ev reason,
    f.journal = earlier ++ ev :: ev.remains ∧ Journal.Accepted env root earlier ∧
      ev.Fatal env root reason error
  /-- If it does not, all is accepted. -/
  accepted : ∀ b, f.result = .ok b → f.journal.Accepted env root

namespace Verdict

variable {policy : MissingRoot} {env : Callables σ} {root : Node} {f g : Finished σ Bool}

/-- Something accepted, and then an end. -/
theorem after {j : Journal} (hj : j.Accepted env root) (h : Verdict env root f) :
    Verdict env root (f.after j) where
  halted error hresult := by
    obtain ⟨earlier, ev, reason, hf, hearlier, hfatal⟩ := h.halted error hresult
    refine ⟨j ++ earlier, ev, reason, ?_, hj.append hearlier, hfatal⟩
    rw [Finished.journal_after, hf, List.append_assoc]
  accepted b hresult := hj.append (h.accepted b hresult)

/-- An end with a truth value, and then another end. -/
theorem followedBy {b : Bool} (hf : Verdict env root f) (hb : f.result = .ok b)
    (hg : Verdict env root g) : Verdict env root (f.followedBy g) :=
  have hafter := hg.after (hf.accepted b hb)
  ⟨hafter.halted, hafter.accepted⟩

/-- What is fatal comes last, apart from waiting. -/
theorem eq_remains (h : Verdict env root f) {earlier later : Journal} {ev : Event}
    {reason : Reason} {error : EvalError} (hj : f.journal = earlier ++ ev :: later)
    (hfatal : ev.Fatal env root reason error) : later = ev.remains := by
  have hmem : ev ∈ f.journal := by
    rw [hj]
    exact List.mem_append_right _ List.mem_cons_self
  cases hresult : f.result with
  | ok b => exact absurd hfatal (h.accepted b hresult ev hmem reason error)
  | error error' =>
    obtain ⟨before, last, reason', hlast, hbefore, -⟩ := h.halted error' hresult
    rcases Journal.split_append (hlast.symm.trans hj) with ⟨rest, hrest, -⟩ | ⟨between, -, hbetween⟩
    · have hev : ev ∈ before := by
        rw [hrest]
        exact List.mem_append_right _ List.mem_cons_self
      exact absurd hfatal (hbefore ev hev reason error)
    · cases between with
      | nil =>
        cases hbetween
        rfl
      | cons ev' between =>
        have hev : ev ∈ last.remains := by
          rw [(List.cons.inj hbetween).2]
          exact List.mem_append_right _ List.mem_cons_self
        exact absurd hfatal (Journal.accepted_remains last ev hev reason error)

/-- The fatal event is the reason to fail, -/
theorem cause (h : Verdict env root f) (policy : MissingRoot) {error : EvalError}
    (hresult : f.result = .error error) :
    ∃ reason, Cause policy env (some root) f.journal reason error := by
  obtain ⟨earlier, ev, reason, hj, -, hfatal⟩ := h.halted error hresult
  refine ⟨reason, ?_⟩
  cases hfatal with
  | rejected p n reason error hn hrejected =>
    exact .rejected root n earlier p reason error rfl hn hj hrejected
  | returnType call o htype => exact .returnType earlier call o hj htype

/-- and without one the only reason could be that a promise was not waited for. -/
theorem eq_of_cause (h : Verdict env root f) {b : Bool} (hresult : f.result = .ok b)
    {reason : Reason} {error : EvalError}
    (hcause : Cause policy env (some root) f.journal reason error) :
    reason = .nestedPromise := by
  have haccepted := h.accepted b hresult
  cases hcause with
  | absent hpolicy hexpression hj => cases hexpression
  | rejected root' n earlier p reason error hexpression hn hj hrejected =>
    cases hexpression
    have hmem : Event.visited p ∈ f.journal := by
      rw [hj]
      exact List.mem_append_right _ (List.mem_singleton_self _)
    exact absurd (.rejected p n reason error hn hrejected) (haccepted _ hmem reason error)
  | returnType earlier call o hj htype =>
    have hmem : Event.called call o ∈ f.journal := by
      rw [hj]
      exact List.mem_append_right _ List.mem_cons_self
    exact absurd (.returnType call o htype) (haccepted _ hmem _ _)
  | nestedPromise earlier call promise hj hposition => rfl

end Verdict

namespace Async

open Journal

/-- **An evaluation is ended by the first fatal event**, and by nothing else. -/
theorem verdict (env : Callables σ) (root : Node) :
    (∀ e p s, (Expr.ofNode root).at? p = some e →
        Verdict env root ((evaluate env p e).finish s)) ∧
      ∀ es op p i s, (Expr.ofNode root).OperandsAt p i es →
        Verdict env root ((evaluateOperands env op p i es).finish s) := by
  refine env.induct ?_ ?_ ?_ ?_ ?_ ?_
  · intro b p s hat
    refine ⟨fun error h => (by cases h), fun b' _ => ?_⟩
    exact accepted_visited hat fun error h => by cases h
  · intro e callee f hreach p s hat
    have hvisited : Accepted env root [.visited p] :=
      accepted_visited hat fun error h => by rw [hreach] at h; cases h
    rw [finish_evaluate_of_call hreach]
    refine ⟨?_, ?_⟩
    · intro error hresult
      obtain ⟨htype, rfl⟩ := Value.expectBool_eq_error_iff.mp hresult
      exact ⟨[.visited p], .called ⟨p, callee⟩ (f s).1, .returnType, rfl, hvisited,
        .returnType _ _ htype⟩
    · intro b hresult
      have hvalue := Value.expectBool_eq_ok_iff.mp hresult
      have hblock : Accepted env root ((f s).1.block ⟨p, callee⟩) :=
        accepted_block (by rw [hvalue, Value.type])
      exact hvisited.append hblock
  · intro e error hreach p s hat
    rw [finish_evaluate_of_fault hreach]
    refine ⟨?_, fun b h => (by cases h)⟩
    intro error' hresult
    cases hresult
    obtain ⟨n, hn, rfl⟩ := Expr.at?_ofNode_eq_some_iff.mp hat
    obtain ⟨reason, hrejected⟩ := Callables.reach_ofNode_eq_fault_iff.mp hreach
    exact ⟨[], .visited p, reason, rfl, accepted_nil env root,
      .rejected p n reason error hn hrejected⟩
  · intro op es ih p s hat
    rw [finish_evaluate_operator]
    refine .after ?_ (ih op p 0 s (.of_operator hat))
    exact accepted_visited hat fun error h => by cases h
  · intro op p i s _
    exact ⟨fun error h => (by cases h), fun b _ => accepted_nil env root⟩
  · intro e es ihe ihes op p i s hat
    have hfirst := ihe (p ++ [i]) s hat.head
    rcases op.cases_of_result ((evaluate env (p ++ [i]) e).finish s).result with
      ⟨error, h⟩ | h | h
    · rw [finish_evaluateOperands_cons_of_error es h]
      exact hfirst
    · rw [finish_evaluateOperands_cons_of_decided es h]
      exact hfirst
    · rw [finish_evaluateOperands_cons_of_undecided es h]
      exact hfirst.followedBy h (ihes op p (i + 1) _ hat.tail)

end Async

/-! ### Evaluations of a root -/

namespace Async

theorem inBlocks_evaluate (env : Callables σ) (e : Expr) (p : Position) (s : σ) :
    ((evaluate env p e).finish s).journal.InBlocks :=
  ((inOrder env).1 e p s [] Journal.inBlocks_nil).finish

/-- Waiting for a root fails exactly if there is a reason to. -/
theorem fails_iff (policy : MissingRoot) (env : Callables σ) (root : Node) (s : σ)
    (error : EvalError) :
    ((evaluate env [] (.ofNode root)).finish s).result = .error error ↔
      ∃ reason, Cause policy env (some root) ((evaluate env [] (.ofNode root)).finish s).journal
        reason error := by
  have hverdict := (verdict env root).1 (.ofNode root) [] s rfl
  have hblocks := inBlocks_evaluate env (.ofNode root) [] s
  constructor
  · exact hverdict.cause policy
  · rintro ⟨reason, hcause⟩
    cases hresult : ((evaluate env [] (.ofNode root)).finish s).result with
    | error error' =>
      obtain ⟨reason', hcause'⟩ := hverdict.cause policy hresult
      rw [(hcause.unique hcause').2]
    | ok b =>
      obtain rfl := hverdict.eq_of_cause hresult hcause
      cases hcause with
      | rejected root' n earlier p reason error hexpression hn hj hrejected =>
        cases hrejected
      | nestedPromise earlier call promise hj hposition =>
        exact absurd hj (hblocks.ne_called_deferred earlier call promise)

/-- Waiting never fails for a promise. -/
theorem ne_nestedPromise (env : Callables σ) (root : Node) (s : σ) (kind : CallKind) :
    ((evaluate env [] (.ofNode root)).finish s).result ≠
      .error (.unexpectedNestedPromise kind) := by
  intro h
  obtain ⟨reason, hcause⟩ := (fails_iff .error env root s _).mp h
  cases hcause with
  | rejected root' n earlier p reason error hexpression hn hj hrejected => cases hrejected
  | nestedPromise earlier call promise hj hposition =>
    have hblocks := inBlocks_evaluate env (.ofNode root) [] s
    exact hblocks.ne_called_deferred earlier call promise hj

end Async

namespace Sync

/-- A walk from a root that fails has a reason to. -/
theorem cause_of_error (policy : MissingRoot) (env : Callables σ) (root : Node) {s : σ}
    {error : EvalError}
    (h : ((evaluate env [] (.ofNode root)).run s).result = .error error) :
    ∃ reason, Cause policy env (some root) ((evaluate env [] (.ofNode root)).run s).journal
      reason error := by
  have hsimulation := simulation_evaluate env (Expr.readable_ofNode root) s
  by_cases hnested : ∃ kind, error = .unexpectedNestedPromise kind
  · obtain ⟨kind, rfl⟩ := hnested
    obtain ⟨earlier, call, promise, _, rfl, hposition, hj, -⟩ := hsimulation.nested kind h
    exact ⟨.nestedPromise, .nestedPromise earlier call promise hj hposition⟩
  · -- waiting does the same as the walk, so the reasons are the same
    have hfailed := hsimulation.failed error h fun kind heq => hnested ⟨kind, heq⟩
    have hcause := (Async.fails_iff policy env root s error).mp (by rw [hfailed])
    rw [hfailed] at hcause
    exact hcause

/-- A promise that a walk hands over is no reason to fail. -/
theorem not_cause_of_deferred {policy : MissingRoot} {env : Callables σ} {root : Node} {s : σ}
    {d : Deferred} (h : ((evaluate env [] (.ofNode root)).run s).result = .ok (.deferred d))
    {reason : Reason} {error : EvalError} :
    ¬ Cause policy env (some root) ((evaluate env [] (.ofNode root)).run s).journal
      reason error := by
  intro hcause
  obtain ⟨callee, f, -, hcall, -⟩ := result_eq_deferred_iff.mp h
  rw [journal_of_result_eq_deferred h] at hcause
  have hblamed : some (Reason.nestedPromise, EvalError.unexpectedNestedPromise d.call.kind) =
      some (reason, error) := hcause.blamed_eq
  obtain rfl : Reason.nestedPromise = reason := congrArg Prod.fst (Option.some.inj hblamed)
  cases hcause with
  | rejected root' n earlier p reason error hexpression hn hj hrejected => cases hrejected
  | nestedPromise earlier call promise hj hposition =>
    -- the call that came last is the root's
    have hlast := congrArg List.getLast? hj
    simp only [List.getLast?_concat, List.getLast?_cons_cons, List.getLast?_singleton,
      Option.some.injEq, Event.called.injEq] at hlast
    rw [← hlast.1, hcall] at hposition
    exact hposition rfl

/-- A walk from a root fails exactly if there is a reason to. -/
theorem fails_iff (policy : MissingRoot) (env : Callables σ) (root : Node) (s : σ)
    (error : EvalError) :
    ((evaluate env [] (.ofNode root)).run s).result = .error error ↔
      ∃ reason, Cause policy env (some root) ((evaluate env [] (.ofNode root)).run s).journal
        reason error := by
  constructor
  · exact cause_of_error policy env root
  · rintro ⟨reason, hcause⟩
    match hresult : ((evaluate env [] (.ofNode root)).run s).result with
    | .error error' =>
      obtain ⟨reason', hcause'⟩ := cause_of_error policy env root hresult
      rw [(hcause.unique hcause').2]
    | .ok (.ready b) =>
      have hsimulation := simulation_evaluate env (Expr.readable_ofNode root) s
      have hready := hsimulation.ready b hresult
      have herror := (Async.fails_iff policy env root s error).mpr
        ⟨reason, by rw [hready]; exact hcause⟩
      rw [hready] at herror
      cases herror
    | .ok (.deferred d) => exact absurd hcause (not_cause_of_deferred hresult)

end Sync

/-! ### Evaluations of an optional expression -/

section Entry

variable {policy : MissingRoot} {env : Callables σ} {expression : Option Node} {s : σ}

/-- Where nothing has happened, the only reason to fail is that there is no expression. -/
theorem Cause.of_nil {reason : Reason} {error : EvalError}
    (h : Cause policy env expression [] reason error) :
    policy = .error ∧ expression = none ∧ error = .expectedExpression := by
  cases h with
  | absent hpolicy hexpression hj => exact ⟨hpolicy, hexpression, rfl⟩
  | rejected root n earlier p reason error hexpression hn hj hrejected => simp at hj
  | returnType earlier call o hj htype => simp [Output.block] at hj
  | nestedPromise earlier call promise hj hposition => simp at hj

/-- A fault of the entry is that there is no expression, -/
theorem cause_iff_of_root_error {error' : EvalError} (h : policy.root expression = .error error')
    (error : EvalError) :
    error' = error ↔ ∃ reason, Cause policy env expression [] reason error := by
  obtain ⟨hpolicy, hexpression, rfl⟩ := MissingRoot.eq_of_root_error h
  constructor
  · rintro rfl
    exact ⟨.absent, .absent hpolicy hexpression rfl⟩
  · rintro ⟨reason, hcause⟩
    exact hcause.of_nil.2.2.symm

/-- and without a fault and without a root there is nothing to fail for. -/
theorem not_cause_of_root_none (h : policy.root expression = .ok none) {reason : Reason}
    {error : EvalError} : ¬ Cause policy env expression [] reason error := by
  intro hcause
  obtain ⟨hpolicy, hexpression, -⟩ := hcause.of_nil
  rw [hpolicy, hexpression] at h
  cases h

theorem evaluateSync_fails_iff (policy : MissingRoot) (env : Callables σ)
    (expression : Option Node) (s : σ) (error : EvalError) :
    ((evaluateSync policy env expression).run s).result = .error error ↔
      ∃ reason, Cause policy env expression
        ((evaluateSync policy env expression).run s).journal reason error := by
  match hroot : policy.root expression with
  | .error error' =>
    rw [Walk.run, evaluateSync_of_error hroot, Except.error.injEq]
    exact cause_iff_of_root_error hroot error
  | .ok none =>
    rw [Walk.run, evaluateSync_of_none hroot]
    constructor
    · intro h
      cases h
    · rintro ⟨reason, h⟩
      exact absurd h (not_cause_of_root_none hroot)
  | .ok (some root) =>
    obtain rfl := MissingRoot.eq_of_root_some hroot
    rw [Walk.run, evaluateSync_of_root hroot]
    exact Sync.fails_iff policy env root s error

theorem evaluateAsync_fails_iff (policy : MissingRoot) (env : Callables σ)
    (expression : Option Node) (s : σ) (error : EvalError) :
    ((evaluateAsync policy env expression).finish s).result = .error error ↔
      ∃ reason, Cause policy env expression
        ((evaluateAsync policy env expression).finish s).journal reason error := by
  match hroot : policy.root expression with
  | .error error' =>
    rw [Pollable.finish, evaluateAsync_of_error hroot, Step.finish_done, Except.error.injEq]
    exact cause_iff_of_root_error hroot error
  | .ok none =>
    rw [Pollable.finish, evaluateAsync_of_none hroot]
    constructor
    · intro h
      cases h
    · rintro ⟨reason, h⟩
      exact absurd h (not_cause_of_root_none hroot)
  | .ok (some root) =>
    obtain rfl := MissingRoot.eq_of_root_some hroot
    rw [finish_evaluateAsync_of_root hroot]
    exact Async.fails_iff policy env root s error

theorem evaluateAsync_ne_nestedPromise (policy : MissingRoot) (env : Callables σ)
    (expression : Option Node) (s : σ) (kind : CallKind) :
    ((evaluateAsync policy env expression).finish s).result ≠
      .error (.unexpectedNestedPromise kind) := by
  match hroot : policy.root expression with
  | .error error =>
    obtain ⟨-, -, rfl⟩ := MissingRoot.eq_of_root_error hroot
    rw [Pollable.finish, evaluateAsync_of_error hroot]
    intro h
    cases h
  | .ok none =>
    rw [Pollable.finish, evaluateAsync_of_none hroot]
    intro h
    cases h
  | .ok (some root) =>
    rw [finish_evaluateAsync_of_root hroot]
    exact Async.ne_nestedPromise env root s kind

end Entry

end BooleanRules
