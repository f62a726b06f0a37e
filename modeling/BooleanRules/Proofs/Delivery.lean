import BooleanRules.Proofs.Blocks
import BooleanRules.Proofs.Entry
import BooleanRules.Proofs.RootPromise

/-!
# How results are delivered does not matter

Whether a call gives its value at once or promises it, and how often a promise is found
pending, is for the evaluation with waiting a matter of time alone.  Two sets of callables
that differ in nothing else (`Callables.SameResults`) lead to the same course of events
(`SameCourse`): the same nodes are entered and the same calls made, with the same values
in the end, until the same result is there.

## Main definitions

* `Callables.SameResults` — callables that differ in how they deliver at most.
* `Journal.atOnce` — a journal as it would be if every value were given at once.
* `SameCourse` — two ends that differ in polls and in waiting at most.

## Main results

* `Async.sameCourse` — the evaluations of an expression take the same course.
* `result_independent_of_delivery` — **so do the evaluations of an optional expression,
  and apart from the lines of waiting their logs are the same.**
-/

namespace BooleanRules

variable {σ : Type}

/-! ### Callables that differ in how they deliver -/

/-- Two results of a call that come to the same value and leave the same state. -/
def SameResult (r r' : Output × σ) : Prop := r.1.value = r'.1.value ∧ r.2 = r'.2

/-- Callables that come to the same values and states, wherever they are called: a value
may be given at once by the one and promised by the other, and a promise may be found
pending more often. -/
structure Callables.SameResults (env env' : Callables σ) : Prop where
  /-- The predicates. -/
  predicate : ∀ name s, SameResult (env.predicate name s) (env'.predicate name s)
  /-- The functions; the same names are registered. -/
  function : ∀ name, Option.Rel (fun f f' => ∀ args s, SameResult (f args s) (f' args s))
    (env.functions.get? name) (env'.functions.get? name)

namespace Callables.SameResults

variable {env env' : Callables σ} {e : Expr}

theorem function_of_ok (h : env.SameResults env') {name : String} {f : Function σ}
    (hf : env.function name = .ok f) :
    ∃ f', env'.function name = .ok f' ∧ ∀ args s, SameResult (f args s) (f' args s) := by
  have hrel := h.function name
  rw [function_eq_ok_iff.mp hf] at hrel
  cases hget : env'.functions.get? name with
  | none =>
    rw [hget] at hrel
    cases hrel
  | some f' =>
    rw [hget] at hrel
    cases hrel with
    | some hsame => exact ⟨f', function_eq_ok_iff.mpr hget, hsame⟩

theorem function_of_error (h : env.SameResults env') {name : String} {error : EvalError}
    (herror : env.function name = .error error) : env'.function name = .error error := by
  have hrel := h.function name
  unfold Callables.function at herror ⊢
  cases hget : env.functions.get? name with
  | some f =>
    rw [hget] at herror
    cases herror
  | none =>
    rw [hget] at hrel herror
    cases hget' : env'.functions.get? name with
    | none => exact herror
    | some f' =>
      rw [hget'] at hrel
      cases hrel

/-- What is called with the one is called with the other. -/
theorem reach_of_call (h : env.SameResults env') {callee : Callee} {f : σ → Output × σ}
    (hreach : env.reach e = .call callee f) :
    ∃ f', env'.reach e = .call callee f' ∧ ∀ s, SameResult (f s) (f' s) := by
  rcases eq_of_reach_call hreach with ⟨name, rfl, rfl, rfl⟩ | ⟨name, vs, g, rfl, hg, rfl, rfl⟩
  · exact ⟨env'.predicate name, rfl, h.predicate name⟩
  · obtain ⟨g', hg', hsame⟩ := h.function_of_ok hg
    refine ⟨g' vs, ?_, hsame vs⟩
    simp only [reach, hg']

/-- What is at fault with the one is at fault with the other. -/
theorem reach_of_fault (h : env.SameResults env') {error : EvalError}
    (hreach : env.reach e = .fault error) : env'.reach e = .fault error := by
  rcases eq_of_reach_fault hreach with rfl | ⟨name, args, rfl, hg⟩ | ⟨name, g, rfl, hg⟩
  · rfl
  · simp only [reach, h.function_of_error hg]
  · obtain ⟨g', hg', -⟩ := h.function_of_ok hg
    simp only [reach, hg']

end Callables.SameResults

/-! ### Journals without waiting -/

/-- The event as it would be if every value were given at once; waiting would not be. -/
def Event.atOnce? : Event → Option Event
  | .visited p => some (.visited p)
  | .called call o => some (.called call (.ready o.value))
  | .started _ => none
  | .finished _ => none

/-- The line is about the start or the end of waiting. -/
def isWaitLine (line : String) : Bool :=
  "start ".toList.isPrefixOf line.toList || "end ".toList.isPrefixOf line.toList

/-- The lines that are not about waiting are those of the event given at once. -/
theorem Event.line?_atOnce? (ev : Event) :
    ev.atOnce?.bind line? = ev.line?.filter fun line => !isWaitLine line := by
  cases ev with
  | visited p => rfl
  | called call o =>
    have hline : isWaitLine ("call " ++ call.callee.text) = false := by
      simp [isWaitLine, List.isPrefixOf]
    rw [line?, Option.filter_some, hline]
    rfl
  | started call =>
    have hline : isWaitLine ("start " ++ call.callee.name) = true := by
      simp [isWaitLine]
    rw [line?, Option.filter_some, hline]
    rfl
  | finished call =>
    have hline : isWaitLine ("end " ++ call.callee.name) = true := by
      simp [isWaitLine]
    rw [line?, Option.filter_some, hline]
    rfl

namespace Journal

/-- The journal as it would be if every value were given at once. -/
def atOnce (j : Journal) : Journal := j.filterMap Event.atOnce?

theorem atOnce_append (j k : Journal) : atOnce (j ++ k) = atOnce j ++ atOnce k :=
  List.filterMap_append

theorem atOnce_block (call : Call) (o : Output) :
    atOnce (o.block call) = [.called call (.ready o.value)] := by
  cases o <;> rfl

theorem filterMap_atOnce {β : Type} {f g : Event → Option β}
    (h : ∀ ev : Event, ev.atOnce?.bind f = g ev) (j : Journal) :
    j.atOnce.filterMap f = j.filterMap g := by
  rw [atOnce, List.filterMap_filterMap]
  exact congrArg (List.filterMap · j) (funext h)

theorem calls_atOnce (j : Journal) : calls (atOnce j) = calls j :=
  filterMap_atOnce (fun ev => by cases ev <;> rfl) j

/-- The log without the lines of waiting. -/
theorem lines_atOnce (j : Journal) :
    lines (atOnce j) = (lines j).filter fun line => !isWaitLine line := by
  rw [lines, lines, List.filter_filterMap]
  exact filterMap_atOnce Event.line?_atOnce? j

end Journal

/-! ### The same course -/

/-- Two ends that differ in the number of polls, and in waiting, at most. -/
structure SameCourse (f f' : Finished σ Bool) : Prop where
  /-- The same happens, apart from waiting. -/
  atOnce_eq : f.journal.atOnce = f'.journal.atOnce
  /-- The states are the same. -/
  state_eq : f.state = f'.state
  /-- The results are the same. -/
  result_eq : f.result = f'.result

namespace SameCourse

variable {f f' g g' : Finished σ Bool}

theorem after (h : SameCourse f f') (j : Journal) : SameCourse (f.after j) (f'.after j) where
  atOnce_eq := by
    rw [Finished.journal_after, Finished.journal_after, Journal.atOnce_append,
      Journal.atOnce_append, h.atOnce_eq]
  state_eq := h.state_eq
  result_eq := h.result_eq

theorem followedBy (hf : SameCourse f f') (hg : SameCourse g g') :
    SameCourse (f.followedBy g) (f'.followedBy g') where
  atOnce_eq := by
    have hj : (f.journal ++ g.journal).atOnce = (f'.journal ++ g'.journal).atOnce := by
      rw [Journal.atOnce_append, Journal.atOnce_append, hf.atOnce_eq, hg.atOnce_eq]
    exact hj
  state_eq := hg.state_eq
  result_eq := hg.result_eq

theorem refl (f : Finished σ Bool) : SameCourse f f := ⟨rfl, rfl, rfl⟩

end SameCourse

namespace Async

variable {env env' : Callables σ}

/-- **Evaluations of an expression take the same course** if their callables differ in how
they deliver at most. -/
theorem sameCourse (h : env.SameResults env') :
    (∀ e p s, SameCourse ((evaluate env p e).finish s) ((evaluate env' p e).finish s)) ∧
      ∀ es op p i s, SameCourse ((evaluateOperands env op p i es).finish s)
        ((evaluateOperands env' op p i es).finish s) := by
  refine env.induct ?_ ?_ ?_ ?_ ?_ ?_
  · intro b p s
    exact .refl _
  · intro e callee f hreach p s
    obtain ⟨f', hreach', hsame⟩ := h.reach_of_call hreach
    obtain ⟨hvalue, hstate⟩ := hsame s
    have hblock : Journal.atOnce ((f s).1.block ⟨p, callee⟩) =
        Journal.atOnce ((f' s).1.block ⟨p, callee⟩) := by
      rw [Journal.atOnce_block, Journal.atOnce_block, hvalue]
    rw [finish_evaluate_of_call hreach, finish_evaluate_of_call hreach']
    refine ⟨?_, hstate, ?_⟩
    · exact congrArg (List.cons (.visited p)) hblock
    · simp only [hvalue]
  · intro e error hreach p s
    rw [finish_evaluate_of_fault hreach, finish_evaluate_of_fault (h.reach_of_fault hreach)]
    exact .refl _
  · intro op es ih p s
    rw [finish_evaluate_operator, finish_evaluate_operator]
    exact (ih op p 0 s).after [.visited p]
  · intro op p i s
    exact .refl _
  · intro e es ihe ihes op p i s
    have hfirst := ihe (p ++ [i]) s
    -- the results are the same, so both go on or neither does
    have hresult := hfirst.result_eq
    rcases op.cases_of_result ((evaluate env (p ++ [i]) e).finish s).result with
      ⟨error, hop⟩ | hop | hop
    · rw [finish_evaluateOperands_cons_of_error es hop,
        finish_evaluateOperands_cons_of_error es (hresult.symm.trans hop)]
      exact hfirst
    · rw [finish_evaluateOperands_cons_of_decided es hop,
        finish_evaluateOperands_cons_of_decided es (hresult.symm.trans hop)]
      exact hfirst
    · rw [finish_evaluateOperands_cons_of_undecided es hop,
        finish_evaluateOperands_cons_of_undecided es (hresult.symm.trans hop)]
      refine hfirst.followedBy ?_
      rw [← hfirst.state_eq]
      exact ihes op p (i + 1) _

end Async

/-! ### The main theorem -/

/-- **The result does not depend on how the callables deliver.**  Polled to their ends, two
evaluations of an expression whose callables differ in nothing else have the same result
and the same state, they have made the same calls, and apart from the lines of waiting
their logs are the same. -/
theorem result_independent_of_delivery (policy : MissingRoot) {env env' : Callables σ}
    (h : env.SameResults env') (expression : Option Node) (s : σ) :
    let f := (evaluateAsync policy env expression).finish s
    let f' := (evaluateAsync policy env' expression).finish s
    f.result = f'.result ∧ f.state = f'.state ∧ f.journal.calls = f'.journal.calls ∧
      f.journal.atOnce = f'.journal.atOnce ∧
      (f.journal.lines.filter fun line => !isWaitLine line) =
        f'.journal.lines.filter fun line => !isWaitLine line := by
  have hcourse : SameCourse ((evaluateAsync policy env expression).finish s)
      ((evaluateAsync policy env' expression).finish s) := by
    match hroot : policy.root expression with
    | .error error =>
      rw [Pollable.finish, Pollable.finish, evaluateAsync_of_error hroot,
        evaluateAsync_of_error hroot]
      exact .refl _
    | .ok none =>
      rw [Pollable.finish, Pollable.finish, evaluateAsync_of_none hroot,
        evaluateAsync_of_none hroot]
      exact .refl _
    | .ok (some root) =>
      rw [finish_evaluateAsync_of_root hroot, finish_evaluateAsync_of_root hroot]
      exact (Async.sameCourse h).1 (.ofNode root) [] s
  refine ⟨hcourse.result_eq, hcourse.state_eq, ?_, hcourse.atOnce_eq, ?_⟩
  · rw [← Journal.calls_atOnce, hcourse.atOnce_eq, Journal.calls_atOnce]
  · rw [← Journal.lines_atOnce, hcourse.atOnce_eq, Journal.lines_atOnce]

/-- The function `flip` negates its argument, all predicates answer true, and all answer as
`deliver` has it.  The state counts the calls. -/
def deliveredAnswers (deliver : Nat → Value → Output) : Callables Nat where
  predicate _ calls := (deliver calls (.bool true), calls + 1)
  functions := Registry.empty.register "flip" fun args calls =>
    (deliver calls (match args with | [.bool b] => .bool (!b) | _ => .null), calls + 1)

/-- Answers given at once, and answers that are promised and found pending once more with
each call. -/
theorem deliveredAnswers_same :
    let prompt := deliveredAnswers fun _ v => .ready v
    let late := deliveredAnswers fun calls v => .deferred ⟨v, calls⟩
    let rule : Node := .and [.predicate "a", .or [.call "flip" (.bool true), .predicate "b"],
      .call "flip" (.bool true), .predicate "c"]
    prompt.SameResults late ∧
      ((evaluateAsync .error prompt (some rule)).finish 0).polls = 1 ∧
      ((evaluateAsync .error late (some rule)).finish 0).polls = 7 ∧
      ((evaluateAsync .error prompt (some rule)).finish 0).result = .ok false ∧
      ((evaluateAsync .error late (some rule)).finish 0).result = .ok false := by
  intro prompt late rule
  have hsame : prompt.SameResults late := by
    refine ⟨fun name s => ⟨rfl, rfl⟩, fun name => ?_⟩
    simp only [prompt, late, deliveredAnswers, Registry.get?_register, Registry.get?_empty]
    by_cases hname : name = "flip"
    · rw [if_pos hname, if_pos hname]
      exact .some fun args s => ⟨rfl, rfl⟩
    · rw [if_neg hname, if_neg hname]
      exact .none
  have hprompt : ((evaluateAsync .error prompt (some rule)).finish 0).result = .ok false := rfl
  refine ⟨hsame, rfl, rfl, hprompt, ?_⟩
  rw [← (result_independent_of_delivery .error hsame (some rule) 0).1]
  exact hprompt

end BooleanRules
