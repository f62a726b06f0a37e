import BooleanRules.Proofs.Visited

/-!
# Only the functions that are asked for matter

A registry is asked for the name of a function node when the node is visited, and for nothing else.
So two registries that agree on the names of the nodes that a run visits lead to the same run.  The
names are known only when the run is over, since what an operator visits depends on what has been
called before; the two runs are therefore compared as far as they go together, which is up to the
first node at which the registries lead to different things (`Step.AlikeUntil`).

A name with the sigil of operators is never asked for, and a new name is asked for only where a run
without it ends.

## Main definitions

* `Event.Divides` — a node is visited at which two registries lead to different things.
* `Step.AlikeUntil` — steps that go the same way until a certain event.
* `Journal.AsksFor` — a function node of the name is visited.
* `Localized` — what a run with another registry comes to.

## Main results

* `Sync.same_or_divided`, `Async.alikeUntil_divided` — the evaluations with two registries.
* `Step.AlikeUntil.run_eq` — without such an event the runs are the same, within any budget.
* `registry_locality` — **only the functions that are asked for matter.**
-/

namespace BooleanRules

variable {σ α β : Type}

/-! ### Steps that go the same way for a while -/

namespace Step

/-- Two steps do the same until an event happens that satisfies `stop`.  What is done after that is
left open. -/
inductive AlikeUntil (stop : Event → Prop) : Step σ α → Step σ α → Prop
  | done (j : Journal) (s : σ) (r : Except EvalError α) :
    AlikeUntil stop (.done j s r) (.done j s r)
  | pending (j : Journal) (s : σ) {resume resume' : σ → Step σ α}
    (resumed : ∀ s', AlikeUntil stop (resume s') (resume' s')) :
    AlikeUntil stop (.pending j s resume) (.pending j s resume')
  | stopped {j : Journal} {ev : Event} (mem : ev ∈ j) (stops : stop ev) (t t' : Step σ α) :
    AlikeUntil stop (t.after j) (t'.after j)

theorem journal_drive_after (j : Journal) (t : Step σ α) (more : Nat) :
    ((t.after j).drive more).journal = j ++ (t.drive more).journal := by
  cases t with
  | done k s r => rfl
  | pending k s resume =>
    cases more with
    | zero => rfl
    | succ more => exact List.append_assoc j k _

namespace AlikeUntil

variable {stop : Event → Prop} {t t' : Step σ α}

theorem refl (t : Step σ α) : AlikeUntil stop t t := by
  induction t with
  | done j s r => exact .done j s r
  | pending j s resume ih => exact .pending j s ih

theorem after (h : AlikeUntil stop t t') (j : Journal) :
    AlikeUntil stop (t.after j) (t'.after j) := by
  cases h with
  | done k s r => exact .done (j ++ k) s r
  | pending k s resumed => exact .pending (j ++ k) s resumed
  | @stopped k ev mem stops t t' =>
    rw [after_after, after_after]
    exact .stopped (List.mem_append_right j mem) stops t t'

/-- What follows goes the same way for a while too. -/
theorem next (h : AlikeUntil stop t t') {f f' : α → Pollable σ β}
    (hf : ∀ a s, AlikeUntil stop (f a s) (f' a s)) : AlikeUntil stop (t.next f) (t'.next f') := by
  induction h with
  | done j s r =>
    cases r with
    | ok a => exact (hf a s).after j
    | error e => exact .done j s (.error e)
  | pending j s _ ih => exact .pending j s ih
  | stopped mem stops t t' =>
    rw [next_after, next_after]
    exact .stopped mem stops (t.next f) (t'.next f')

theorem finish_eq (h : AlikeUntil stop t t') (hgo : ∀ ev ∈ t.finish.journal, ¬ stop ev) :
    t'.finish = t.finish := by
  induction h with
  | done j s r => rfl
  | pending j s _ ih =>
    have hrest := ih s fun ev hev => hgo ev (List.mem_append_right j hev)
    simp only [finish, hrest]
  | stopped mem stops t t' =>
    rw [finish_after] at hgo
    exact absurd stops (hgo _ (List.mem_append_left _ mem))

theorem drive_eq (h : AlikeUntil stop t t') {more : Nat}
    (hgo : ∀ ev ∈ (t.drive more).journal, ¬ stop ev) : t'.drive more = t.drive more := by
  induction h generalizing more with
  | done j s r => rfl
  | pending j s _ ih =>
    cases more with
    | zero => rfl
    | succ more =>
      have hrest := ih s fun ev hev => hgo ev (List.mem_append_right j hev)
      simp only [drive, hrest]
  | stopped mem stops t t' =>
    rw [journal_drive_after] at hgo
    exact absurd stops (hgo _ (List.mem_append_left _ mem))

/-- **If nothing stops a run, the other one is the same**, within any budget. -/
theorem run_eq {t t' : Pollable σ α} {s : σ} (h : AlikeUntil stop (t s) (t' s))
    {budget : Option Nat} (hgo : ∀ ev ∈ (t.run budget s).journal, ¬ stop ev) :
    t'.run budget s = t.run budget s := by
  match budget with
  | none => exact congrArg Finished.driven (h.finish_eq hgo)
  | some 0 => rfl
  | some (more + 1) => exact h.drive_eq hgo

end AlikeUntil

end Step

/-! ### Evaluations with two registries -/

/-- The event visits a place at which the callables `env'` lead to something else than `env`. -/
inductive Event.Divides (env env' : Callables σ) (root : Expr) : Event → Prop
  | visited {p : Position} {e : Expr} (at_position : root.at? p = some e)
    (reach_ne : env'.reach e ≠ env.reach e) : Divides env env' root (.visited p)

namespace Sync

variable {env env' : Callables σ} {e : Expr}

/-- What leads to the same call or fault is evaluated in the same way. -/
theorem evaluate_eq_of_reach (hreach : env'.reach e = env.reach e)
    (hleaf : ∀ op es, env.reach e ≠ .operands op es) (p : Position) (c : VisitCounter) (s : σ) :
    evaluate env' p e c s = evaluate env p e c s := by
  cases h : env.reach e with
  | value b =>
    obtain rfl := Callables.eq_of_reach_value h
    rw [evaluate_literal, evaluate_literal]
  | call callee f => rw [evaluate_of_call h, evaluate_of_call (hreach.trans h)]
  | fault error => rw [evaluate_of_fault h, evaluate_of_fault (hreach.trans h)]
  | operands op es => exact absurd h (hleaf op es)

/-- **Walks with two registries are the same**, unless one visits a place that divides them. -/
theorem same_or_divided (env env' : Callables σ) (root : Expr) :
    (∀ e p c s, root.at? p = some e → evaluate env' p e c s = evaluate env p e c s ∨
        ∃ ev ∈ (evaluate env p e c s).journal, ev.Divides env env' root) ∧
      ∀ es op p i c s, root.OperandsAt p i es →
        evaluateOperands env' op p i es c s = evaluateOperands env op p i es c s ∨
          ∃ ev ∈ (evaluateOperands env op p i es c s).journal, ev.Divides env env' root := by
  have hleaf : ∀ e, (∀ op es, env.reach e ≠ .operands op es) → ∀ p c s, root.at? p = some e →
      evaluate env' p e c s = evaluate env p e c s ∨
        ∃ ev ∈ (evaluate env p e c s).journal, ev.Divides env env' root := by
    intro e hleaf p c s hat
    by_cases hreach : env'.reach e = env.reach e
    · exact .inl (evaluate_eq_of_reach hreach hleaf p c s)
    · obtain ⟨rest, hrest⟩ := journal_evaluate_head env e p c s
      rw [hrest]
      exact .inr ⟨_, List.mem_cons_self, .visited hat hreach⟩
  refine env.induct ?_ ?_ ?_ ?_ ?_ ?_
  · exact fun b p c s hat => .inl rfl
  · exact fun e callee f hreach => hleaf e fun op es h => by cases hreach.symm.trans h
  · exact fun e error hreach => hleaf e fun op es h => by cases hreach.symm.trans h
  · intro op es ih p c s hat
    rw [evaluate_operator, evaluate_operator]
    rcases ih op p 0 c.visit s (.of_operator hat) with heq | ⟨ev, hev, hdivides⟩
    · exact .inl (by rw [heq])
    · exact .inr ⟨ev, List.mem_cons_of_mem _ hev, hdivides⟩
  · exact fun op p i c s hat => .inl rfl
  · intro e es ihe ihes op p i c s hat
    rcases ihe (p ++ [i]) c s hat.head with heq | ⟨ev, hev, hdivides⟩
    · rcases op.cases_of_outcome (evaluate env (p ++ [i]) e c s).result with ⟨error, h⟩ | h | h
      · rw [evaluateOperands_cons_of_error es h, evaluateOperands_cons_of_error es (heq ▸ h), heq]
        exact .inl rfl
      · rw [evaluateOperands_cons_of_decided es h, evaluateOperands_cons_of_decided es (heq ▸ h),
          heq]
        exact .inl rfl
      · rw [evaluateOperands_cons_of_undecided es h,
          evaluateOperands_cons_of_undecided es (heq ▸ h), heq]
        rcases ihes op p (i + 1) (evaluate env (p ++ [i]) e c s).counter
          (evaluate env (p ++ [i]) e c s).state hat.tail with hrest | ⟨ev, hev, hdivides⟩
        · exact .inl (by simp only [hrest])
        · exact .inr ⟨ev, List.mem_append_right _ hev, hdivides⟩
    · refine .inr ⟨ev, ?_, hdivides⟩
      rcases op.cases_of_outcome (evaluate env (p ++ [i]) e c s).result with ⟨error, h⟩ | h | h
      · rw [evaluateOperands_cons_of_error es h]
        exact hev
      · rw [evaluateOperands_cons_of_decided es h]
        exact hev
      · rw [evaluateOperands_cons_of_undecided es h]
        exact List.mem_append_left _ hev

end Sync

namespace Async

variable {env env' : Callables σ} {e : Expr}

/-- What leads to the same call or fault is waited for in the same way. -/
theorem evaluate_eq_of_reach (hreach : env'.reach e = env.reach e)
    (hleaf : ∀ op es, env.reach e ≠ .operands op es) (p : Position) (s : σ) :
    evaluate env' p e s = evaluate env p e s := by
  cases h : env.reach e with
  | value b =>
    obtain rfl := Callables.eq_of_reach_value h
    rw [evaluate_literal, evaluate_literal]
  | call callee f => rw [evaluate_of_call h, evaluate_of_call (hreach.trans h)]
  | fault error => rw [evaluate_of_fault h, evaluate_of_fault (hreach.trans h)]
  | operands op es => exact absurd h (hleaf op es)

/-- **Waiting goes the same way with two registries** until a place is visited that divides
them. -/
theorem alikeUntil_divided (env env' : Callables σ) (root : Expr) :
    (∀ e p s, root.at? p = some e →
        Step.AlikeUntil (Event.Divides env env' root) (evaluate env p e s) (evaluate env' p e s)) ∧
      ∀ es op p i s, root.OperandsAt p i es →
        Step.AlikeUntil (Event.Divides env env' root) (evaluateOperands env op p i es s)
          (evaluateOperands env' op p i es s) := by
  have hleaf : ∀ e, (∀ op es, env.reach e ≠ .operands op es) → ∀ p s, root.at? p = some e →
      Step.AlikeUntil (Event.Divides env env' root) (evaluate env p e s) (evaluate env' p e s) := by
    intro e hleaf p s hat
    by_cases hreach : env'.reach e = env.reach e
    · rw [evaluate_eq_of_reach hreach hleaf]
      exact .refl _
    · obtain ⟨t, ht⟩ := evaluate_eq_after env e p s
      obtain ⟨t', ht'⟩ := evaluate_eq_after env' e p s
      rw [ht, ht']
      exact .stopped (List.mem_singleton_self _) (.visited hat hreach) t t'
  refine env.induct ?_ ?_ ?_ ?_ ?_ ?_
  · exact fun b p s hat => .refl _
  · exact fun e callee f hreach => hleaf e fun op es h => by cases hreach.symm.trans h
  · exact fun e error hreach => hleaf e fun op es h => by cases hreach.symm.trans h
  · intro op es ih p s hat
    rw [evaluate_operator, evaluate_operator]
    exact (ih op p 0 s (.of_operator hat)).after _
  · exact fun op p i s hat => .refl _
  · intro e es ihe ihes op p i s hat
    rw [evaluateOperands_cons, evaluateOperands_cons]
    refine (ihe (p ++ [i]) s hat.head).next fun b s' => ?_
    by_cases hb : b = op.decidingValue
    · rw [if_pos hb, if_pos hb]
      exact .refl _
    · rw [if_neg hb, if_neg hb]
      exact ihes op p (i + 1) s' hat.tail

end Async

/-! ### The names that are asked for -/

/-- The registry is asked for the name: a function node of this name is visited. -/
def Journal.AsksFor (root : Node) (j : Journal) (name : String) : Prop :=
  ∃ p args rest, .visited p ∈ j ∧ root.at? p = some (.map ((name, args) :: rest)) ∧
    hasSigil name = false

section Registries

variable {predicate : Predicates σ} {r r' : Registry σ} {root : Node} {j : Journal}

/-- Registries that hold the same function under the name of a function node, or none, lead to the
same. -/
theorem Callables.reach_congr {n : Node}
    (h : ∀ name args rest, n = .map ((name, args) :: rest) → hasSigil name = false →
      r'.get? name = r.get? name) :
    (⟨predicate, r'⟩ : Callables σ).reach (.ofNode n) =
      (⟨predicate, r⟩ : Callables σ).reach (.ofNode n) := by
  match n with
  | .null | .bool _ | .number _ | .string _ | .list _ | .map [] | .predicate _ => rfl
  | .map ((key, value) :: rest) =>
    rw [Expr.ofNode]
    match hrole : KeyRole.ofKey key with
    | .unrecognized => rfl
    | .operator op => cases value <;> rfl
    | .function =>
      have hsame := h key value rest rfl (KeyRole.ofKey_eq_function_iff.mp hrole)
      simp only [reach, function, hsame]

/-- What divides two registries is a name that is asked for. -/
theorem Journal.not_divides (predicate : Predicates σ)
    (hagree : ∀ name, j.AsksFor root name → r'.get? name = r.get? name) :
    ∀ ev ∈ j, ¬ ev.Divides ⟨predicate, r⟩ ⟨predicate, r'⟩ (.ofNode root) := by
  intro ev hev hdivides
  cases hdivides with
  | @visited p e hat hne =>
    obtain ⟨n, hn, rfl⟩ := Expr.at?_ofNode_eq_some_iff.mp hat
    refine hne (Callables.reach_congr ?_)
    rintro name args rest rfl hsigil
    exact hagree name ⟨p, args, rest, hev, hn, hsigil⟩

theorem evaluateSync_eq_of_agree (policy : MissingRoot) {s : σ}
    (hagree : ∀ name,
      ((evaluateSync policy ⟨predicate, r⟩ (some root)).run s).journal.AsksFor root name →
        r'.get? name = r.get? name) :
    (evaluateSync policy ⟨predicate, r'⟩ (some root)).run s =
      (evaluateSync policy ⟨predicate, r⟩ (some root)).run s := by
  have hgo := Journal.not_divides predicate hagree
  rcases policy.root_some_cases root with hroot | hroot
  · rw [Walk.run, Walk.run, evaluateSync_of_none hroot, evaluateSync_of_none hroot]
  · rw [Walk.run, evaluateSync_of_root hroot] at hgo
    rw [Walk.run, Walk.run, evaluateSync_of_root hroot, evaluateSync_of_root hroot]
    rcases (Sync.same_or_divided ⟨predicate, r⟩ ⟨predicate, r'⟩ _).1 _ [] {} s rfl with
      heq | ⟨ev, hev, hdivides⟩
    · exact heq
    · exact absurd hdivides (hgo ev hev)

theorem evaluateAsync_eq_of_agree (policy : MissingRoot) {s : σ} {budget : Option Nat}
    (hagree : ∀ name,
      ((evaluateAsync policy ⟨predicate, r⟩ (some root)).run budget s).journal.AsksFor root name →
        r'.get? name = r.get? name) :
    (evaluateAsync policy ⟨predicate, r'⟩ (some root)).run budget s =
      (evaluateAsync policy ⟨predicate, r⟩ (some root)).run budget s := by
  refine Step.AlikeUntil.run_eq ?_ (Journal.not_divides predicate hagree)
  rcases policy.root_some_cases root with hroot | hroot
  · rw [evaluateAsync_of_none hroot, evaluateAsync_of_none hroot]
    exact .refl _
  · rw [evaluateAsync_of_root hroot, evaluateAsync_of_root hroot]
    exact (Async.alikeUntil_divided _ _ _).1 _ [] s rfl

end Registries

/-! ### The main theorem -/

/-- What the run `run'` of `root` with the registry `r'` comes to, beside the run `run` with the
registry `r`, which has left the journal `j`. -/
structure Localized {ρ : Type} (r r' : Registry σ) (root : Node) (run run' : ρ) (j : Journal)
    (fails : EvalError → Prop) : Prop where
  /-- If the registries agree on the names that are asked for, it is the same run. -/
  same : (∀ name, j.AsksFor root name → r'.get? name = r.get? name) → run' = run
  /-- What is registered under a name with the sigil is never called, -/
  noSigil : ∀ p name args o, (⟨p, .function name args⟩, o) ∈ j.made → hasSigil name = false
  /-- and does not change a run. -/
  sigil : (∀ name, hasSigil name = false → r'.get? name = r.get? name) → run' = run
  /-- New names do not change a run that does not fail for want of one. -/
  extended : (∀ name f, r.get? name = some f → r'.get? name = some f) →
    run' = run ∨ ∃ name, r.contains name = false ∧ r'.contains name = true ∧
      fails (.undefinedFunction name)

/-- Who agrees on what is asked for comes to the same in all other respects. -/
theorem Visiting.localized {ρ : Type} {predicate : Predicates σ} {r r' : Registry σ} {root : Node}
    {s s' : σ} {run run' : ρ} {j : Journal} {fails : EvalError → Prop}
    (h : Visiting ⟨predicate, r⟩ root s j s' fails)
    (same : (∀ name, j.AsksFor root name → r'.get? name = r.get? name) → run' = run) :
    Localized r r' root run run' j fails where
  same := same
  noSigil p name args o hmade := by
    obtain ⟨root', n, -, -, hmakes⟩ := h.calls.leaf _ o hmade
    cases hmakes with
    | function _ _ _ _ hsigil => exact hsigil
  sigil hagree := same fun name ⟨_, _, _, _, _, hsigil⟩ => hagree name hsigil
  extended hextends := by
    by_cases hagree : ∀ name, j.AsksFor root name → r'.get? name = r.get? name
    · exact .inl (same hagree)
    · obtain ⟨name, hname⟩ := Classical.not_forall.mp hagree
      obtain ⟨⟨p, args, rest, hvisited, hn, hsigil⟩, hne⟩ := Classical.not_imp.mp hname
      -- a name that is not new is kept
      have hnone : r.get? name = none := by
        refine Option.eq_none_iff_forall_not_mem.mpr fun f hf => hne ?_
        rw [hextends name f hf, hf]
      have hundefined : r.contains name = false := by rw [Registry.contains, hnone]; rfl
      refine .inr ⟨name, hundefined, ?_, ?_⟩
      · rw [hnone] at hne
        exact Option.isSome_iff_ne_none.mpr hne
      · exact (h.rejected p _ _ _ hvisited hn (.name name args rest hsigil hundefined)).2

/-- **Only the functions that are asked for matter**, for walking and for waiting within any
budget.  Registries that agree on the names of the function nodes that a run visits lead to the
same run: the same nodes are visited, the same happens, and the results, the numbers of polls and
the states at the end are the same.  Names with the sigil are never asked for, and new names change
a run only if it fails for want of one of them. -/
theorem registry_locality (policy : MissingRoot) (predicate : Predicates σ) (r r' : Registry σ)
    (root : Node) (s : σ) :
    let walk (r : Registry σ) := (evaluateSync policy ⟨predicate, r⟩ (some root)).run s
    let wait (budget : Option Nat) (r : Registry σ) :=
      (evaluateAsync policy ⟨predicate, r⟩ (some root)).run budget s
    Localized r r' root (walk r) (walk r') (walk r).journal
        (fun error => (walk r).result = .error error) ∧
      ∀ budget, Localized r r' root (wait budget r) (wait budget r') (wait budget r).journal
        fun error => (wait budget r).result = some (.error error) := by
  intro walk wait
  constructor
  · exact (visiting_evaluateSync policy ⟨predicate, r⟩ root s).localized
      (evaluateSync_eq_of_agree policy)
  · exact fun budget => (visiting_evaluateAsync policy ⟨predicate, r⟩ root s budget).localized
      (evaluateAsync_eq_of_agree policy)

/-- A function that answers true; the state counts the calls. -/
def affirming : Function Nat := fun _ calls => (.ready (.bool true), calls + 1)

/-- A disjunction that is decided by its first operand does not ask for the function of the second
one, nor for one under its own key.  A conjunction does, and fails for want of it. -/
theorem second_function_asked_for :
    let predicate : Predicates Nat := fun _ calls => (.ready (.bool false), calls)
    let r : Registry Nat := Registry.empty.register "f" affirming
    let r' : Registry Nat := (r.register "g" affirming).register "$or" affirming
    let operands : List Node := [.call "f" .null, .call "g" .null]
    let walk (rule : Node) (r : Registry Nat) :=
      (evaluateSync .error ⟨predicate, r⟩ (some rule)).run 0
    let wait (rule : Node) (budget : Option Nat) (r : Registry Nat) :=
      (evaluateAsync .error ⟨predicate, r⟩ (some rule)).run budget 0
    walk (.or operands) r' = walk (.or operands) r ∧
      (∀ budget, wait (.or operands) budget r' = wait (.or operands) budget r) ∧
      ∃ name, r.contains name = false ∧ r'.contains name = true ∧
        (walk (.and operands) r).result = .error (.undefinedFunction name) := by
  intro predicate r r' operands walk wait
  have hentered : ((evaluateAsync .error ⟨predicate, r⟩ (some (Node.or operands))).finish
      0).journal.entered = [[], [0]] := rfl
  have hasked : ∀ (j : Journal) name,
      j <+: ((evaluateAsync .error ⟨predicate, r⟩ (some (Node.or operands))).finish 0).journal →
        j.AsksFor (.or operands) name → r'.get? name = r.get? name := by
    rintro j name hbegins ⟨p, args, rest, hvisited, hn, hsigil⟩
    have hp := Journal.mem_entered.mpr (hbegins.subset hvisited)
    rw [hentered, List.mem_cons, List.mem_singleton] at hp
    rcases hp with rfl | rfl
    · cases hn
      cases hsigil
    · cases hn
      rfl
  have hextends : ∀ name f, r.get? name = some f → r'.get? name = some f := by
    intro name f hf
    by_cases hname : name = "f"
    · rw [← hf, hname]
      rfl
    · rw [Registry.get?_register, if_neg hname] at hf
      cases hf
  refine ⟨?_, fun budget => ?_, ?_⟩
  · refine (registry_locality .error predicate r r' (.or operands) 0).1.same fun name => ?_
    exact hasked _ name (journal_evaluateSync_isPrefix ..)
  · refine ((registry_locality .error predicate r r' (.or operands) 0).2 budget).same fun name => ?_
    exact hasked _ name (Pollable.journal_run_isPrefix ..)
  · refine ((registry_locality .error predicate r r' (.and operands) 0).1.extended
      hextends).resolve_left fun hsame => ?_
    cases congrArg Walked.result hsame

end BooleanRules
