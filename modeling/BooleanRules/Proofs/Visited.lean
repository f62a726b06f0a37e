import BooleanRules.Proofs.Provenance

/-!
# What becomes of a visited node

What happens at a node follows right after the node is visited.  A node that makes a call makes it
at once, in the state that the calls before it have left, and a node that is rejected is the last
thing that happens.  This is so for walking and for waiting, also within a budget: between two
polls no node has been visited without having made its call.

## Main definitions

* `Callables.Replays` — a journal leads from a state to another one.
* `Step.Replays` — every poll of a step does.
* `Visiting` — what becomes of the nodes that a run visits.

## Main results

* `Sync.replays`, `Async.replays` — the two evaluations lead from state to state.
* `Callables.Replays.called_of_visited` — what makes a call when it is visited makes it at once.
* `visiting_evaluateSync`, `visiting_evaluateAsync` — the runs of a tree.
-/

namespace BooleanRules

variable {σ α β : Type}

/-! ### From state to state -/

/-- `env.Replays root s j s'` says that what happens in the journal `j` leads from the state `s` to
the state `s'`: where something is called it is called as soon as it is visited, and the state
changes by calls alone. -/
inductive Callables.Replays (env : Callables σ) (root : Expr) : σ → Journal → σ → Prop
  | nil (s : σ) : Replays env root s [] s
  | visited {p : Position} {e : Expr} {s s' : σ} {j : Journal} (at_position : root.at? p = some e)
    (no_call : ∀ callee f, env.reach e ≠ .call callee f) (rest : Replays env root s j s') :
    Replays env root s (.visited p :: j) s'
  | called {p : Position} {e : Expr} {callee : Callee} {f : σ → Output × σ} {s s' : σ} {j : Journal}
    (at_position : root.at? p = some e) (reached : env.reach e = .call callee f)
    (rest : Replays env root (f s).2 j s') :
    Replays env root s (.visited p :: .called ⟨p, callee⟩ (f s).1 :: j) s'
  | started (call : Call) {s s' : σ} {j : Journal} (rest : Replays env root s j s') :
    Replays env root s (.started call :: j) s'
  | finished (call : Call) {s s' : σ} {j : Journal} (rest : Replays env root s j s') :
    Replays env root s (.finished call :: j) s'

namespace Callables.Replays

variable {env : Callables σ} {root : Expr} {s s₁ s' : σ} {j k : Journal} {p : Position} {e : Expr}

theorem append (h : env.Replays root s j s₁) (hk : env.Replays root s₁ k s') :
    env.Replays root s (j ++ k) s' := by
  induction h with
  | nil s => exact hk
  | visited hat hcall _ ih => exact .visited hat hcall (ih hk)
  | called hat hreach _ ih => exact .called hat hreach (ih hk)
  | started call _ ih => exact .started call (ih hk)
  | finished call _ ih => exact .finished call (ih hk)

/-- Before a node is visited all calls have been made that lead to it. -/
theorem split {earlier later : Journal}
    (h : env.Replays root s (earlier ++ .visited p :: later) s') :
    ∃ s₁, env.Replays root s earlier s₁ ∧ env.Replays root s₁ (.visited p :: later) s' := by
  generalize hj : earlier ++ .visited p :: later = j at h
  induction h generalizing earlier with
  | nil s => simp at hj
  | @visited q e s s' j hat hcall rest ih =>
    rcases List.append_eq_cons_iff.mp hj with ⟨rfl, hj⟩ | ⟨earlier, rfl, rfl⟩
    · cases hj
      exact ⟨s, .nil s, .visited hat hcall rest⟩
    · obtain ⟨s₁, hearlier, hlater⟩ := ih rfl
      exact ⟨s₁, .visited hat hcall hearlier, hlater⟩
  | @called q e callee f s s' j hat hreach rest ih =>
    rcases List.append_eq_cons_iff.mp hj with ⟨rfl, hj⟩ | ⟨earlier, rfl, hrest⟩
    · cases hj
      exact ⟨s, .nil s, .called hat hreach rest⟩
    -- between the node and its call nothing is visited
    · rcases List.append_eq_cons_iff.mp hrest.symm with ⟨-, hcall⟩ | ⟨earlier, rfl, rfl⟩
      · cases hcall
      · obtain ⟨s₁, hearlier, hlater⟩ := ih rfl
        exact ⟨s₁, .called hat hreach hearlier, hlater⟩
  | started call rest ih =>
    rcases List.append_eq_cons_iff.mp hj with ⟨-, hj⟩ | ⟨earlier, rfl, rfl⟩
    · cases hj
    · obtain ⟨s₁, hearlier, hlater⟩ := ih rfl
      exact ⟨s₁, .started call hearlier, hlater⟩
  | finished call rest ih =>
    rcases List.append_eq_cons_iff.mp hj with ⟨-, hj⟩ | ⟨earlier, rfl, rfl⟩
    · cases hj
    · obtain ⟨s₁, hearlier, hlater⟩ := ih rfl
      exact ⟨s₁, .finished call hearlier, hlater⟩

/-- **What makes a call when it is visited makes it at once**, in the state that the calls before
it have left. -/
theorem called_of_visited {callee : Callee} {f : σ → Output × σ} (h : env.Replays root s j s')
    (hvisited : .visited p ∈ j) (hat : root.at? p = some e)
    (hreach : env.reach e = .call callee f) :
    ∃ (earlier later : Journal) (s₁ : σ), env.Replays root s earlier s₁ ∧
      j = earlier ++ .visited p :: .called ⟨p, callee⟩ (f s₁).1 :: later := by
  obtain ⟨earlier, later, rfl⟩ := List.append_of_mem hvisited
  obtain ⟨s₁, hearlier, hrest⟩ := h.split
  cases hrest with
  | visited hat' hcall =>
    cases hat.symm.trans hat'
    exact absurd hreach (hcall callee f)
  | called hat' hreach' =>
    cases hat.symm.trans hat'
    cases hreach.symm.trans hreach'
    exact ⟨earlier, _, s₁, hearlier, rfl⟩

end Callables.Replays

/-! ### Walking -/

namespace Sync

/-- **A walk leads from state to state.** -/
theorem replays (env : Callables σ) (root : Expr) :
    (∀ e p c s, root.at? p = some e →
        env.Replays root s (evaluate env p e c s).journal (evaluate env p e c s).state) ∧
      ∀ es op p i c s, root.OperandsAt p i es →
        env.Replays root s (evaluateOperands env op p i es c s).journal
          (evaluateOperands env op p i es c s).state := by
  refine env.induct ?_ ?_ ?_ ?_ ?_ ?_
  · intro b p c s hat
    rw [evaluate_literal]
    exact .visited hat (fun callee f h => by cases h) (.nil s)
  · intro e callee f hreach p c s hat
    rw [evaluate_of_call hreach]
    exact .called hat hreach (.nil _)
  · intro e error hreach p c s hat
    rw [evaluate_of_fault hreach]
    exact .visited hat (fun callee f h => by cases hreach.symm.trans h) (.nil s)
  · intro op es ih p c s hat
    rw [evaluate_operator]
    exact .visited hat (fun callee f h => by cases h) (ih op p 0 c.visit s (.of_operator hat))
  · intro op p i c s hat
    exact .nil s
  · intro e es ihe ihes op p i c s hat
    have hfirst := ihe (p ++ [i]) c s hat.head
    rcases op.cases_of_outcome (evaluate env (p ++ [i]) e c s).result with ⟨error, h⟩ | h | h
    · rw [evaluateOperands_cons_of_error es h]
      exact hfirst
    · rw [evaluateOperands_cons_of_decided es h]
      exact hfirst
    · rw [evaluateOperands_cons_of_undecided es h]
      exact hfirst.append (ihes op p (i + 1) _ _ hat.tail)

end Sync

/-! ### Waiting -/

namespace Step

/-- What happens in each poll leads from the state that the poll is given to the one that it gives
back, if nothing else changes the state between two polls. -/
def Replays (env : Callables σ) (root : Expr) : σ → Step σ α → Prop
  | s, .done j s' _ => env.Replays root s j s'
  | s, .pending j s' resume => env.Replays root s j s' ∧ (resume s').Replays env root s'

variable {env : Callables σ} {root : Expr} {s s₁ : σ} {j : Journal} {t : Step σ α}

theorem Replays.after (hj : env.Replays root s j s₁) (h : t.Replays env root s₁) :
    (t.after j).Replays env root s := by
  cases t with
  | done k s' r => exact hj.append h
  | pending k s' resume => exact ⟨hj.append h.1, h.2⟩

theorem Replays.next {f : α → Pollable σ β} (h : t.Replays env root s)
    (hf : ∀ a s', (f a s').Replays env root s') : (t.next f).Replays env root s := by
  induction t generalizing s with
  | done k s' r =>
    cases r with
    | ok a => exact .after h (hf a s')
    | error e => exact h
  | pending k s' resume ih => exact ⟨h.1, ih s' h.2⟩

theorem Replays.finish (h : t.Replays env root s) :
    env.Replays root s t.finish.journal t.finish.state := by
  induction t generalizing s with
  | done k s' r => exact h
  | pending k s' resume ih => exact h.1.append (ih s' h.2)

theorem Replays.drive (h : t.Replays env root s) (more : Nat) :
    env.Replays root s (t.drive more).journal (t.drive more).state := by
  induction t generalizing s more with
  | done k s' r => exact h
  | pending k s' resume ih =>
    cases more with
    | zero => exact h.1
    | succ more => exact h.1.append (ih s' h.2 more)

/-- Within any budget a run leads from the state it is given to the one it leaves. -/
theorem Replays.run {t : Pollable σ α} (h : (t s).Replays env root s) (budget : Option Nat) :
    env.Replays root s (t.run budget s).journal (t.run budget s).state := by
  match budget with
  | none => exact h.finish
  | some 0 => exact .nil s
  | some (more + 1) => exact h.drive more

end Step

namespace Async

theorem replays_waiting (env : Callables σ) (root : Expr) (call : Call) (v : Value) (n : Nat)
    (s : σ) : (Pollable.waiting call v n s).Replays env root s := by
  induction n with
  | zero => exact .finished call (.nil s)
  | succ n ih => exact ⟨.nil s, ih⟩

/-- Waiting for the result of a call does not change the state. -/
theorem replays_await (env : Callables σ) (root : Expr) (call : Call) (o : Output) (s : σ) :
    (o.await call s : Step σ Bool).Replays env root s := by
  cases o with
  | ready v => exact .nil s
  | deferred promise =>
    have hwaiting := replays_waiting env root call promise.value promise.yields s
    exact .next (.after (.started call (.nil s)) hwaiting) fun v s' => .nil s'

/-- **Waiting leads from state to state.** -/
theorem replays (env : Callables σ) (root : Expr) :
    (∀ e p s, root.at? p = some e → (evaluate env p e s).Replays env root s) ∧
      ∀ es op p i s, root.OperandsAt p i es →
        (evaluateOperands env op p i es s).Replays env root s := by
  refine env.induct ?_ ?_ ?_ ?_ ?_ ?_
  · intro b p s hat
    rw [evaluate_literal]
    exact .visited hat (fun callee f h => by cases h) (.nil s)
  · intro e callee f hreach p s hat
    rw [evaluate_of_call hreach]
    exact .after (.called hat hreach (.nil _)) (replays_await env root ⟨p, callee⟩ (f s).1 _)
  · intro e error hreach p s hat
    rw [evaluate_of_fault hreach]
    exact .visited hat (fun callee f h => by cases hreach.symm.trans h) (.nil s)
  · intro op es ih p s hat
    rw [evaluate_operator]
    exact .after (.visited hat (fun callee f h => by cases h) (.nil s))
      (ih op p 0 s (.of_operator hat))
  · intro op p i s hat
    exact .nil s
  · intro e es ihe ihes op p i s hat
    rw [evaluateOperands_cons]
    refine .next (ihe (p ++ [i]) s hat.head) fun b s' => ?_
    by_cases hb : b = op.decidingValue
    · rw [if_pos hb]
      exact .nil s'
    · rw [if_neg hb]
      exact ihes op p (i + 1) s' hat.tail

end Async

/-! ### The runs of a tree -/

/-- What becomes of the nodes that a run of `root` visits, which has left the journal `j` and has
led from the state `s` to the state `s'`. -/
structure Visiting (env : Callables σ) (root : Node) (s : σ) (j : Journal) (s' : σ)
    (fails : EvalError → Prop) : Prop where
  /-- What makes a call makes it at once. -/
  replays : env.Replays (.ofNode root) s j s'
  /-- What is rejected is the last thing that happens, and the run fails. -/
  rejected : ∀ p n reason error, .visited p ∈ j → root.at? p = some n →
    n.Rejected env reason error → (∃ earlier, j = earlier ++ [.visited p]) ∧ fails error
  /-- Who makes the calls, and in which order. -/
  calls : CallsInDocumentOrder env (some root) j

section Runs

variable (policy : MissingRoot) (env : Callables σ) (root : Node) (s : σ)

theorem visiting_evaluateSync :
    let w := (evaluateSync policy env (some root)).run s
    Visiting env root s w.journal w.state fun error => w.result = .error error := by
  refine ⟨?_, fun p n reason error hvisited hn hrejected => ?_, ?_⟩
  · rcases policy.root_some_cases root with hroot | hroot
    · rw [Walk.run, evaluateSync_of_none hroot]
      exact .nil s
    · rw [Walk.run, evaluateSync_of_root hroot]
      exact (Sync.replays env _).1 _ [] {} s rfl
  · obtain ⟨earlier, later, hj⟩ := List.append_of_mem hvisited
    have hlater := evaluateSync_stops rfl hj (.rejected p n reason error hn hrejected)
    rw [List.prefix_nil.mp hlater] at hj
    refine ⟨⟨earlier, hj⟩, (evaluateSync_fails_iff policy env _ s error).mpr ⟨reason, ?_⟩⟩
    exact .rejected root n earlier p reason error rfl hn hj hrejected
  · exact (CallsInDocumentOrder.of_finish policy env _ s).of_isPrefix
      (journal_evaluateSync_isPrefix policy env _ s)

/-- A run whose last event is a visit is done. -/
theorem result_ne_none_of_visited_last {budget : Option Nat} {earlier : Journal} {p : Position}
    (hj : ((evaluateAsync policy env (some root)).run budget s).journal = earlier ++ [.visited p]) :
    ((evaluateAsync policy env (some root)).run budget s).result ≠ none := by
  intro hnone
  by_cases hbudget : budget = some 0
  · subst hbudget
    cases (List.append_eq_nil_iff.mp hj.symm).2
  · -- what is not done has begun to wait
    have horder := inOrder_evaluateAsync policy env (some root) s
    obtain ⟨before, call, promise, hlast, -⟩ := (Pollable.inOrder_run horder hbudget).2 hnone
    have hends := congrArg List.getLast? (hj.symm.trans hlast)
    simp at hends

theorem visiting_evaluateAsync (budget : Option Nat) :
    let d := (evaluateAsync policy env (some root)).run budget s
    Visiting env root s d.journal d.state fun error => d.result = some (.error error) := by
  have hbegins := Pollable.journal_run_isPrefix (evaluateAsync policy env (some root)) budget s
  refine ⟨?_, fun p n reason error hvisited hn hrejected => ?_, ?_⟩
  · refine Step.Replays.run ?_ budget
    rcases policy.root_some_cases root with hroot | hroot
    · rw [evaluateAsync_of_none hroot]
      exact .nil s
    · rw [evaluateAsync_of_root hroot]
      exact (Async.replays env _).1 _ [] s rfl
  · obtain ⟨earlier, later, hj⟩ := List.append_of_mem hvisited
    obtain ⟨rest, hrest⟩ := hbegins
    have hfatal := Event.Fatal.rejected p n reason error hn hrejected
    have hfinish := hrest.symm
    rw [hj, List.append_assoc, List.cons_append] at hfinish
    obtain ⟨rfl, rfl⟩ := List.append_eq_nil_iff.mp (evaluateAsync_stops rfl hfinish hfatal)
    have hfailed := (evaluateAsync_fails_iff policy env _ s error).mpr
      ⟨reason, .rejected root n earlier p reason error rfl hn hfinish hrejected⟩
    refine ⟨⟨earlier, hj⟩, ?_⟩
    obtain ⟨r, hr⟩ := Option.ne_none_iff_exists'.mp
      (result_ne_none_of_visited_last policy env root s hj)
    rw [Pollable.run_eq_of_result hr]
    exact congrArg some hfailed
  · exact (CallsInDocumentOrder.of_finish policy env _ s).of_isPrefix hbegins

end Runs

end BooleanRules
