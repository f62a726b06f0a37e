import Mathlib.Algebra.GroupWithZero.Nat
import BooleanRules.Proofs.Sequence

/-!
# Polls and budgets

Polling a computation with a smaller budget does less of the same.  Once the budget
reaches the number of polls that the computation takes without one, nothing changes
any more; below that number the computation is found pending after the last poll.

The number itself is known beforehand from what is called: one poll, and one more for
each time that a promise is found pending.

## Main definitions

* `Journal.promises`, `Journal.started`, `Journal.finished` — the promises that calls
  gave, and the calls whose promises were begun and ended to be waited for.
* `PollAccount` — what a number of polls does to a computation.

## Main results

* `Step.drive_eq_of_le`, `Step.drive_of_lt`, `Step.journal_drive_mono` — polling any
  computation within a budget.
* `Async.polls_finish` — the polls of an evaluation.
* `evaluateAsync_pollAccount` — **the polls of an evaluation are accounted for, and a
  larger budget only adds to what happens.**
-/

namespace BooleanRules

variable {σ α : Type}

/-! ### Any computation -/

namespace Step

/-- A budget that reaches the number of polls is as good as none. -/
theorem drive_eq_of_le {t : Step σ α} {more : Nat} (h : t.finish.polls ≤ more + 1) :
    t.drive more = t.finish.driven := by
  induction t generalizing more with
  | done j s r => rfl
  | pending j s resume ih =>
    have hpolls : (pending j s resume).finish.polls = (resume s).finish.polls + 1 := rfl
    have hone := one_le_polls_finish (resume s)
    cases more with
    | zero => omega
    | succ more =>
      have hle : (resume s).finish.polls ≤ more + 1 := by omega
      have hrest := ih s hle
      simp only [drive, hrest]
      rfl

/-- With a smaller budget all of it is used up, and the computation is pending. -/
theorem drive_of_lt {t : Step σ α} {more : Nat} (h : more + 1 < t.finish.polls) :
    (t.drive more).polls = more + 1 ∧ (t.drive more).result = none := by
  induction t generalizing more with
  | done j s r =>
    have hpolls : (done j s r).finish.polls = 1 := rfl
    omega
  | pending j s resume ih =>
    have hpolls : (pending j s resume).finish.polls = (resume s).finish.polls + 1 := rfl
    cases more with
    | zero => exact ⟨rfl, rfl⟩
    | succ more =>
      have hlt : more + 1 < (resume s).finish.polls := by omega
      obtain ⟨hrest, hresult⟩ := ih s hlt
      exact ⟨congrArg (· + 1) hrest, hresult⟩

/-- What happens within a budget begins what happens within a larger one. -/
theorem journal_drive_mono (t : Step σ α) {more more' : Nat} (h : more ≤ more') :
    (t.drive more).journal <+: (t.drive more').journal := by
  induction t generalizing more more' with
  | done j s r => exact List.prefix_rfl
  | pending j s resume ih =>
    cases more with
    | zero =>
      cases more' with
      | zero => exact List.prefix_rfl
      | succ more' => exact List.prefix_append j _
    | succ more =>
      cases more' with
      | zero => omega
      | succ more' =>
        have hrest := ih s (Nat.le_of_succ_le_succ h)
        exact (List.prefix_append_right_inj j).mpr hrest

end Step

namespace Pollable

variable {t : Pollable σ α} {s : σ}

theorem drive_eq_of_le {n : Nat} (h : (t.finish s).polls ≤ n) :
    t.drive n s = (t.finish s).driven := by
  cases n with
  | zero =>
    have hone := Step.one_le_polls_finish (t s)
    rw [finish] at h
    omega
  | succ more => exact Step.drive_eq_of_le h

theorem drive_of_lt {n : Nat} (h : n < (t.finish s).polls) :
    (t.drive n s).polls = n ∧ (t.drive n s).result = none := by
  cases n with
  | zero => exact ⟨rfl, rfl⟩
  | succ more => exact Step.drive_of_lt h

theorem journal_drive_mono (t : Pollable σ α) (s : σ) {n m : Nat} (h : n ≤ m) :
    (t.drive n s).journal <+: (t.drive m s).journal := by
  match n, m with
  | 0, _ => exact List.nil_prefix
  | n + 1, 0 => omega
  | n + 1, m + 1 => exact Step.journal_drive_mono (t s) (Nat.le_of_succ_le_succ h)

end Pollable

/-! ### Promises in a journal -/

/-- The promise that a call gave, if it gave one. -/
def Output.promise? : Output → Option Promise
  | .ready _ => none
  | .deferred promise => some promise

/-- The call for whose promise waiting begins. -/
def Event.started? : Event → Option Call
  | .started call => some call
  | _ => none

/-- The call for whose promise waiting ends. -/
def Event.finished? : Event → Option Call
  | .finished call => some call
  | _ => none

namespace Journal

/-- The promises that calls gave, with their calls. -/
def promises (j : Journal) : List (Call × Promise) :=
  j.made.filterMap fun m => m.2.promise?.map fun promise => (m.1, promise)

/-- The calls for whose promises waiting has begun. -/
def started (j : Journal) : List Call := j.filterMap Event.started?

/-- The calls for whose promises waiting has ended. -/
def finished (j : Journal) : List Call := j.filterMap Event.finished?

/-- How often the promises are found pending, all together. -/
def yields (j : Journal) : Nat := (j.promises.map fun m => m.2.yields).sum

variable {j k : Journal}

theorem promises_append (j k : Journal) : promises (j ++ k) = promises j ++ promises k := by
  rw [promises, made_append, List.filterMap_append]
  rfl

theorem yields_append (j k : Journal) : yields (j ++ k) = yields j + yields k := by
  rw [yields, promises_append, List.map_append, List.sum_append]
  rfl

/-- What happens once in the block of each promise and nowhere else tells the promises. -/
theorem InBlocks.filterMap_eq {f : Event → Option Call} (hf : ∀ p, f (.visited p) = none)
    (hblock : ∀ call (o : Output),
      (o.block call).filterMap f = (o.promise?.map fun _ => call).toList)
    (h : j.InBlocks) : j.filterMap f = j.promises.map Prod.fst := by
  rw [← filterMap_acts hf j, h, promises]
  induction j.made with
  | nil => rfl
  | cons m calls ih =>
    obtain ⟨call, o⟩ := m
    have hcons : blocks ((call, o) :: calls) = o.block call ++ blocks calls := rfl
    rw [hcons, List.filterMap_append, ih, hblock]
    cases o <;> rfl

/-- In whole blocks each promise is waited for, from its start, -/
theorem InBlocks.started_eq (h : j.InBlocks) : started j = j.promises.map Prod.fst :=
  h.filterMap_eq (fun _ => rfl) fun call o => by cases o <;> rfl

/-- and to its end. -/
theorem InBlocks.finished_eq (h : j.InBlocks) : finished j = j.promises.map Prod.fst :=
  h.filterMap_eq (fun _ => rfl) fun call o => by cases o <;> rfl

theorem yields_block (call : Call) (o : Output) :
    yields (.visited call.position :: o.block call) = o.yields := by
  cases o <;> rfl

end Journal

/-! ### The polls of an evaluation -/

/-- Two ends in a row take one poll less than both, as the second begins in the poll in
which the first one ends. -/
theorem Finished.polls_followedBy {β : Type} {f : Finished σ α} {g : Finished σ β}
    {j k : Journal} (hf : f.polls = 1 + j.yields) (hg : g.polls = 1 + k.yields) :
    (f.followedBy g).polls = 1 + (j ++ k).yields := by
  rw [followedBy, Journal.yields_append]
  simp only
  omega

namespace Async

open Journal

/-- **An evaluation takes one poll, and one more for each time that a promise is found
pending.** -/
theorem polls_finish (env : Callables σ) :
    (∀ e p s, ((evaluate env p e).finish s).polls =
        1 + ((evaluate env p e).finish s).journal.yields) ∧
      ∀ es op p i s, ((evaluateOperands env op p i es).finish s).polls =
        1 + ((evaluateOperands env op p i es).finish s).journal.yields := by
  refine env.induct ?_ ?_ ?_ ?_ ?_ ?_
  · intro b p s
    rfl
  · intro e callee f hreach p s
    rw [finish_evaluate_of_call hreach]
    have hyields := yields_block ⟨p, callee⟩ (f s).1
    rw [Output.block] at hyields
    simp only [hyields]
    omega
  · intro e error hreach p s
    rw [finish_evaluate_of_fault hreach]
    rfl
  · intro op es ih p s
    have hops := ih op p 0 s
    have hentered : yields [.visited p] = 0 := rfl
    rw [finish_evaluate_operator, Finished.polls_after, Finished.journal_after, yields_append,
      hentered, Nat.zero_add]
    exact hops
  · intro op p i s
    rfl
  · intro e es ihe ihes op p i s
    have hfirst := ihe (p ++ [i]) s
    rcases op.cases_of_result ((evaluate env (p ++ [i]) e).finish s).result with
      ⟨error, h⟩ | h | h
    · rw [finish_evaluateOperands_cons_of_error es h]
      exact hfirst
    · rw [finish_evaluateOperands_cons_of_decided es h]
      exact hfirst
    · rw [finish_evaluateOperands_cons_of_undecided es h]
      exact Finished.polls_followedBy hfirst (ihes op p (i + 1) _)

end Async

/-! ### The main theorem -/

/-- What `n` polls do to the computation `t`, for every `n`. -/
structure PollAccount (t : Pollable σ Bool) (s : σ) : Prop where
  /-- Without a budget it takes one poll, and one more for each time that a promise is found
  pending. -/
  polls_eq : (t.finish s).polls = 1 + (t.finish s).journal.yields
  /-- The promises that count are the ones waited for, and each is waited for to its end. -/
  awaited : (t.finish s).journal.started = (t.finish s).journal.promises.map Prod.fst ∧
    (t.finish s).journal.finished = (t.finish s).journal.promises.map Prod.fst
  /-- With as many polls or more it is done, and all is as without a budget. -/
  enough : ∀ n, (t.finish s).polls ≤ n → t.drive n s = (t.finish s).driven
  /-- With fewer it is pending after all of them, and what has happened begins what happens
  without a budget. -/
  short : ∀ n, n < (t.finish s).polls →
    (t.drive n s).polls = n ∧ (t.drive n s).result = none ∧
      (t.drive n s).journal <+: (t.finish s).journal
  /-- Before the first poll nothing happens, and nothing is called. -/
  unpolled : (t.drive 0 s).journal = [] ∧ (t.drive 0 s).state = s
  /-- After a later one that is not the last, a call has just given a promise and waiting
  for it has begun, while all that was begun before has come to its end. -/
  unfinished : ∀ n, 0 < n → n < (t.finish s).polls →
    ∃ (earlier : Journal) (call : Call) (promise : Promise),
      (t.drive n s).journal = earlier ++ [.called call (.deferred promise), .started call] ∧
        earlier.started = earlier.finished
  /-- What happens with some polls begins what happens with more. -/
  mono : ∀ n m, n ≤ m → (t.drive n s).journal <+: (t.drive m s).journal

/-- What is in order, and takes the polls that its promises ask for, is accounted for. -/
theorem PollAccount.of_inOrder {t : Pollable σ Bool} {s : σ} (horder : (t s).InOrder [])
    (hpolls : (t.finish s).polls = 1 + (t.finish s).journal.yields) : PollAccount t s where
  polls_eq := hpolls
  awaited := by
    have hblocks : (t.finish s).journal.InBlocks := horder.finish
    exact ⟨hblocks.started_eq, hblocks.finished_eq⟩
  enough n hn := Pollable.drive_eq_of_le hn
  short n hn := by
    obtain ⟨hn', hresult⟩ := Pollable.drive_of_lt hn
    exact ⟨hn', hresult, t.journal_run_isPrefix (some n) s⟩
  unpolled := ⟨rfl, rfl⟩
  unfinished := by
    intro n hpos hn
    have hbudget : some n ≠ some 0 := by
      intro h
      cases h
      omega
    obtain ⟨earlier, call, promise, hj, hblocks⟩ :=
      (Pollable.inOrder_run horder hbudget).2 (Pollable.drive_of_lt hn).2
    refine ⟨earlier, call, promise, hj, ?_⟩
    rw [hblocks.started_eq, hblocks.finished_eq]
  mono n m hle := t.journal_drive_mono s hle

/-- **The polls of an evaluation are accounted for**, under any policy, for any expression
and from any state: how many there are, and what happens when there are fewer. -/
theorem evaluateAsync_pollAccount (policy : MissingRoot) (env : Callables σ)
    (expression : Option Node) (s : σ) : PollAccount (evaluateAsync policy env expression) s := by
  refine .of_inOrder (inOrder_evaluateAsync policy env expression s) ?_
  match hroot : policy.root expression with
  | .error error =>
    rw [Pollable.finish, evaluateAsync_of_error hroot]
    rfl
  | .ok none =>
    rw [Pollable.finish, evaluateAsync_of_none hroot]
    rfl
  | .ok (some root) =>
    rw [finish_evaluateAsync_of_root hroot]
    exact (Async.polls_finish env).1 _ [] s

end BooleanRules
