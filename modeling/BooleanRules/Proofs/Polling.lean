import BooleanRules.Evaluation.Pollable

/-!
# Polling, step by step and to the end

A pollable computation is put together from smaller ones with `next`.  These are
the laws that take the polls of the whole apart again: what has happened before a
step moves out of it (`after`), sequences associate (`next`), and polling the
whole to its end is polling the first part to its end and then the second, the
second beginning in the very poll in which the first ends.

## Main definitions

* `Finished.after`, `Finished.followedBy` — an end with more before it, and two
  ends in a row.

## Main results

* `Step.finish_next` — polling a sequence to its end.
* `Step.journal_drive_isPrefix` — what happens within a budget begins what happens
  without one.
* `Step.drive_eq_of_result` — polling within a budget that yields a result is
  polling to the end.
-/

namespace BooleanRules

variable {σ α β γ : Type}

/-! ### Ends -/

namespace Finished

/-- An end before which more has happened. -/
def after (j : Journal) (f : Finished σ α) : Finished σ α :=
  { f with journal := j ++ f.journal }

/-- An end, and the end of what was begun in the same poll. -/
def followedBy (f : Finished σ α) (g : Finished σ β) : Finished σ β :=
  ⟨f.polls + (g.polls - 1), f.journal ++ g.journal, g.state, g.result⟩

@[simp] theorem polls_after (j : Journal) (f : Finished σ α) : (f.after j).polls = f.polls := rfl

@[simp] theorem journal_after (j : Journal) (f : Finished σ α) :
    (f.after j).journal = j ++ f.journal := rfl

@[simp] theorem state_after (j : Journal) (f : Finished σ α) : (f.after j).state = f.state := rfl

@[simp] theorem result_after (j : Journal) (f : Finished σ α) : (f.after j).result = f.result := rfl

end Finished

namespace Step

/-! ### What has happened before -/

@[simp] theorem after_nil (t : Step σ α) : t.after [] = t := by
  cases t <;> rfl

@[simp] theorem after_after (j k : Journal) (t : Step σ α) :
    (t.after k).after j = t.after (j ++ k) := by
  cases t <;> simp [after]

/-- What has happened before a step has happened before all that follows it. -/
theorem next_after (j : Journal) (t : Step σ α) (f : α → Pollable σ β) :
    (t.after j).next f = (t.next f).after j := by
  cases t with
  | done k s r =>
    cases r with
    | ok a => exact (after_after j k (f a s)).symm
    | error e => rfl
  | pending k s resume => rfl

/-- Sequences associate. -/
theorem next_next (t : Step σ α) (f : α → Pollable σ β) (g : β → Pollable σ γ) :
    (t.next f).next g = t.next fun a => (f a).next g := by
  induction t with
  | done j s r =>
    cases r with
    | ok a => exact next_after j (f a s) g
    | error e => rfl
  | pending j s resume ih =>
    simp only [next]
    congr 1
    funext s'
    exact ih s'

/-! ### Polling to the end -/

@[simp] theorem finish_done (j : Journal) (s : σ) (r : Except EvalError α) :
    (done j s r).finish = ⟨1, j, s, r⟩ := rfl

/-- Nothing ends before its first poll. -/
theorem one_le_polls_finish (t : Step σ α) : 1 ≤ t.finish.polls := by
  cases t with
  | done j s r => exact Nat.le_refl 1
  | pending j s resume => simp [finish]

@[simp] theorem finish_after (j : Journal) (t : Step σ α) :
    (t.after j).finish = t.finish.after j := by
  cases t <;> simp [after, finish, Finished.after]

/-- Polling a sequence to its end: the second part begins in the poll in which the
first one ends, and an error of the first part is the end. -/
theorem finish_next (t : Step σ α) (f : α → Pollable σ β) :
    (t.next f).finish = match t.finish.result with
      | .ok a => t.finish.followedBy (f a t.finish.state).finish
      | .error e => ⟨t.finish.polls, t.finish.journal, t.finish.state, .error e⟩ := by
  induction t with
  | done j s r =>
    cases r with
    | ok a =>
      have hpolls := one_le_polls_finish (f a s)
      simp only [next, finish_after, finish_done, Finished.after, Finished.followedBy]
      congr 1
      omega
    | error e => rfl
  | pending j s resume ih =>
    simp only [next, finish, ih s]
    cases (resume s).finish.result with
    | ok a => simp [Finished.followedBy, Nat.add_right_comm]
    | error e => rfl

theorem finish_next_of_ok {t : Step σ α} {f : α → Pollable σ β} {a : α}
    (h : t.finish.result = .ok a) :
    (t.next f).finish = t.finish.followedBy (f a t.finish.state).finish := by
  rw [finish_next, h]

theorem finish_next_of_error {t : Step σ α} {f : α → Pollable σ β} {e : EvalError}
    (h : t.finish.result = .error e) :
    (t.next f).finish = ⟨t.finish.polls, t.finish.journal, t.finish.state, .error e⟩ := by
  rw [finish_next, h]

/-! ### Polling within a budget -/

/-- What happens within a budget begins what happens without one. -/
theorem journal_drive_isPrefix (t : Step σ α) (more : Nat) :
    (t.drive more).journal <+: t.finish.journal := by
  induction t generalizing more with
  | done j s r => exact List.prefix_rfl
  | pending j s resume ih =>
    cases more with
    | zero => exact List.prefix_append j _
    | succ more => exact (List.prefix_append_right_inj j).mpr (ih s more)

/-- Polling within a budget that yields a result is polling to the end. -/
theorem drive_eq_of_result {t : Step σ α} {more : Nat} {r : Except EvalError α}
    (h : (t.drive more).result = some r) : t.drive more = t.finish.driven := by
  induction t generalizing more with
  | done j s r => rfl
  | pending j s resume ih =>
    cases more with
    | zero => simp [drive] at h
    | succ more =>
      have hrest := ih s h
      simp only [drive, hrest]
      rfl

end Step

namespace Pollable

theorem next_apply (t : Pollable σ α) (f : α → Pollable σ β) (s : σ) :
    t.next f s = (t s).next f := rfl

/-- What happens in a run begins what happens in the run without a budget. -/
theorem journal_run_isPrefix (t : Pollable σ α) (budget : Option Nat) (s : σ) :
    (t.run budget s).journal <+: (t.finish s).journal := by
  match budget with
  | none => exact List.prefix_rfl
  | some 0 => exact List.nil_prefix
  | some (more + 1) => exact Step.journal_drive_isPrefix (t s) more

/-- A run that yields a result is the run without a budget. -/
theorem run_eq_of_result {t : Pollable σ α} {budget : Option Nat} {s : σ}
    {r : Except EvalError α} (h : (t.run budget s).result = some r) :
    t.run budget s = (t.finish s).driven := by
  match budget with
  | none => rfl
  | some 0 => simp [run] at h
  | some (more + 1) => exact Step.drive_eq_of_result h

end Pollable

end BooleanRules
