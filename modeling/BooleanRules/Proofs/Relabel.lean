import BooleanRules.Evaluation.Outcome
import BooleanRules.Proofs.Polling

/-!
# Runs with other events

Two computations may do the same but for their events, of which some are other ones or
missing, and for their results.  Relabelling takes the one to the other.  It
commutes with all that computations are put together with and are polled by, so that a
relation between two evaluations needs to be looked at one node at a time.

## Main definitions

* `Step.relabel`, `Finished.relabel`, `Driven.relabel` — a step, an end, and a run within
  a budget with other events and another result.
* `Walked.relabel` — the same for the end of a walk.

## Main results

* `Step.relabel_next` — relabelling goes through sequences.
* `Pollable.finish_relabel`, `Pollable.run_relabel` — relabelled steps are polled like the
  steps themselves.
* `Output.await_relabel` — waiting for the result of a call, relabelled.
-/

namespace BooleanRules

variable {σ α β γ δ : Type} (f : Event → Option Event) (g : α → β)

/-- The step with the events that `f` makes of its events, and with the result that `g`
makes of its result. -/
def Step.relabel (f : Event → Option Event) (g : α → β) : Step σ α → Step σ β
  | .done j s r => .done (j.filterMap f) s (r.map g)
  | .pending j s resume => .pending (j.filterMap f) s fun s' => (resume s').relabel f g

/-- The end with other events and another result. -/
def Finished.relabel (e : Finished σ α) : Finished σ β :=
  ⟨e.polls, e.journal.filterMap f, e.state, e.result.map g⟩

/-- The run with other events and another result; it is pending if it was. -/
def Driven.relabel (d : Driven σ α) : Driven σ β :=
  ⟨d.polls, d.journal.filterMap f, d.state, d.result.map (Except.map g)⟩

/-- The end of a walk with other events and another result; it counts the same nodes. -/
def Walked.relabel (w : Walked σ α) : Walked σ β :=
  ⟨w.journal.filterMap f, w.checks, w.counter, w.state, w.result.map g⟩

namespace Step

variable {f g}

theorem relabel_after (j : Journal) (t : Step σ α) :
    (t.after j).relabel f g = (t.relabel f g).after (j.filterMap f) := by
  cases t <;> simp [after, relabel]

/-- A sequence is relabelled by relabelling its parts. -/
theorem relabel_next {h : γ → δ} {k : α → Pollable σ γ} {k' : β → Pollable σ δ}
    (hk : ∀ a s, k' (g a) s = (k a s).relabel f h) (t : Step σ α) :
    (t.relabel f g).next k' = (t.next k).relabel f h := by
  induction t with
  | done j s r =>
    cases r with
    | ok a =>
      have hnext : ((done j s (.ok a)).relabel f g).next k' =
          (k' (g a) s).after (j.filterMap f) := rfl
      rw [hnext, hk, next, relabel_after]
    | error e => rfl
  | pending j s resume ih =>
    simp only [next, relabel]
    congr 1
    funext s'
    exact ih s'

theorem finish_relabel (t : Step σ α) : (t.relabel f g).finish = t.finish.relabel f g := by
  induction t with
  | done j s r => rfl
  | pending j s resume ih => simp [relabel, finish, Finished.relabel, ih]

theorem drive_relabel (t : Step σ α) (more : Nat) :
    (t.relabel f g).drive more = (t.drive more).relabel f g := by
  induction t generalizing more with
  | done j s r => rfl
  | pending j s resume ih =>
    cases more with
    | zero => rfl
    | succ more => simp [relabel, drive, Driven.relabel, ih]

end Step

namespace Pollable

variable {f g} {t : Pollable σ α} {t' : Pollable σ β} {s : σ}

theorem finish_relabel (h : t' s = (t s).relabel f g) :
    t'.finish s = (t.finish s).relabel f g := by
  rw [finish, h, Step.finish_relabel, finish]

/-- What is a relabelled step is a relabelled run, within any budget. -/
theorem run_relabel (h : t' s = (t s).relabel f g) (budget : Option Nat) :
    t'.run budget s = (t.run budget s).relabel f g := by
  match budget with
  | none => exact congrArg Finished.driven (finish_relabel h)
  | some 0 => rfl
  | some (more + 1) =>
    change (t' s).drive more = _
    rw [h, Step.drive_relabel]
    rfl

end Pollable

/-! ### Results of calls -/

/-- The promise of another value, found pending as often. -/
def Promise.map (g : Value → Value) (p : Promise) : Promise := ⟨g p.value, p.yields⟩

/-- The result with another value, ready or promised as before. -/
def Output.map (g : Value → Value) : Output → Output
  | .ready v => .ready (g v)
  | .deferred p => .deferred (p.map g)

theorem Output.map_id (o : Output) : o.map id = o := by
  cases o <;> rfl

section Waiting

variable {f : Event → Option Event} {g : Value → Value} {h : Bool → Bool} {call call' : Call}

/-- Waiting is relabelled by relabelling its start and its end. -/
theorem Pollable.await_relabel (hstarted : f (.started call) = some (.started call'))
    (hfinished : f (.finished call) = some (.finished call')) (p : Promise) (s : σ) :
    await call' (p.map g) s = (await call p s).relabel f g := by
  have hwaiting : ∀ n (s : σ), waiting call' (g p.value) n s =
      (waiting call p.value n s).relabel f g := by
    intro n
    induction n with
    | zero =>
      intro s
      simp [waiting, Step.relabel, Except.map, hfinished]
    | succ n ih =>
      intro s
      simp only [waiting, Step.relabel]
      congr 1
      funext s'
      exact ih s'
  have hjournal : [Event.started call].filterMap f = [.started call'] := by simp [hstarted]
  simp only [await, Promise.map, hwaiting, Step.relabel_after, hjournal]

/-- Waiting for the value of a result is relabelled if the check of the other value is. -/
theorem Output.await_relabel (hstarted : f (.started call) = some (.started call'))
    (hfinished : f (.finished call) = some (.finished call'))
    (hcheck : ∀ v : Value, (g v).expectBool call'.kind = (v.expectBool call.kind).map h)
    (o : Output) (s : σ) : (o.map g).await call' s = (o.await call s).relabel f h := by
  have hdemand : ∀ (v : Value) (s : σ),
      Pollable.demand ((g v).expectBool call'.kind) s =
        (Pollable.demand (v.expectBool call.kind) s).relabel f h := by
    intro v s
    rw [hcheck]
    rfl
  cases o with
  | ready v => exact hdemand v s
  | deferred p =>
    have hawait : Pollable.await call' (p.map g) s = (Pollable.await call p s).relabel f g :=
      Pollable.await_relabel hstarted hfinished p s
    have hnext : ∀ t : Step σ Value,
        (t.relabel f g).next (fun v => Pollable.demand (v.expectBool call'.kind)) =
          (t.next fun v => Pollable.demand (v.expectBool call.kind)).relabel f h :=
      Step.relabel_next hdemand
    rw [Output.map, await, Pollable.bind_eq, Pollable.next_apply, hawait]
    exact hnext _

end Waiting

end BooleanRules
