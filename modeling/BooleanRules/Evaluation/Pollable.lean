import BooleanRules.Call.Registry
import BooleanRules.Call.Journal

/-!
# Pollable computations

A pollable computation does nothing by itself.  Each poll lets it run until it
is done or has to wait for a promise that is still pending.  A poll is given the
state of the callables and gives it back, together with the journal of what
happened in that poll.

* `Step`, `Pollable` — what a poll yields, and a computation ready for one.
* `Pollable.await` — waiting for a promise.
* `Pollable.finish`, `Finished` — polling in a loop until it is done.
* `Pollable.drive`, `Driven` — polling in a loop within a budget.
* `drive_zero` — without polls nothing happens.
-/

namespace BooleanRules

/-- What a poll yields. -/
inductive Step (σ α : Type) where
  /-- The computation is done. -/
  | done (journal : Journal) (state : σ) (result : Except EvalError α)
  /-- The computation waits; the next poll resumes it. -/
  | pending (journal : Journal) (state : σ) (resume : σ → Step σ α)

/-- A computation ready to be polled. -/
def Pollable (σ α : Type) : Type := σ → Step σ α

namespace Step

variable {σ α β : Type}

/-- A step before which more has happened in the same poll. -/
def after (j : Journal) : Step σ α → Step σ α
  | .done j' s r => .done (j ++ j') s r
  | .pending j' s resume => .pending (j ++ j') s resume

/-- Go on with the result, in the same poll; an error ends the computation. -/
def next : Step σ α → (α → Pollable σ β) → Step σ β
  | .done j s (.ok a), f => (f a s).after j
  | .done j s (.error e), _ => .done j s (.error e)
  | .pending j s resume, f => .pending j s fun s' => (resume s').next f

end Step

/-! ### Polling in a loop -/

/-- What is known when a computation is done. -/
structure Finished (σ α : Type) where
  /-- The number of polls made. -/
  polls : Nat
  /-- What happened. -/
  journal : Journal
  /-- The state of the callables. -/
  state : σ
  /-- The result. -/
  result : Except EvalError α

/-- What is known when polling has stopped. -/
structure Driven (σ α : Type) where
  /-- The number of polls made. -/
  polls : Nat
  /-- What happened. -/
  journal : Journal
  /-- The state of the callables. -/
  state : σ
  /-- The result, unless the computation is still pending. -/
  result : Option (Except EvalError α)

/-- Polling that stopped because the computation was done. -/
def Finished.driven {σ α : Type} (f : Finished σ α) : Driven σ α :=
  ⟨f.polls, f.journal, f.state, some f.result⟩

/-- Poll until the computation is done, after the step that has been made. -/
def Step.finish {σ α : Type} : Step σ α → Finished σ α
  | .done j s r => ⟨1, j, s, r⟩
  | .pending j s resume =>
    let rest := (resume s).finish
    { rest with polls := rest.polls + 1, journal := j ++ rest.journal }

/-- Poll at most `more` times after the step that has been made. -/
def Step.drive {σ α : Type} : Step σ α → (more : Nat) → Driven σ α
  | .done j s r, _ => ⟨1, j, s, some r⟩
  | .pending j s _, 0 => ⟨1, j, s, none⟩
  | .pending j s resume, more + 1 =>
    let rest := (resume s).drive more
    { rest with polls := rest.polls + 1, journal := j ++ rest.journal }

/-! ### Computations -/

namespace Pollable

variable {σ α β : Type}

/-- The computation that is done in its first poll. -/
def done (a : α) : Pollable σ α := fun s => .done [] s (.ok a)

/-- First one computation, then the one that its result calls for. -/
def next (t : Pollable σ α) (f : α → Pollable σ β) : Pollable σ β := fun s => (t s).next f

instance : Monad (Pollable σ) where
  pure := done
  bind := next

/-- Enter the node at a position. -/
def enter (p : Position) : Pollable σ Unit := fun s => .done [.visited p] s (.ok ())

/-- Make a call. -/
def perform (call : Call) (f : σ → Output × σ) : Pollable σ Output := fun s =>
  let (output, s') := f s
  .done [.called call output] s' (.ok output)

/-- Go on with a result that is there, or end with its error. -/
def demand (r : Except EvalError α) : Pollable σ α := fun s => .done [] s r

/-- A promise found pending `n` more times before it gives its value. -/
def waiting (call : Call) (value : Value) : (n : Nat) → Pollable σ Value
  | 0, s => .done [.finished call] s (.ok value)
  | n + 1, s => .pending [] s (waiting call value n)

/-- Wait for the promise that a call gave. -/
def await (call : Call) (p : Promise) : Pollable σ Value := fun s =>
  (waiting call p.value p.yields s).after [.started call]

/-- Poll a computation until it is done. -/
def finish (t : Pollable σ α) (s : σ) : Finished σ α := (t s).finish

/-- Poll a computation at most `budget` times. -/
def drive (t : Pollable σ α) (budget : Nat) (s : σ) : Driven σ α :=
  match budget with
  | 0 => ⟨0, [], s, none⟩
  | more + 1 => (t s).drive more

/-- Poll a computation within a budget, or without one until it is done. -/
def run (t : Pollable σ α) (budget : Option Nat) (s : σ) : Driven σ α :=
  match budget with
  | some n => t.drive n s
  | none => (t.finish s).driven

theorem pure_eq (a : α) : (pure a : Pollable σ α) = done a := rfl

theorem bind_eq (t : Pollable σ α) (f : α → Pollable σ β) : (t >>= f) = next t f := rfl

/-- Without polls nothing happens. -/
@[simp] theorem drive_zero (t : Pollable σ α) (s : σ) :
    t.drive 0 s = ⟨0, [], s, none⟩ := rfl

end Pollable

end BooleanRules
