import BooleanRules.Call.Registry
import BooleanRules.Call.Journal

/-!
# Walks

A walk goes through a tree without ever waiting.  It carries a counter of the
nodes it has entered and the state of the callables, writes a journal, and ends
with a result or an error; what it did before an error stays done.  The counters
that its checks looked at are kept.

The counter tells the root from the rest: the root is the first node entered, so
a counter of one means that no operand has been reached yet.

* `VisitCounter`, `VisitCounter.isRootVisit`.
* `Walk`, `Walked` — walks, and what is known when one has ended.
* `Walk.enter`, `Walk.perform`, `Walk.check`, `Walk.demand` — the single steps.
-/

namespace BooleanRules

/-- How many nodes have been entered. -/
structure VisitCounter where
  /-- The number of nodes. -/
  visits : Nat := 0
  deriving DecidableEq

namespace VisitCounter

/-- One more node is entered. -/
def visit (c : VisitCounter) : VisitCounter := ⟨c.visits + 1⟩

/-- The node entered last is the first one. -/
def isRootVisit (c : VisitCounter) : Bool := c.visits == 1

/-- A counter after `n` more nodes. -/
def visitTimes : Nat → VisitCounter → VisitCounter
  | 0, c => c
  | n + 1, c => visitTimes n c.visit

@[simp] theorem visits_visit (c : VisitCounter) : c.visit.visits = c.visits + 1 := rfl

@[simp] theorem visits_visitTimes (n : Nat) (c : VisitCounter) :
    (visitTimes n c).visits = c.visits + n := by
  induction n generalizing c with
  | zero => rfl
  | succ n ih => simp [visitTimes, ih, Nat.add_comm, Nat.add_left_comm]

end VisitCounter

/-- What is known when a walk has ended. -/
structure Walked (σ α : Type) where
  /-- What happened. -/
  journal : Journal
  /-- The counter at each check of a call's result, in order. -/
  checks : List VisitCounter
  /-- How many nodes have been entered. -/
  counter : VisitCounter
  /-- The state of the callables. -/
  state : σ
  /-- The result, or why there is none. -/
  result : Except EvalError α

/-- A walk, from a counter and a state of the callables. -/
def Walk (σ α : Type) : Type := VisitCounter → σ → Walked σ α

namespace Walk

variable {σ α β : Type}

/-- The walk that ends at once. -/
def done (a : α) : Walk σ α := fun c s => ⟨[], [], c, s, .ok a⟩

/-- First one walk, then the one that its result calls for; an error ends both. -/
def next (w : Walk σ α) (f : α → Walk σ β) : Walk σ β := fun c s =>
  let first := w c s
  match first.result with
  | .ok a =>
    let second := f a first.counter first.state
    { second with
      journal := first.journal ++ second.journal
      checks := first.checks ++ second.checks }
  | .error e => ⟨first.journal, first.checks, first.counter, first.state, .error e⟩

instance : Monad (Walk σ) where
  pure := done
  bind := next

/-- Enter the node at a position. -/
def enter (p : Position) : Walk σ Unit := fun c s => ⟨[.visited p], [], c.visit, s, .ok ()⟩

/-- Make a call. -/
def perform (call : Call) (f : σ → Output × σ) : Walk σ Output := fun c s =>
  let (output, s') := f s
  ⟨[.called call output], [], c, s', .ok output⟩

/-- Go on with a result that is there, or end with its error. -/
def demand (r : Except EvalError α) : Walk σ α := fun c s => ⟨[], [], c, s, r⟩

/-- Go on with a result that depends on how many nodes have been entered. -/
def check (f : VisitCounter → Except EvalError α) : Walk σ α := fun c s => ⟨[], [c], c, s, f c⟩

/-- A walk from its beginning, no node having been entered. -/
def run (w : Walk σ α) (s : σ) : Walked σ α := w {} s

theorem pure_eq (a : α) : (pure a : Walk σ α) = done a := rfl

theorem bind_eq (w : Walk σ α) (f : α → Walk σ β) : (w >>= f) = next w f := rfl

end Walk

end BooleanRules
