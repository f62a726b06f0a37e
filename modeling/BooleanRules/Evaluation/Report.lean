import BooleanRules.Evaluator

/-!
# Reports of evaluations

An evaluation can be entered in six ways: with or without waiting, and under
either policy with the registry at hand or through an evaluator built before.
What becomes of the outcome of a synchronous evaluation is a second choice.

* `Entry`, `Followup` — the two choices.
* `Evaluation.follow`, `Aftermath` — what became of an outcome.
* `Entry.run`, `Report` — an evaluation with its follow-up.
-/

namespace BooleanRules

variable {σ : Type}

/-- Which functions and which policy an evaluation takes. -/
inductive Ground where
  /-- The registry at hand, under a policy. -/
  | free (policy : MissingRoot)
  /-- An evaluator built before. -/
  | built
  deriving DecidableEq

/-- A way to enter an evaluation. -/
inductive Entry where
  /-- Without waiting. -/
  | sync (ground : Ground)
  /-- With waiting. -/
  | async (ground : Ground)
  deriving DecidableEq

/-- What to do with the outcome of a synchronous evaluation. -/
inductive Followup where
  /-- Wait for its truth value. -/
  | resolve
  /-- Wait for the value of a promise, whatever its type. -/
  | raw
  /-- Show it. -/
  | inspect
  /-- Nothing. -/
  | drop
  deriving DecidableEq

/-- What became of an outcome. -/
inductive Aftermath where
  /-- Its truth value, unless the budget was used up. -/
  | resolved (polls : Nat) (result : Option (Except EvalError Bool))
  /-- The value of its promise, unless the budget was used up. -/
  | raw (polls : Nat) (value : Option Value)
  /-- Its form for people. -/
  | inspected (text : String)
  /-- Nothing. -/
  | dropped

/-- What is known after a follow-up. -/
structure Followed (σ : Type) where
  /-- What happened. -/
  journal : Journal
  /-- The state of the callables. -/
  state : σ
  /-- What became of the outcome. -/
  aftermath : Aftermath

/-- Follow an outcome up, polling within a budget. -/
def Evaluation.follow (e : Evaluation) (f : Followup) (budget : Option Nat) (s : σ) :
    Followed σ :=
  match f, e with
  | .resolve, e =>
    let d := e.resolve.run budget s
    ⟨d.journal, d.state, .resolved d.polls d.result⟩
  | .raw, .deferred p =>
    let d := p.value.run budget s
    ⟨d.journal, d.state, .raw d.polls (d.result.bind Except.toOption)⟩
  -- there is nothing to wait for
  | .raw, .ready _ => ⟨[], s, .dropped⟩
  | .inspect, e => ⟨[], s, .inspected e.inspect⟩
  | .drop, _ => ⟨[], s, .dropped⟩

/-- What an evaluation answers. -/
inductive Answer where
  /-- The outcome without waiting, and what became of it. -/
  | sync (result : Except EvalError (Evaluation × Aftermath))
  /-- The result with waiting, unless the budget was used up. -/
  | async (polls : Nat) (result : Option (Except EvalError Bool))

/-- What is known after an evaluation and its follow-up. -/
structure Report (σ : Type) where
  /-- What happened. -/
  journal : Journal
  /-- The state of the callables. -/
  state : σ
  /-- The answer. -/
  answer : Answer

/-- The report of a walk whose outcome is followed up. -/
def Walked.report (w : Walked σ Evaluation) (f : Followup) (budget : Option Nat) : Report σ :=
  match w.result with
  | .error e => ⟨w.journal, w.state, .sync (.error e)⟩
  | .ok outcome =>
    let followed := outcome.follow f budget w.state
    ⟨w.journal ++ followed.journal, followed.state, .sync (.ok (outcome, followed.aftermath))⟩

/-- The report of a computation polled within a budget. -/
def Driven.report (d : Driven σ Bool) : Report σ :=
  ⟨d.journal, d.state, .async d.polls d.result⟩

/-- The evaluator that an evaluation uses: a free one takes the registry at
hand. -/
def Ground.evaluator (g : Ground) (registry : Registry σ) (built : Evaluator σ) : Evaluator σ :=
  match g with
  | .free policy => ⟨⟨policy⟩, registry⟩
  | .built => built

/-- Run an evaluation and its follow-up. -/
def Entry.run (entry : Entry) (registry : Registry σ) (built : Evaluator σ)
    (predicate : Predicates σ) (expression : Option Node) (f : Followup)
    (budget : Option Nat) (s : σ) : Report σ :=
  match entry with
  | .sync g =>
    (((g.evaluator registry built).evaluateSync predicate expression).run s).report f budget
  | .async g =>
    (((g.evaluator registry built).evaluateAsync predicate expression).run budget s).report

end BooleanRules
