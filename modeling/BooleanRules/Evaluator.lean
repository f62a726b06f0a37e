import BooleanRules.Config.Loading
import BooleanRules.Evaluation.Async
import BooleanRules.Evaluation.Sync
import BooleanRules.Node.Json

/-!
# Evaluators

The entry points.  An evaluator holds a configuration and a registry of its own,
so that what happens to either elsewhere does not reach it.

* `evaluateSync`, `evaluateAsync` — evaluation of an optional expression under a
  policy.
* `Evaluator` — a configuration and a registry, with the same two entry points.
* `checkRule` — a configuration text and a rule text, loaded and evaluated in
  both ways.
-/

namespace BooleanRules

variable {σ : Type}

/-- Evaluate an optional expression without waiting. -/
def evaluateSync (policy : MissingRoot) (env : Callables σ) (expression : Option Node) :
    Walk σ Evaluation := do
  match ← Walk.demand (policy.root expression) with
  | none => return .ready false
  | some root => Sync.evaluate env [] (Expr.ofNode root)

/-- Evaluate an optional expression, waiting for every promise. -/
def evaluateAsync (policy : MissingRoot) (env : Callables σ) (expression : Option Node) :
    Pollable σ Bool := do
  match ← Pollable.demand (policy.root expression) with
  | none => return false
  | some root => Async.evaluate env [] (Expr.ofNode root)

/-- A configuration and a registry to evaluate with. -/
structure Evaluator (σ : Type) where
  /-- The configuration. -/
  config : Config := {}
  /-- The functions. -/
  functions : Registry σ := .empty

namespace Evaluator

/-- The callables of an evaluator, given what its predicates do. -/
def callables (e : Evaluator σ) (predicate : Predicates σ) : Callables σ :=
  ⟨predicate, e.functions⟩

/-- Evaluate an optional expression without waiting. -/
def evaluateSync (e : Evaluator σ) (predicate : Predicates σ) :
    Option Node → Walk σ Evaluation :=
  BooleanRules.evaluateSync e.config.missingRoot (e.callables predicate)

/-- Evaluate an optional expression, waiting for every promise. -/
def evaluateAsync (e : Evaluator σ) (predicate : Predicates σ) :
    Option Node → Pollable σ Bool :=
  BooleanRules.evaluateAsync e.config.missingRoot (e.callables predicate)

end Evaluator

/-- What checking a rule text tells. -/
structure RuleCheck where
  /-- The outcome without waiting; `none` is a promise, which is dropped. -/
  sync : Option Bool
  /-- The outcome with waiting. -/
  async : Bool

/-- The node of a rule text. -/
def Node.load (text : String) : Except Failure Node :=
  match Node.read text with
  | .ok n => .ok n
  | .error f => .error (.config (.text f))

/-- Load a configuration text and a rule text, where no configuration text means
the default and no rule text no expression. -/
def loadRule (configText ruleText : Option String) :
    Except Failure (Config × Option Node) := do
  let config ← configText.elim (.ok {}) fun t => Config.load (.text t)
  let rule ← ruleText.mapM Node.load
  return (config, rule)

/-- Load a rule, evaluate it without waiting, and unless that fails evaluate it
once more with waiting, from the state that the first evaluation left. -/
def checkRule (configText ruleText : Option String) (functions : Registry σ)
    (predicate : Predicates σ) (s : σ) : Journal × Except Failure RuleCheck :=
  match loadRule configText ruleText with
  | .error f => ([], .error f)
  | .ok (config, rule) =>
    let evaluator : Evaluator σ := ⟨config, functions⟩
    let walked := (evaluator.evaluateSync predicate rule).run s
    match walked.result with
    | .error e => (walked.journal, .error (.eval e))
    | .ok outcome =>
      let finished := (evaluator.evaluateAsync predicate rule).finish walked.state
      let journal := walked.journal ++ finished.journal
      match finished.result with
      | .ok b => (journal, .ok ⟨outcome.ready?, b⟩)
      | .error e => (journal, .error (.eval e))

end BooleanRules
