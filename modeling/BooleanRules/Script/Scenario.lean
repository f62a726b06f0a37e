import BooleanRules.Script.Body
import BooleanRules.Session

/-!
# Scenarios

Callables described by data, so that rules can be tried out without writing
code.  A script lists the results of a callable, one for each call, the last one
for good.  The only state that scripted callables share is how often each script
has been used.

* `Script`, `Tally` — scripts, and how often they have been used.
* `FunctionSpec`, `FunctionSpec.function` — described functions.
* `Scenario`, `Scenario.report`, `Scenario.run` — predicates and functions, with
  one evaluation from a fresh state, or commands of a session.
-/

namespace BooleanRules

/-! ### Scripts and how often they have been used -/

/-- The results of a callable in the order of its calls. -/
abbrev Script := List Output

/-- The result of the `k`-th call: the last result is repeated for good. -/
def Script.output (script : Script) (k : Nat) : Output :=
  script.getD (min k (script.length - 1)) (.ready .null)

/-- Whose calls are counted. -/
inductive Slot where
  /-- A predicate, under its name. -/
  | predicate (name : String)
  /-- A registration of a function. -/
  | function (registration : Nat)
  deriving DecidableEq

/-- How often scripts have been used. -/
abbrev Tally := List (Slot × Nat)

namespace Tally

/-- How often a script has been used. -/
def count (slot : Slot) (t : Tally) : Nat := (t.lookup slot).getD 0

/-- A script has been used once more. -/
def bump (slot : Slot) : Tally → Tally
  | [] => [(slot, 1)]
  | (s, n) :: rest => if s = slot then (s, n + 1) :: rest else (s, n) :: bump slot rest

end Tally

/-- The next result of a script. -/
def Script.perform (script : Script) (slot : Slot) (t : Tally) : Output × Tally :=
  (script.output (t.count slot), t.bump slot)

/-! ### Described functions -/

/-- What a described function does. -/
inductive Behaviour where
  /-- It follows a script, whatever its arguments. -/
  | scripted (script : Script)
  /-- It computes a value, which it gives at once, or promises with some number
  of pending polls. -/
  | computed (body : Body) (yields : Option Nat)

/-- A described function. -/
structure FunctionSpec where
  /-- Its name. -/
  name : String
  /-- What it does. -/
  behaviour : Behaviour

/-- The function of a description; its registration has a number of its own. -/
def FunctionSpec.function (spec : FunctionSpec) (registration : Nat) : Function Tally :=
  fun args t =>
    match spec.behaviour with
    | .scripted script => script.perform (.function registration) t
    | .computed body none => (.ready (body.value args), t)
    | .computed body (some yields) => (.deferred ⟨body.value args, yields⟩, t)

/-- The registry of described functions, in the order of registration. -/
def registryOf (specs : List FunctionSpec) : Registry Tally :=
  specs.zipIdx.foldl (fun r (spec, i) => r.register spec.name (spec.function i)) .empty

/-! ### Scenarios -/

/-- A step of a scenario: a described function is registered, or a command is
given. -/
inductive ScenarioStep where
  /-- Register a described function. -/
  | register (spec : FunctionSpec)
  /-- Any command. -/
  | command (c : Command Tally)

/-- Predicates and functions to try rules out with. -/
structure Scenario where
  /-- The scripts of the predicates. -/
  predicates : List (String × Script) := []
  /-- The functions that are registered at first. -/
  functions : List FunctionSpec := []

namespace Scenario

/-- What calling a predicate does. -/
def predicate (sc : Scenario) : Predicates Tally := fun name t =>
  Script.perform ((sc.predicates.lookup name).getD []) (.predicate name) t

/-- One evaluation from a fresh state. -/
def report (sc : Scenario) (entry : Entry) (expression : Option Node) (f : Followup)
    (budget : Option Nat) : Report Tally :=
  entry.run (registryOf sc.functions) {} sc.predicate expression f budget []

/-- A rule checked from a fresh state. -/
def checkRule (sc : Scenario) (configText ruleText : Option String) :
    Journal × Except Failure RuleCheck :=
  BooleanRules.checkRule configText ruleText (registryOf sc.functions) sc.predicate []

/-- The commands of some steps; `n` functions have been registered before. -/
def commands (n : Nat) : List ScenarioStep → List (Command Tally)
  | [] => []
  | .register spec :: rest => .register spec.name (spec.function n) :: commands (n + 1) rest
  | .command c :: rest => c :: commands n rest

/-- A session that carries out some steps from a fresh state. -/
def run (sc : Scenario) (steps : List ScenarioStep) : List (Journal × Reply) :=
  let session : Session Tally := { registry := registryOf sc.functions, state := [] }
  (session.run sc.predicate (commands sc.functions.length steps)).2

end Scenario

end BooleanRules
