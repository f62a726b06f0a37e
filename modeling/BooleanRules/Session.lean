import BooleanRules.Evaluation.Report

/-!
# Sessions

A session holds a registry and a configuration that commands change, and the
evaluator that was built last.  Building copies both, so that later commands do
not reach the evaluator; the state of the callables is shared by all.

* `Session`, `Command`, `Reply` — the state, what can be asked, the answers.
* `Session.step`, `Session.run` — one command, and commands in order.
* `registry_evaluate` and the lemmas after it — an evaluation changes nothing
  but the state of the callables.
-/

namespace BooleanRules

variable {σ : Type}

/-- The state of a session. -/
structure Session (σ : Type) where
  /-- The functions registered now. -/
  registry : Registry σ := .empty
  /-- The configuration in force now. -/
  config : Config := {}
  /-- The evaluator built last, at first the default one. -/
  evaluator : Evaluator σ := {}
  /-- The state of the callables. -/
  state : σ

/-- What can be asked of a session. -/
inductive Command (σ : Type) where
  /-- Register a function under a name. -/
  | register (name : String) (f : Function σ)
  /-- Start over with an empty registry. -/
  | clear
  /-- Describe the registry. -/
  | describe
  /-- Look a name up. -/
  | lookUp (name : String)
  /-- Call a function directly. -/
  | call (name : String) (args : List Value)
  /-- Take the configuration from a text. -/
  | configure (text : String)
  /-- Build an evaluator from what is there now. -/
  | build
  /-- Evaluate an optional expression. -/
  | evaluate (entry : Entry) (expression : Option Node) (f : Followup) (budget : Option Nat)

/-- What a direct call gives. -/
inductive DirectCall where
  /-- No function has the name. -/
  | missing
  /-- A value at once. -/
  | ready (value : Value)
  /-- A promise, which was polled until it gave its value. -/
  | deferred (polls : Nat) (value : Option Value)

/-- What a session answers. -/
inductive Reply where
  /-- The size of the registry. -/
  | size (n : Nat)
  /-- The registry: its size, whether it is empty, its names, and its form for
  people. -/
  | registry (size : Nat) (isEmpty : Bool) (names : List String) (text : String)
  /-- Whether the name is there, and whether its function is. -/
  | found (contains get : Bool)
  /-- The result of a direct call. -/
  | called (result : DirectCall)
  /-- The configuration set, or why it stays as it was. -/
  | configured (result : Except ConfigFault Config)
  /-- The configuration and the names of the evaluator built. -/
  | built (config : Config) (names : List String)
  /-- The answer of an evaluation. -/
  | evaluated (answer : Answer)

/-- Call a function directly, and poll its promise until it gives its value. -/
def Registry.callDirectly (r : Registry σ) (name : String) (args : List Value) (s : σ) :
    Journal × σ × DirectCall :=
  match r.get? name with
  | none => ([], s, .missing)
  | some f =>
    let call : Call := ⟨[], .function name args⟩
    let (output, s) := f args s
    match output with
    | .ready v => ([.called call output], s, .ready v)
    | .deferred p =>
      let d := (Pollable.await call p).finish s
      (.called call output :: d.journal, d.state, .deferred d.polls d.result.toOption)

namespace Session

/-- Carry out a command. -/
def step (predicate : Predicates σ) (session : Session σ) :
    Command σ → Session σ × Journal × Reply
  | .register name f =>
    let registry := session.registry.register name f
    ({ session with registry }, [], .size registry.size)
  | .clear => ({ session with registry := .empty }, [], .size 0)
  | .describe =>
    let r := session.registry
    (session, [], .registry r.size r.isEmpty r.names r.inspect)
  | .lookUp name =>
    let r := session.registry
    (session, [], .found (r.contains name) (r.get? name).isSome)
  | .call name args =>
    let (journal, state, result) := session.registry.callDirectly name args session.state
    ({ session with state }, journal, .called result)
  | .configure text =>
    match Config.read text with
    | .ok config => ({ session with config }, [], .configured (.ok config))
    | .error f => (session, [], .configured (.error f))
  | .build =>
    let evaluator : Evaluator σ := ⟨session.config, session.registry⟩
    -- the copies stay what they are, whatever is registered or configured later
    ({ session with evaluator }, [], .built session.config session.registry.names)
  | .evaluate entry expression f budget =>
    let report := entry.run session.registry session.evaluator predicate expression f budget
      session.state
    ({ session with state := report.state }, report.journal, .evaluated report.answer)

/-- Carry out commands in order. -/
def run (predicate : Predicates σ) :
    Session σ → List (Command σ) → Session σ × List (Journal × Reply)
  | session, [] => (session, [])
  | session, c :: cs =>
    let (session, journal, reply) := session.step predicate c
    let (session, replies) := run predicate session cs
    (session, (journal, reply) :: replies)

variable (predicate : Predicates σ) (session : Session σ) (entry : Entry)
  (expression : Option Node) (f : Followup) (budget : Option Nat)

@[simp] theorem registry_evaluate :
    (session.step predicate (.evaluate entry expression f budget)).1.registry =
      session.registry := rfl

@[simp] theorem config_evaluate :
    (session.step predicate (.evaluate entry expression f budget)).1.config =
      session.config := rfl

@[simp] theorem evaluator_evaluate :
    (session.step predicate (.evaluate entry expression f budget)).1.evaluator =
      session.evaluator := rfl

end Session

end BooleanRules
