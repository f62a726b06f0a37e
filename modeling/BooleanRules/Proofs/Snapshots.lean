import BooleanRules.Session

/-!
# Evaluators as snapshots

A session goes on after an evaluator has been built: functions are registered, replaced and
forgotten, configurations are read, rules are evaluated.  Nothing of that reaches the evaluator.  It
keeps the policy and the functions that were in force when it was built, and an evaluation through
it is an evaluation under that policy with those functions.  What it shares with the rest of the
session is the state of the callables, which is the one thing that evaluations change.

## Main definitions

* `Command.beforeLastBuild?` — the part of a history that led to the evaluator.
* `Setup`, `Setup.after` — a session without the state of its callables, and what a command makes
  of it.

## Main results

* `Session.setup_run` — the setup of a session depends on its commands alone.
* `Setup.evaluator_foldl` — the evaluator is what was in force at the last build.
* `evaluators_are_snapshots` — **an evaluator is a snapshot**, and evaluations change no setup.
-/

namespace BooleanRules

variable {σ : Type}

/-! ### Histories -/

namespace Command

/-- The command builds an evaluator. -/
def isBuild : Command σ → Bool
  | .build => true
  | _ => false

/-- The command evaluates an expression. -/
def isEvaluation : Command σ → Bool
  | .evaluate .. => true
  | _ => false

/-- The commands before the last one that builds an evaluator, if there is one. -/
def beforeLastBuild? : List (Command σ) → Option (List (Command σ))
  | [] => none
  | c :: cs =>
    match beforeLastBuild? cs with
    | some before => some (c :: before)
    | none => if c.isBuild then some [] else none

theorem eq_build_of_isBuild {c : Command σ} (h : c.isBuild = true) : c = .build := by
  cases c with
  | build => rfl
  | _ => cases h

theorem beforeLastBuild?_eq_none_iff {cs : List (Command σ)} :
    beforeLastBuild? cs = none ↔ ∀ c ∈ cs, c.isBuild = false := by
  induction cs with
  | nil => simp [beforeLastBuild?]
  | cons c cs ih =>
    rw [List.forall_mem_cons, ← ih, beforeLastBuild?]
    cases beforeLastBuild? cs with
    | some before => simp
    | none => cases c.isBuild <;> simp

/-- What stands before the last build stands before a build after which there is none. -/
theorem beforeLastBuild?_eq_some_iff {cs before : List (Command σ)} :
    beforeLastBuild? cs = some before ↔
      ∃ later, cs = before ++ .build :: later ∧ ∀ c ∈ later, c.isBuild = false := by
  constructor
  · intro h
    induction cs generalizing before with
    | nil => cases h
    | cons c cs ih =>
      rw [beforeLastBuild?] at h
      split at h
      · rename_i before' hbefore
        obtain ⟨later, rfl, hlater⟩ := ih hbefore
        cases h
        exact ⟨later, rfl, hlater⟩
      · rename_i hnone
        split at h
        · rename_i hbuild
          cases h
          exact ⟨cs, by rw [eq_build_of_isBuild hbuild]; rfl,
            beforeLastBuild?_eq_none_iff.mp hnone⟩
        · cases h
  · rintro ⟨later, rfl, hlater⟩
    induction before with
    | nil =>
      rw [List.nil_append, beforeLastBuild?, beforeLastBuild?_eq_none_iff.mpr hlater]
      rfl
    | cons c before ih => rw [List.cons_append, beforeLastBuild?, ih]

end Command

/-! ### Setups -/

/-- A session without the state of its callables. -/
structure Setup (σ : Type) where
  /-- The functions registered now. -/
  registry : Registry σ
  /-- The configuration in force now. -/
  config : Config
  /-- The evaluator built last. -/
  evaluator : Evaluator σ

/-- What a command makes of a setup.  Nothing that runs a callable has a part in it. -/
def Setup.after (setup : Setup σ) : Command σ → Setup σ
  | .register name f => { setup with registry := setup.registry.register name f }
  | .clear => { setup with registry := .empty }
  | .configure text => { setup with config := (Config.read text).toOption.getD setup.config }
  | .build => { setup with evaluator := ⟨setup.config, setup.registry⟩ }
  | .describe | .lookUp _ | .call _ _ | .evaluate .. => setup

namespace Session

/-- The setup of a session. -/
def setup (session : Session σ) : Setup σ := ⟨session.registry, session.config, session.evaluator⟩

/-- What a session does when a report has come in: nothing but the state changes. -/
def reported (session : Session σ) (report : Report σ) : Session σ × Journal × Reply :=
  ({ session with state := report.state }, report.journal, .evaluated report.answer)

variable (predicate : Predicates σ) (session : Session σ)

theorem step_sync_built (expression : Option Node) (f : Followup) (budget : Option Nat) :
    session.step predicate (.evaluate (.sync .built) expression f budget) =
      session.reported (((evaluateSync session.evaluator.config.missingRoot
        ⟨predicate, session.evaluator.functions⟩ expression).run session.state).report f budget) :=
  rfl

theorem step_async_built (expression : Option Node) (f : Followup) (budget : Option Nat) :
    session.step predicate (.evaluate (.async .built) expression f budget) =
      session.reported ((evaluateAsync session.evaluator.config.missingRoot
        ⟨predicate, session.evaluator.functions⟩ expression).run budget session.state).report :=
  rfl

theorem setup_step (c : Command σ) :
    (session.step predicate c).1.setup = session.setup.after c := by
  cases c with
  | configure text =>
    rw [step, Setup.after]
    cases Config.read text <;> rfl
  | _ => rfl

/-- The setup depends on the commands alone, not on what the callables do. -/
theorem setup_run (cs : List (Command σ)) :
    (session.run predicate cs).1.setup = cs.foldl Setup.after session.setup := by
  induction cs generalizing session with
  | nil => rfl
  | cons c cs ih =>
    have hrun : (session.run predicate (c :: cs)).1 =
        ((session.step predicate c).1.run predicate cs).1 := rfl
    rw [hrun, ih, setup_step, List.foldl_cons]

end Session

namespace Setup

open Command

/-- A command that does not build leaves the evaluator. -/
theorem evaluator_after (setup : Setup σ) {c : Command σ} (h : c.isBuild = false) :
    (setup.after c).evaluator = setup.evaluator := by
  cases c with
  | build => cases h
  | _ => rfl

/-- **The evaluator is what was in force at the last build.** -/
theorem evaluator_foldl (setup : Setup σ) (cs : List (Command σ)) :
    (cs.foldl after setup).evaluator =
      (beforeLastBuild? cs).elim setup.evaluator fun before =>
        ⟨(before.foldl after setup).config, (before.foldl after setup).registry⟩ := by
  induction cs generalizing setup with
  | nil => rfl
  | cons c cs ih =>
    rw [List.foldl_cons, ih, beforeLastBuild?]
    cases beforeLastBuild? cs with
    | some before => rfl
    | none =>
      cases hbuild : c.isBuild with
      | true =>
        rw [eq_build_of_isBuild hbuild]
        rfl
      | false => exact setup.evaluator_after hbuild

/-- Evaluations leave no trace in a setup. -/
theorem foldl_filter (setup : Setup σ) (cs : List (Command σ)) :
    (cs.filter fun c => !c.isEvaluation).foldl after setup = cs.foldl after setup := by
  induction cs generalizing setup with
  | nil => rfl
  | cons c cs ih =>
    cases c with
    | evaluate => exact ih setup
    | _ => exact ih _

end Setup

/-! ### The main theorem -/

/-- **An evaluator is a snapshot.**  After any history, an evaluation through the evaluator is the
evaluation under the policy and with the functions that were in force at the last build, from the
state that the callables are in now: the journal, the answer with the number of polls, and the
states afterwards are the same.  Without a build the policy is the default one and there are no
functions.  And no evaluation, however it is entered and however it ends, changes the registry, the
configuration or the evaluator, so they are the same as if nothing had ever been evaluated. -/
theorem evaluators_are_snapshots (predicate : Predicates σ) (registry : Registry σ)
    (config : Config) (s : σ) (history : List (Command σ)) :
    let after (cs : List (Command σ)) : Session σ :=
      (Session.run predicate { registry, config, state := s } cs).1
    let now := after history
    let atBuild : Evaluator σ := (Command.beforeLastBuild? history).elim
      ⟨{ missingRoot := .defaultFalse }, .empty⟩
      fun before => ⟨(after before).config, (after before).registry⟩
    let policy := atBuild.config.missingRoot
    let env : Callables σ := ⟨predicate, atBuild.functions⟩
    (∀ expression f budget,
      now.step predicate (.evaluate (.sync .built) expression f budget) =
        now.reported (((evaluateSync policy env expression).run now.state).report f budget)) ∧
      (∀ expression f budget,
        now.step predicate (.evaluate (.async .built) expression f budget) =
          now.reported ((evaluateAsync policy env expression).run budget now.state).report) ∧
      (∀ entry expression f budget,
        (now.step predicate (.evaluate entry expression f budget)).1.setup = now.setup) ∧
      (after (history.filter fun c => !c.isEvaluation)).setup = now.setup := by
  intro after now atBuild policy env
  have hsetup : ∀ cs, (after cs).setup = cs.foldl Setup.after ⟨registry, config, {}⟩ :=
    Session.setup_run predicate _
  have hevaluator : now.evaluator = atBuild := by
    have hfold := Setup.evaluator_foldl ⟨registry, config, {}⟩ history
    -- back from the folds to the sessions whose setups they are
    simp only [← hsetup] at hfold
    exact hfold
  refine ⟨fun expression f budget => ?_, fun expression f budget => ?_,
    fun entry expression f budget => Session.setup_step predicate now _, ?_⟩
  · rw [Session.step_sync_built, hevaluator]
  · rw [Session.step_async_built, hevaluator]
  · rw [hsetup, hsetup, Setup.foldl_filter]

-- a name that is registered again after the build means two things, and both calls are counted
example :
    let deny : Function Nat := fun _ calls => (.ready (.bool false), calls + 1)
    let affirm : Function Nat := fun _ calls => (.ready (.bool true), calls + 1)
    let ask (ground : Ground) : Command Nat :=
      .evaluate (.sync ground) (some (.call "flag" .null)) .drop none
    let run := Session.run (fun _ calls => (.ready .null, calls)) { state := 0 }
      [.register "flag" deny, .build, .register "flag" affirm, ask .built, ask (.free .error)]
    run.1.state = 2 ∧ run.2.map Prod.snd =
      [.size 1, .built {} ["flag"], .size 1, .evaluated (.sync (.ok (.ready false, .dropped))),
        .evaluated (.sync (.ok (.ready true, .dropped)))] := ⟨rfl, rfl⟩

end BooleanRules
