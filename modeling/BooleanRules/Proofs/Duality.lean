import BooleanRules.Proofs.Blocks
import BooleanRules.Proofs.Entry
import BooleanRules.Proofs.Relabel
import BooleanRules.Proofs.RootPromise

/-!
# Duality

Conjunction and disjunction change places when all truth values are negated, and this is
so for all that an evaluation does, not for its result alone.  The dual of a tree has the
negated literals and the other operators at the evaluated positions; dual callables give
the negated truth values.  The evaluation of the dual enters the same positions in the same
order and makes the same calls, it waits as often, it fails where the other one fails, and
otherwise its result is the negated one.

## Main definitions

* `Operator.dual`, `Node.dual` — the other operator, and the dual of a tree.
* `Value.dual`, `Output.dual`, `Callables.dual` — negated truth values, and the callables
  that give them.
* `Event.dual` — an event of the dual evaluation.

## Main results

* `Sync.evaluate_dual`, `Async.evaluate_dual` — the two evaluations of a dual expression.
* `evaluation_of_dual` — **the evaluation of the dual tree with dual callables is the dual
  evaluation.**
-/

namespace BooleanRules

variable {σ : Type}

/-! ### Dual values and callables -/

/-- A truth value is negated, and anything else stays what it is. -/
def Value.dual : Value → Value
  | .bool b => .bool !b
  | v => v

theorem Value.expectBool_dual (kind : CallKind) (v : Value) :
    v.dual.expectBool kind = (v.expectBool kind).map not := by
  cases v <;> rfl

/-- The dual value, ready or promised as before. -/
def Output.dual (o : Output) : Output := o.map Value.dual

/-- A callable that gives the dual results. -/
def dualResults (f : σ → Output × σ) : σ → Output × σ := fun s => ((f s).1.dual, (f s).2)

/-- A function that gives the dual results. -/
def Function.dual (f : Function σ) : Function σ := fun args => dualResults (f args)

/-- The registry of the functions that give the dual results, under the same names. -/
def Registry.dual (r : Registry σ) : Registry σ where
  entries := r.entries.map fun e => (e.1, Function.dual e.2)
  ascending := by
    have h := r.ascending
    rw [Ascending] at h ⊢
    rwa [List.map_map]

/-- The callables that give the dual results. -/
def Callables.dual (env : Callables σ) : Callables σ where
  predicate name := dualResults (env.predicate name)
  functions := env.functions.dual

theorem valueOf?_map {α β : Type} (g : α → β) (key : String) (entries : List (String × α)) :
    valueOf? key (entries.map fun e => (e.1, g e.2)) = (valueOf? key entries).map g := by
  induction entries with
  | nil => rfl
  | cons e rest ih =>
    obtain ⟨k, v⟩ := e
    by_cases hk : k = key <;> simp [valueOf?, hk, ih]

theorem Registry.get?_dual (r : Registry σ) (name : String) :
    r.dual.get? name = (r.get? name).map Function.dual :=
  valueOf?_map Function.dual name r.entries

namespace Callables

variable {env : Callables σ} {name : String}

theorem function_dual_of_ok {f : Function σ} (h : env.function name = .ok f) :
    env.dual.function name = .ok (Function.dual f) := by
  have hget : env.functions.get? name = some f := function_eq_ok_iff.mp h
  rw [function_eq_ok_iff, dual, Registry.get?_dual, hget]
  rfl

theorem function_dual_of_error {error : EvalError} (h : env.function name = .error error) :
    env.dual.function name = .error error := by
  unfold function at h ⊢
  rw [dual, Registry.get?_dual]
  cases hget : env.functions.get? name with
  | none =>
    rw [hget] at h
    exact h
  | some f =>
    rw [hget] at h
    cases h

end Callables

/-! ### Dual trees -/

namespace Operator

/-- The other operator. -/
def dual : Operator → Operator
  | .and => .or
  | .or => .and

theorem decidingValue_dual (op : Operator) : op.dual.decidingValue = !op.decidingValue := by
  cases op <;> rfl

theorem fallthroughValue_dual (op : Operator) :
    op.dual.fallthroughValue = !op.fallthroughValue := by
  cases op <;> rfl

end Operator

namespace Node

mutual

/-- The dual of a tree: the literals at evaluated positions are negated, and a map that has
a list under the key of an operator first gets the other operator over the duals of the
items.  All other nodes, the arguments of functions and the later entries of maps stay what
they are. -/
def dual : Node → Node
  | .bool b => .bool !b
  | .map ((key, .list items) :: rest) =>
    match Operator.ofKey? key with
    | some op => .map ((op.dual.key, .list (duals items)) :: rest)
    | none => .map ((key, .list items) :: rest)
  | n => n

/-- The duals of some trees. -/
def duals : List Node → List Node
  | [] => []
  | n :: ns => n.dual :: duals ns

end

-- the arguments of a function and the entries after the first keep their literals
example : dual (.map [("$and", .list [.bool true, .call "f" (.bool true)]), ("k", .bool true)]) =
    .map [("$or", .list [.bool false, .call "f" (.bool true)]), ("k", .bool true)] := rfl

end Node

namespace Expr

mutual

/-- The dual of an expression: negated literals, and the other operators. -/
def dual : Expr → Expr
  | .literal b => .literal !b
  | .operator op es => .operator op.dual (duals es)
  | e => e

/-- The duals of some expressions. -/
def duals : List Expr → List Expr
  | [] => []
  | e :: es => e.dual :: duals es

end

mutual

/-- What the dual of a tree means is the dual of what the tree means. -/
theorem ofNode_dual : ∀ n : Node, ofNode n.dual = (ofNode n).dual
  | .null | .bool _ | .number _ | .string _ | .list _ | .map [] | .predicate _ => rfl
  | .map ((key, .list items) :: rest) => by
    cases hop : Operator.ofKey? key with
    | some op =>
      have hitems := ofNodes_duals items
      simp [Node.dual, hop, ofNode, KeyRole.ofKey, dual, hitems]
    | none =>
      cases hsigil : hasSigil key <;>
        simp [Node.dual, hop, hsigil, ofNode, KeyRole.ofKey, dual]
  | .map ((key, .null) :: _) | .map ((key, .bool _) :: _) | .map ((key, .number _) :: _)
  | .map ((key, .string _) :: _) | .map ((key, .map _) :: _)
  | .map ((key, .predicate _) :: _) => by
    cases hrole : KeyRole.ofKey key <;> simp [Node.dual, ofNode, hrole, dual]

theorem ofNodes_duals : ∀ ns : List Node, ofNodes (Node.duals ns) = duals (ofNodes ns)
  | [] => rfl
  | n :: ns => by rw [Node.duals, ofNodes, ofNodes, duals, ofNode_dual n, ofNodes_duals ns]

end

end Expr

namespace Callables

variable {env : Callables σ} {e : Expr}

/-- What is called stays as it is and is called with the dual callables. -/
theorem reach_dual_of_call {callee : Callee} {f : σ → Output × σ}
    (h : env.reach e = .call callee f) :
    e.dual = e ∧ env.dual.reach e = .call callee (dualResults f) := by
  rcases eq_of_reach_call h with ⟨name, rfl, rfl, rfl⟩ | ⟨name, vs, g, rfl, hg, rfl, rfl⟩
  · exact ⟨rfl, rfl⟩
  · have hdual := function_dual_of_ok hg
    exact ⟨rfl, by simp only [reach, hdual, Function.dual]⟩

/-- What is at fault stays as it is and at fault. -/
theorem reach_dual_of_fault {error : EvalError} (h : env.reach e = .fault error) :
    e.dual = e ∧ env.dual.reach e = .fault error := by
  rcases eq_of_reach_fault h with rfl | ⟨name, args, rfl, hg⟩ | ⟨name, g, rfl, hg⟩
  · exact ⟨rfl, rfl⟩
  · have hdual := function_dual_of_error hg
    exact ⟨rfl, by simp only [reach, hdual]⟩
  · have hdual := function_dual_of_ok hg
    exact ⟨rfl, by simp only [reach, hdual]⟩

end Callables

/-! ### Dual events -/

/-- The event of the dual evaluation: a call gives the dual result. -/
def Event.dual : Event → Event
  | .called call o => .called call o.dual
  | ev => ev

/-- The promise of the dual value, given by the same call. -/
def Deferred.dual (d : Deferred) : Deferred := ⟨d.call, d.promise.map Value.dual⟩

/-- The outcome of the dual evaluation. -/
def Evaluation.dual : Evaluation → Evaluation
  | .ready b => .ready !b
  | .deferred d => .deferred d.dual

/-- Event by event, what the dual evaluation does. -/
def dualEvent (ev : Event) : Option Event := some ev.dual

namespace Journal

variable (j : Journal)

theorem filterMap_dualEvent : j.filterMap dualEvent = j.map Event.dual :=
  congrFun List.filterMap_eq_map j

/-- What does not depend on the results of calls is the same. -/
theorem filterMap_map_dual {α : Type} {f : Event → Option α} (h : ∀ ev, f ev.dual = f ev) :
    (j.map Event.dual).filterMap f = j.filterMap f := by
  rw [List.filterMap_map]
  exact congrArg (List.filterMap · j) (funext h)

theorem entered_dual : entered (j.map Event.dual) = j.entered :=
  j.filterMap_map_dual fun ev => by cases ev <;> rfl

theorem lines_dual : lines (j.map Event.dual) = j.lines :=
  j.filterMap_map_dual fun ev => by cases ev <;> rfl

/-- The same calls are made with the dual results. -/
theorem made_dual : made (j.map Event.dual) = j.made.map fun m => (m.1, m.2.dual) := by
  induction j with
  | nil => rfl
  | cons ev j ih =>
    cases ev with
    | called call o => exact congrArg (List.cons (call, o.dual)) ih
    | _ => exact ih

end Journal

/-! ### Results of calls -/

namespace Output

theorem settle_dual (call : Call) (o : Output) (c : VisitCounter) :
    o.dual.settle call c = (o.settle call c).map Evaluation.dual := by
  cases o with
  | ready v =>
    have hv := v.expectBool_dual call.kind
    simp only [dual, map, settle, hv]
    cases v.expectBool call.kind <;> rfl
  | deferred p =>
    simp only [dual, map, settle]
    cases c.isRootVisit <;> rfl

end Output

/-- The value of a dual result is waited for like that of the result itself. -/
theorem Output.await_dual (call : Call) (o : Output) (s : σ) :
    o.dual.await call s = (o.await call s).relabel dualEvent not := by
  have hstarted : dualEvent (.started call) = some (.started call) := rfl
  have hfinished : dualEvent (.finished call) = some (.finished call) := rfl
  exact await_relabel hstarted hfinished (Value.expectBool_dual call.kind) o s

/-! ### The evaluations -/

/-- The dual of an outcome that is of no use to an operator is of no use either, for the
same reason. -/
theorem Evaluation.operandValue_dual_of_error {r : Except EvalError Evaluation}
    {error : EvalError} (h : r.bind operandValue = .error error) :
    (r.map dual).bind operandValue = .error error := by
  match r with
  | .error e => exact h
  | .ok (.deferred d) => exact h
  | .ok (.ready b) => cases h

namespace Sync

variable (env : Callables σ)

/-- **The walk over the dual of an expression is the dual walk.** -/
theorem evaluate_dual :
    (∀ e p c s, evaluate env.dual p e.dual c s =
        (evaluate env p e c s).relabel dualEvent Evaluation.dual) ∧
      ∀ es op p i c s, evaluateOperands env.dual op.dual p i (Expr.duals es) c s =
        (evaluateOperands env op p i es c s).relabel dualEvent not := by
  refine env.induct ?_ ?_ ?_ ?_ ?_ ?_
  · intro b p c s
    rfl
  · intro e callee f hreach p c s
    obtain ⟨hself, hdual⟩ := Callables.reach_dual_of_call hreach
    rw [hself, evaluate_of_call hreach, evaluate_of_call hdual]
    simp only [dualResults, Output.settle_dual, Walked.relabel]
    rfl
  · intro e error hreach p c s
    obtain ⟨hself, hdual⟩ := Callables.reach_dual_of_fault hreach
    rw [hself, evaluate_of_fault hreach, evaluate_of_fault hdual]
    rfl
  · intro op es ih p c s
    rw [Expr.dual, evaluate_operator, evaluate_operator, ih op p 0 c.visit s]
    simp only [Walked.relabel]
    cases (evaluateOperands env op p 0 es c.visit s).result <;> rfl
  · intro op p i c s
    simp only [Expr.duals, evaluateOperands, op.fallthroughValue_dual]
    rfl
  · intro e es ihe ihes op p i c s
    have hfirst := ihe (p ++ [i]) c s
    -- the first operand decides both or neither, and fails in both or neither
    rcases op.cases_of_outcome (evaluate env (p ++ [i]) e c s).result with ⟨error, h⟩ | h | h
    · have hdual : (evaluate env.dual (p ++ [i]) e.dual c s).result.bind
          Evaluation.operandValue = .error error := by
        rw [hfirst]
        exact Evaluation.operandValue_dual_of_error h
      rw [Expr.duals, evaluateOperands_cons_of_error es h,
        evaluateOperands_cons_of_error (Expr.duals es) hdual, hfirst]
      rfl
    · have hdual : (evaluate env.dual (p ++ [i]) e.dual c s).result =
          .ok (.ready op.dual.decidingValue) := by
        rw [hfirst, Walked.relabel, h, op.decidingValue_dual]
        rfl
      rw [Expr.duals, evaluateOperands_cons_of_decided es h,
        evaluateOperands_cons_of_decided (Expr.duals es) hdual, hfirst, op.decidingValue_dual]
      rfl
    · have hdual : (evaluate env.dual (p ++ [i]) e.dual c s).result =
          .ok (.ready op.dual.fallthroughValue) := by
        rw [hfirst, Walked.relabel, h, op.fallthroughValue_dual]
        rfl
      rw [Expr.duals, evaluateOperands_cons_of_undecided es h,
        evaluateOperands_cons_of_undecided (Expr.duals es) hdual, hfirst]
      simp only [Walked.relabel, ihes, List.filterMap_append]

end Sync

namespace Async

variable (env : Callables σ)

/-- **Waiting for the dual of an expression is the dual of waiting for it.** -/
theorem evaluate_dual :
    (∀ e p s, evaluate env.dual p e.dual s = (evaluate env p e s).relabel dualEvent not) ∧
      ∀ es op p i s, evaluateOperands env.dual op.dual p i (Expr.duals es) s =
        (evaluateOperands env op p i es s).relabel dualEvent not := by
  refine env.induct ?_ ?_ ?_ ?_ ?_ ?_
  · intro b p s
    rfl
  · intro e callee f hreach p s
    obtain ⟨hself, hdual⟩ := Callables.reach_dual_of_call hreach
    rw [hself, evaluate_of_call hreach, evaluate_of_call hdual, Step.relabel_after]
    simp only [dualResults, Output.await_dual]
    rfl
  · intro e error hreach p s
    obtain ⟨hself, hdual⟩ := Callables.reach_dual_of_fault hreach
    rw [hself, evaluate_of_fault hreach, evaluate_of_fault hdual]
    rfl
  · intro op es ih p s
    rw [Expr.dual, evaluate_operator, evaluate_operator, ih op p 0 s, Step.relabel_after]
    rfl
  · intro op p i s
    simp only [Expr.duals, evaluateOperands, op.fallthroughValue_dual]
    rfl
  · intro e es ihe ihes op p i s
    rw [Expr.duals, evaluateOperands_cons, evaluateOperands_cons, ihe (p ++ [i]) s]
    refine Step.relabel_next ?_ _
    intro b s'
    have hdecides : (!b) = op.dual.decidingValue ↔ b = op.decidingValue := by
      rw [op.decidingValue_dual, Bool.not_inj_iff]
    by_cases hb : b = op.decidingValue
    · rw [if_pos hb, if_pos (hdecides.mpr hb)]
      rfl
    · rw [if_neg hb, if_neg (mt hdecides.mp hb)]
      exact ihes op p (i + 1) s'

end Async

/-! ### The main theorem -/

/-- The journal `k` is the dual of the journal `j`: the same nodes are entered and the same
calls are made in the same order, and the calls give the dual results. -/
structure Journal.Dual (j k : Journal) : Prop where
  /-- The same positions are entered. -/
  entered_eq : k.entered = j.entered
  /-- The same calls are made with the same arguments, and give the dual results. -/
  made_eq : k.made = j.made.map fun m => (m.1, m.2.dual)
  /-- The log is the same. -/
  lines_eq : k.lines = j.lines

/-- The run `d'` within a budget is the dual of the run `d`. -/
structure DualRuns (d d' : Driven σ Bool) : Prop where
  /-- As many polls are made. -/
  polls_eq : d'.polls = d.polls
  /-- The same happens, with the dual results. -/
  journal : d.journal.Dual d'.journal
  /-- The state is the same. -/
  state_eq : d'.state = d.state
  /-- The one fails if the other does, with the same error. -/
  failed : ∀ error, d'.result = some (.error error) ↔ d.result = some (.error error)
  /-- The one answers if the other does, with the negated answer. -/
  answered : ∀ b, d'.result = some (.ok b) ↔ d.result = some (.ok !b)

/-- The walk `w'` is the dual of the walk `w`. -/
structure DualWalks (w w' : Walked σ Evaluation) : Prop where
  /-- The same happens, with the dual results. -/
  journal : w.journal.Dual w'.journal
  /-- The state is the same. -/
  state_eq : w'.state = w.state
  /-- The one fails if the other does, with the same error. -/
  failed : ∀ error, w'.result = .error error ↔ w.result = .error error
  /-- The one answers if the other does, with the negated answer. -/
  ready : ∀ b, w'.result = .ok (.ready b) ↔ w.result = .ok (.ready !b)
  /-- A promise at the root of the one is one at the root of the other, and waiting for it
  comes to the negated answer or to the same error. -/
  deferred : ∀ d, w.result = .ok (.deferred d) → w'.result = .ok (.deferred d.dual) ∧
    ∀ budget (s : σ), DualRuns (d.resolve.run budget s) (d.dual.resolve.run budget s)

theorem Journal.dual_filterMap (j : Journal) : j.Dual (j.filterMap dualEvent) := by
  rw [filterMap_dualEvent]
  exact ⟨j.entered_dual, j.made_dual, j.lines_dual⟩

theorem DualRuns.of_relabel (d : Driven σ Bool) : DualRuns d (d.relabel dualEvent not) where
  polls_eq := rfl
  journal := d.journal.dual_filterMap
  state_eq := rfl
  failed error := by
    rcases hresult : d.result with _ | _ | b <;> simp [Driven.relabel, Except.map, hresult]
  answered b := by
    rcases hresult : d.result with _ | _ | b' <;>
      simp [Driven.relabel, Except.map, hresult, Bool.not_eq_eq_eq_not]

theorem DualWalks.of_relabel (w : Walked σ Evaluation) :
    DualWalks w (w.relabel dualEvent Evaluation.dual) where
  journal := w.journal.dual_filterMap
  state_eq := rfl
  failed error := by
    rcases hresult : w.result with _ | b | d <;> simp [Walked.relabel, Except.map, hresult]
  ready b := by
    rcases hresult : w.result with _ | b' | d <;>
      simp [Walked.relabel, Except.map, Evaluation.dual, hresult, Bool.not_eq_eq_eq_not]
  deferred d hd := by
    refine ⟨by rw [Walked.relabel, hd]; rfl, fun budget s => ?_⟩
    have hawait := Output.await_dual d.call (.deferred d.promise) s
    have hrun : d.dual.resolve.run budget s = (d.resolve.run budget s).relabel dualEvent not :=
      Pollable.run_relabel hawait budget
    rw [hrun]
    exact .of_relabel _

/-- **The evaluation of the dual is the dual evaluation.**  Where an expression is demanded,
the dual of a tree is evaluated by dual callables as the tree is by the callables: the same
nodes are entered, the same calls are made and waited for, and the result is the negated
one or the same error. -/
theorem evaluation_of_dual (env : Callables σ) (expression : Option Node) (s : σ) :
    DualWalks ((evaluateSync .error env expression).run s)
        ((evaluateSync .error env.dual (expression.map Node.dual)).run s) ∧
      ∀ budget, DualRuns ((evaluateAsync .error env expression).run budget s)
        ((evaluateAsync .error env.dual (expression.map Node.dual)).run budget s) := by
  cases expression with
  | none =>
    -- there is nothing to evaluate, and both fail for it
    have hwalk := DualWalks.of_relabel ((evaluateSync .error env none).run s)
    have hrun := fun budget => DualRuns.of_relabel ((evaluateAsync .error env none).run budget s)
    refine ⟨hwalk, fun budget => ?_⟩
    have hsame : (evaluateAsync .error env.dual none).run budget s =
        ((evaluateAsync .error env none).run budget s).relabel dualEvent not :=
      Pollable.run_relabel rfl budget
    rw [Option.map_none, hsame]
    exact hrun budget
  | some root =>
    have hroot : MissingRoot.error.root (some root) = .ok (some root) := rfl
    have hdual : MissingRoot.error.root (some root.dual) = .ok (some root.dual) := rfl
    have hsync := (Sync.evaluate_dual env).1 (.ofNode root) [] {} s
    have hasync := (Async.evaluate_dual env).1 (.ofNode root) [] s
    rw [← Expr.ofNode_dual] at hsync hasync
    rw [Option.map_some, Walk.run, Walk.run, evaluateSync_of_root hroot,
      evaluateSync_of_root hdual, hsync]
    refine ⟨.of_relabel _, fun budget => ?_⟩
    have hsame : (evaluateAsync .error env.dual (some root.dual)).run budget s =
        ((evaluateAsync .error env (some root)).run budget s).relabel dualEvent not := by
      refine Pollable.run_relabel ?_ budget
      rw [evaluateAsync_of_root hroot, evaluateAsync_of_root hdual, hasync]
    rw [hsame]
    exact .of_relabel _

end BooleanRules
