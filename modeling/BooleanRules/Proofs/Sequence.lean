import BooleanRules.Evaluation.Report
import BooleanRules.Proofs.Blocks
import BooleanRules.Proofs.Grammar
import BooleanRules.Proofs.Places
import BooleanRules.Proofs.RootPromise

/-!
# Calls come one after the other, in document order

An evaluation makes its calls from left to right through the document, each at the
leaf that stands at an evaluated position, and none twice.  With waiting, a call that
gave a promise is followed by the start and the end of waiting for it before anything
else is called; only a budget that is used up cuts the last of these blocks.  Without
waiting there are calls and nothing else, and what waiting for the outcome adds
afterwards belongs to the call of the root.

What is not at an evaluated position is never called: neither a predicate among the
arguments of a function, nor one below an entry after the first, nor one below an
operator that has something else than a list.

## Main definitions

* `Output.log` — the lines that the block of a call leaves in the log.
* `Deferred.waits` — what polling a promise leaves in the journal.
* `CallsInDocumentOrder` — who makes the calls of a journal, and in which order.
* `SyncSequence`, `AsyncSequence` — what the two evaluations call.

## Main results

* `calls_sequential` — **the calls of an evaluation are made one after the other, in
  document order and at most once.**
-/

namespace BooleanRules

variable {σ : Type}

/-! ### The log of whole blocks -/

/-- The lines that the block of a call leaves in the log. -/
def Output.log (call : Call) : Output → List String
  | .ready _ => ["call " ++ call.callee.text]
  | .deferred _ =>
    ["call " ++ call.callee.text, "start " ++ call.callee.name, "end " ++ call.callee.name]

namespace Journal

variable {j k : Journal}

theorem lines_block (call : Call) (o : Output) : lines (o.block call) = o.log call := by
  cases o <;> rfl

theorem lines_blocks (calls : List (Call × Output)) :
    lines (blocks calls) = calls.flatMap fun m => m.2.log m.1 := by
  induction calls with
  | nil => rfl
  | cons m calls ih =>
    have hcons : blocks (m :: calls) = m.2.block m.1 ++ blocks calls := rfl
    rw [hcons, lines_append, lines_block, ih, List.flatMap_cons]

/-- The log of whole blocks is the lines of the blocks. -/
theorem InBlocks.lines_eq (h : j.InBlocks) :
    lines j = j.made.flatMap fun m => m.2.log m.1 := by
  rw [← lines_acts, h, lines_blocks]

/-! ### Document order -/

/-- The calls go through the document from left to right. -/
def Increasing (j : Journal) : Prop :=
  j.made.Pairwise fun m m' => m.1.position < m'.1.position

theorem increasing_of_made_nil (h : j.made = []) : j.Increasing := by
  rw [Increasing, h]
  exact List.Pairwise.nil

theorem Increasing.of_isPrefix (hk : k.Increasing) (h : j <+: k) : j.Increasing :=
  hk.sublist (h.filterMap Event.made?).sublist

/-- The calls of an operand, and then those of the operands after it. -/
theorem Increasing.append {p : Position} {i : Nat} (hj : j.Increasing) (hk : k.Increasing)
    (hjp : Under (p ++ [i]) j) (hkp : UnderFrom p (i + 1) k) : (j ++ k).Increasing := by
  rw [Increasing, made_append, List.pairwise_append]
  refine ⟨hj, hk, ?_⟩
  rintro ⟨call, o⟩ hm ⟨call', o'⟩ hm'
  have hpos : p ++ [i] <+: call.position := hjp _ (mem_made.mp hm)
  obtain ⟨n, hn, hpos'⟩ := hkp _ (mem_made.mp hm')
  exact Position.lt_of_operands hpos hpos' hn

/-- Nothing is started and nothing ends: there are calls only. -/
def CallsOnly (j : Journal) : Prop := j.acts = j.made.map fun m => .called m.1 m.2

theorem CallsOnly.append (hj : j.CallsOnly) (hk : k.CallsOnly) : (j ++ k).CallsOnly := by
  unfold CallsOnly at hj hk ⊢
  rw [acts_append, hj, hk, made_append, List.map_append]

theorem CallsOnly.lines_eq (h : j.CallsOnly) :
    lines j = j.made.map fun m => "call " ++ m.1.callee.text := by
  rw [← lines_acts, h]
  induction j.made with
  | nil => rfl
  | cons m calls ih => exact congrArg _ ih

end Journal

namespace Async

/-- **The calls of an evaluation polled to its end are in document order.** -/
theorem increasing (env : Callables σ) :
    (∀ e p s, ((evaluate env p e).finish s).journal.Increasing) ∧
      ∀ es op p i s, ((evaluateOperands env op p i es).finish s).journal.Increasing := by
  open Journal in
  have hboth := journal_induct env (P := fun p j => Under p j ∧ Increasing j)
    (Q := fun p i j => UnderFrom p i j ∧ Increasing j) ?_ ?_ ?_ ?_ ?_ ?_
  · exact ⟨fun e p s => (hboth.1 e p s).2, fun es op p i s => (hboth.2 es op p i s).2⟩
  · intro p
    refine ⟨?_, increasing_of_made_nil rfl⟩
    intro ev hev
    obtain rfl := List.mem_singleton.mp hev
    exact List.prefix_rfl
  · intro call o
    refine ⟨under_cons_visited ?_, ?_⟩
    · intro ev hev
      rcases List.mem_cons.mp hev with rfl | hev
      · exact List.prefix_rfl
      · exact under_waits call o ev hev
    · have hmade : made (.visited call.position :: o.block call) = [(call, o)] :=
        made_block call o
      rw [Increasing]
      exact hmade ▸ List.pairwise_singleton _ _
  · intro p j h
    exact ⟨under_cons_visited h.1.under, h.2⟩
  · intro p i
    exact ⟨underFrom_nil p i, increasing_of_made_nil rfl⟩
  · intro p i j h
    exact ⟨h.1.underFrom, h.2⟩
  · intro p i j k hj hk
    exact ⟨hj.1.append hk.1, hj.2.append hk.2 hj.1 hk.1⟩

end Async

namespace Sync

open Journal

/-- **A walk makes calls and nothing else.** -/
theorem callsOnly (env : Callables σ) :
    (∀ e p c s, (evaluate env p e c s).journal.CallsOnly) ∧
      ∀ es op p i c s, (evaluateOperands env op p i es c s).journal.CallsOnly := by
  refine env.induct ?_ ?_ ?_ ?_ ?_ ?_
  · intro b p c s
    rfl
  · intro e callee f hreach p c s
    rw [evaluate_of_call hreach]
    rfl
  · intro e error hreach p c s
    rw [evaluate_of_fault hreach]
    rfl
  · intro op es ih p c s
    have hentered : CallsOnly [.visited p] := rfl
    rw [evaluate_operator]
    exact hentered.append (ih op p 0 c.visit s)
  · intro op p i c s
    rfl
  · intro e es ihe ihes op p i c s
    have hfirst := ihe (p ++ [i]) c s
    rcases op.cases_of_outcome (evaluate env (p ++ [i]) e c s).result with ⟨error, h⟩ | h | h
    · rw [evaluateOperands_cons_of_error es h]
      exact hfirst
    · rw [evaluateOperands_cons_of_decided es h]
      exact hfirst
    · rw [evaluateOperands_cons_of_undecided es h]
      exact hfirst.append (ihes op p (i + 1) _ _)

end Sync

/-! ### Waiting for the outcome of a walk -/

namespace Pollable

variable {α : Type}

/-- Whatever is polled at all is polled once. -/
theorem one_le_polls_run (t : Pollable σ α) {budget : Option Nat} (h : budget ≠ some 0) (s : σ) :
    1 ≤ (t.run budget s).polls := by
  match budget with
  | none => exact Step.one_le_polls_finish (t s)
  | some 0 => exact absurd rfl h
  | some (more + 1) =>
    change 1 ≤ ((t s).drive more).polls
    cases t s with
    | done j s' r => exact Nat.le_refl 1
    | pending j s' resume =>
      cases more with
      | zero => exact Nat.le_refl 1
      | succ more => exact Nat.le_add_left 1 _

/-- A run in order leaves whole blocks if it is done, and is suspended otherwise. -/
theorem inOrder_run {t : Pollable σ α} {s : σ} {j : Journal} (h : (t s).InOrder j)
    {budget : Option Nat} (hbudget : budget ≠ some 0) :
    ((t.run budget s).result ≠ none → (j ++ (t.run budget s).journal).InBlocks) ∧
      ((t.run budget s).result = none → (j ++ (t.run budget s).journal).Suspended) := by
  match budget with
  | none => exact ⟨fun _ => h.finish, fun hnone => by cases hnone⟩
  | some 0 => exact absurd rfl hbudget
  | some (more + 1) => exact h.drive more

end Pollable

namespace Aftermath

/-- How often an outcome was polled. -/
def polls : Aftermath → Nat
  | .resolved n _ => n
  | .raw n _ => n
  | .inspected _ => 0
  | .dropped => 0

/-- The outcome was waited for to the end. -/
def isComplete : Aftermath → Bool
  | .resolved _ result => result.isSome
  | .raw _ value => value.isSome
  | .inspected _ => false
  | .dropped => false

/-- What waiting for the promise of a call leaves: nothing before the first poll, then
its start, and its end once it is complete. -/
def waits (call : Call) (a : Aftermath) : Journal :=
  if a.polls = 0 then []
  else if a.isComplete then [.started call, .finished call]
  else [.started call]

end Aftermath

namespace Deferred

/-- What waiting for the promise leaves once it has been polled: its start, and its end
if it is complete. -/
def waits (d : Deferred) (complete : Bool) : Journal :=
  if complete then [.started d.call, .finished d.call] else [.started d.call]

section Run

variable {α : Type} {t : Pollable σ α} {d : Deferred} {s : σ}
  (horder : (t s).InOrder [.called d.call (.deferred d.promise)])
  (hfinish : (t.finish s).journal = [.started d.call, .finished d.call])

include horder hfinish

/-- Polling what a promise was made into, as often as a budget allows. -/
theorem journal_run {budget : Option Nat} (hbudget : budget ≠ some 0) :
    (t.run budget s).journal = d.waits (t.run budget s).result.isSome := by
  cases hresult : (t.run budget s).result with
  | some r =>
    rw [Pollable.run_eq_of_result hresult]
    exact hfinish
  | none =>
    obtain ⟨earlier, call, promise, hj, -⟩ := (Pollable.inOrder_run horder hbudget).2 hresult
    cases earlier with
    | nil =>
      simp only [List.cons_append, List.nil_append, List.cons.injEq, Event.called.injEq] at hj
      obtain ⟨⟨hcall, -⟩, hrest⟩ := hj
      rw [hrest, ← hcall]
      rfl
    | cons ev earlier =>
      -- a promise that is waited for makes no call
      have hrest : (t.run budget s).journal =
          earlier ++ [.called call (.deferred promise), .started call] := (List.cons.inj hj).2
      have hprefix := t.journal_run_isPrefix budget s
      have hmem : Event.called call (.deferred promise) ∈ (t.finish s).journal := by
        refine hprefix.subset ?_
        rw [hrest]
        exact List.mem_append_right _ List.mem_cons_self
      rw [hfinish] at hmem
      simp at hmem

/-- A budget without polls leaves nothing. -/
theorem journal_run_of_polls (budget : Option Nat) :
    (t.run budget s).journal =
      if (t.run budget s).polls = 0 then [] else d.waits (t.run budget s).result.isSome := by
  by_cases hbudget : budget = some 0
  · subst hbudget
    rfl
  · have hpolls := t.one_le_polls_run hbudget s
    have hpos : (t.run budget s).polls ≠ 0 := by omega
    rw [if_neg hpos]
    exact journal_run horder hfinish hbudget

end Run

theorem inOrder_resolve (d : Deferred) (s : σ) :
    (d.resolve s).InOrder [.called d.call (.deferred d.promise)] :=
  Async.inOrder_await d.call (.deferred d.promise) Journal.inBlocks_nil s

theorem inOrder_value (d : Deferred) (s : σ) :
    (d.value s).InOrder [.called d.call (.deferred d.promise)] := by
  rw [value, Pollable.await, Step.inOrder_after]
  exact Async.inOrder_waiting d.call d.promise Journal.inBlocks_nil d.promise.yields s

theorem journal_finish_resolve (d : Deferred) (s : σ) :
    (d.resolve.finish s).journal = [.started d.call, .finished d.call] :=
  congrArg Finished.journal (Output.finish_await d.call (.deferred d.promise) s)

theorem finish_value (d : Deferred) (s : σ) :
    d.value.finish s =
      ⟨d.promise.yields + 1, [.started d.call, .finished d.call], s, .ok d.promise.value⟩ :=
  Pollable.finish_await d.call d.promise s

theorem journal_run_resolve (d : Deferred) {budget : Option Nat} (hbudget : budget ≠ some 0)
    (s : σ) : (d.resolve.run budget s).journal = d.waits (d.resolve.run budget s).result.isSome :=
  journal_run (d.inOrder_resolve s) (d.journal_finish_resolve s) hbudget

theorem journal_run_value (d : Deferred) {budget : Option Nat} (hbudget : budget ≠ some 0)
    (s : σ) : (d.value.run budget s).journal = d.waits (d.value.run budget s).result.isSome :=
  journal_run (d.inOrder_value s) (congrArg Finished.journal (d.finish_value s)) hbudget

/-- The value of a promise, once it is there, is never an error. -/
theorem isSome_result_value (d : Deferred) (budget : Option Nat) (s : σ) :
    ((d.value.run budget s).result.bind Except.toOption).isSome =
      (d.value.run budget s).result.isSome := by
  cases hresult : (d.value.run budget s).result with
  | none => rfl
  | some r =>
    have hrun := Pollable.run_eq_of_result hresult
    have hvalue : some r = some (.ok d.promise.value) := by
      rw [← hresult, hrun, finish_value]
      rfl
    cases hvalue
    rfl

end Deferred

namespace Evaluation

theorem journal_run_resolve_ready (b : Bool) (budget : Option Nat) (s : σ) :
    ((ready b).resolve.run budget s).journal = [] := by
  match budget with
  | none | some 0 | some (_ + 1) => rfl

/-- Following a truth value up does nothing. -/
theorem journal_follow_ready (b : Bool) (f : Followup) (budget : Option Nat) (s : σ) :
    ((ready b).follow f budget s).journal = [] := by
  cases f with
  | resolve => exact journal_run_resolve_ready b budget s
  | _ => rfl

/-- **Following a promise up leaves its start and, once it is complete, its end.** -/
theorem journal_follow_deferred (d : Deferred) (f : Followup) (budget : Option Nat) (s : σ) :
    ((deferred d).follow f budget s).journal =
      ((deferred d).follow f budget s).aftermath.waits d.call := by
  cases f with
  | resolve =>
    exact Deferred.journal_run_of_polls (d.inOrder_resolve s) (d.journal_finish_resolve s) budget
  | raw =>
    have hrun := Deferred.journal_run_of_polls (d.inOrder_value s)
      (congrArg Finished.journal (d.finish_value s)) budget
    simp only [follow, Aftermath.waits, Aftermath.polls, Aftermath.isComplete,
      d.isSome_result_value]
    exact hrun
  | inspect => rfl
  | drop => rfl

end Evaluation

/-! ### The main theorem -/

/-- The calls of a journal are made by leaves at evaluated positions, and they go
through the document from left to right, so that none is made twice. -/
structure CallsInDocumentOrder (env : Callables σ) (expression : Option Node) (j : Journal) :
    Prop where
  /-- Nothing happens but at evaluated positions. -/
  evaluated : ∀ ev ∈ j, ∃ root n, expression = some root ∧ root.at? ev.position = some n
  /-- A predicate that is called, or a function node, stands at the place of the call. -/
  leaf : ∀ call o, (call, o) ∈ j.made →
    ∃ root n, expression = some root ∧ root.at? call.position = some n ∧ n.Makes env call.callee
  /-- Each call is further to the right than those before it. -/
  increasing : j.Increasing

/-- What a walk calls, and what following its outcome up adds. -/
structure SyncSequence (env : Callables σ) (expression : Option Node)
    (w : Walked σ Evaluation) : Prop where
  /-- Who makes the calls, and in which order. -/
  calls : CallsInDocumentOrder env expression w.journal
  /-- Nothing is started and nothing ends. -/
  callsOnly : w.journal.CallsOnly
  /-- The log has a line for each call and no others. -/
  lines_eq : w.journal.lines = w.journal.made.map fun m => "call " ++ m.1.callee.text
  /-- Following a truth value up adds nothing. -/
  ready : ∀ b, w.result = .ok (.ready b) → ∀ f budget (s : σ),
    ((Evaluation.ready b).follow f budget s).journal = []
  /-- Polling it adds nothing either. -/
  readyPolled : ∀ b, w.result = .ok (.ready b) → ∀ budget (s : σ),
    ((Evaluation.ready b).resolve.run budget s).journal = []
  /-- A promise is that of the root, whose call is the only one.  Following it up adds its
  start and, once it is complete, its end. -/
  deferred : ∀ d, w.result = .ok (.deferred d) →
    w.journal.made = [(d.call, .deferred d.promise)] ∧ d.call.position = [] ∧
      ∀ f budget (s : σ), ((Evaluation.deferred d).follow f budget s).journal =
        ((Evaluation.deferred d).follow f budget s).aftermath.waits d.call
  /-- Whether or not its value has to be a truth value, polling the promise of the root
  leaves its start as soon as there is a poll, and its end once there is a result. -/
  deferredPolled : ∀ d, w.result = .ok (.deferred d) → ∀ budget, budget ≠ some 0 → ∀ s : σ,
    (d.resolve.run budget s).journal = d.waits (d.resolve.run budget s).result.isSome ∧
      (d.value.run budget s).journal = d.waits (d.value.run budget s).result.isSome

/-- What an evaluation with waiting calls within a budget, and what it waits for. -/
structure AsyncSequence (env : Callables σ) (expression : Option Node) (budget : Option Nat)
    (d : Driven σ Bool) : Prop where
  /-- Who makes the calls, and in which order. -/
  calls : CallsInDocumentOrder env expression d.journal
  /-- A run that is done has whole blocks, and so has its log. -/
  done : d.result ≠ none → d.journal.InBlocks ∧
    d.journal.lines = d.journal.made.flatMap fun m => m.2.log m.1
  /-- A run whose budget is used up has whole blocks, and a last one that is cut after its
  start. -/
  cut : d.result = none → budget ≠ some 0 →
    ∃ (earlier : Journal) (call : Call) (promise : Promise),
      d.journal = earlier ++ [.called call (.deferred promise), .started call] ∧
      earlier.InBlocks ∧
      d.journal.lines = (earlier.made.flatMap fun m => m.2.log m.1) ++
        ["call " ++ call.callee.text, "start " ++ call.callee.name]
  /-- A run without polls has no blocks at all. -/
  unpolled : budget = some 0 → d.result = none ∧ d.journal = []

namespace CallsInDocumentOrder

variable {env : Callables σ} {expression : Option Node} {j k : Journal}

theorem of_isPrefix (hk : CallsInDocumentOrder env expression k) (h : j <+: k) :
    CallsInDocumentOrder env expression j where
  evaluated ev hev := hk.evaluated ev (h.subset hev)
  leaf call o hmem := hk.leaf call o ((h.filterMap Event.made?).subset hmem)
  increasing := hk.increasing.of_isPrefix h

/-- Where nothing happens nothing is called. -/
theorem of_nil (env : Callables σ) (expression : Option Node) :
    CallsInDocumentOrder env expression [] where
  evaluated ev hev := by cases hev
  leaf call o hmem := by cases hmem
  increasing := Journal.increasing_of_made_nil rfl

/-- The calls of the evaluation with waiting, polled to its end. -/
theorem of_finish (policy : MissingRoot) (env : Callables σ) (expression : Option Node) (s : σ) :
    CallsInDocumentOrder env expression
      ((evaluateAsync policy env expression).finish s).journal := by
  rcases root_or_journal_nil policy env expression s with ⟨root, hentry⟩ | ⟨-, hnil⟩
  · have hroot := MissingRoot.eq_of_root_some hentry
    have hplaced := (Async.placed env (.ofNode root)).1 (.ofNode root) [] s rfl
    rw [finish_evaluateAsync_of_root hentry]
    refine ⟨?_, ?_, (Async.increasing env).1 _ [] s⟩
    · intro ev hev
      obtain ⟨e, hat⟩ := (hplaced ev hev).exists_at
      obtain ⟨n, hn, -⟩ := Expr.at?_ofNode_eq_some_iff.mp hat
      exact ⟨root, n, hroot, hn⟩
    · intro call o hmem
      obtain ⟨e, f, s', hat, hreach, -⟩ :=
        (hplaced _ (Journal.mem_made.mp hmem)).called call o rfl
      obtain ⟨n, hn, rfl⟩ := Expr.at?_ofNode_eq_some_iff.mp hat
      exact ⟨root, n, hroot, hn, Callables.makes_of_reach_call hreach⟩
  · rw [hnil]
    exact of_nil env expression

end CallsInDocumentOrder

/-- A walk from an entry begins what the waiting does. -/
theorem journal_evaluateSync_isPrefix (policy : MissingRoot) (env : Callables σ)
    (expression : Option Node) (s : σ) :
    ((evaluateSync policy env expression).run s).journal <+:
      ((evaluateAsync policy env expression).finish s).journal := by
  rcases root_or_journal_nil policy env expression s with ⟨root, hentry⟩ | ⟨hnil, -⟩
  · rw [Walk.run, evaluateSync_of_root hentry, finish_evaluateAsync_of_root hentry]
    exact (Sync.simulation_evaluate env (Expr.readable_ofNode root) s).journal_isPrefix
  · rw [hnil]
    exact List.nil_prefix

/-- A walk from an entry makes calls and nothing else. -/
theorem callsOnly_evaluateSync (policy : MissingRoot) (env : Callables σ)
    (expression : Option Node) (s : σ) :
    ((evaluateSync policy env expression).run s).journal.CallsOnly := by
  rcases root_or_journal_nil policy env expression s with ⟨root, hentry⟩ | ⟨hnil, -⟩
  · rw [Walk.run, evaluateSync_of_root hentry]
    exact (Sync.callsOnly env).1 _ [] {} s
  · rw [hnil]
    rfl

/-- An evaluation with waiting is in order from its entry on. -/
theorem inOrder_evaluateAsync (policy : MissingRoot) (env : Callables σ)
    (expression : Option Node) (s : σ) :
    (evaluateAsync policy env expression s).InOrder [] := by
  match hroot : policy.root expression with
  | .error error =>
    rw [evaluateAsync_of_error hroot]
    exact Journal.inBlocks_nil
  | .ok none =>
    rw [evaluateAsync_of_none hroot]
    exact Journal.inBlocks_nil
  | .ok (some root) =>
    rw [evaluateAsync_of_root hroot]
    exact (Async.inOrder env).1 _ [] s [] Journal.inBlocks_nil

/-- A walk from an entry that hands a promise over has called the root and nothing else. -/
theorem journal_evaluateSync_of_deferred {policy : MissingRoot} {env : Callables σ}
    {expression : Option Node} {s : σ} {d : Deferred}
    (h : ((evaluateSync policy env expression).run s).result = .ok (.deferred d)) :
    ((evaluateSync policy env expression).run s).journal =
        [.visited [], .called d.call (.deferred d.promise)] ∧ d.call.position = [] := by
  match hroot : policy.root expression with
  | .error error =>
    rw [Walk.run, evaluateSync_of_error hroot] at h
    cases h
  | .ok none =>
    rw [Walk.run, evaluateSync_of_none hroot] at h
    cases h
  | .ok (some root) =>
    rw [Walk.run, evaluateSync_of_root hroot] at h ⊢
    obtain ⟨callee, f, -, hcall, -⟩ := Sync.result_eq_deferred_iff.mp h
    exact ⟨Sync.journal_of_result_eq_deferred h, congrArg Call.position hcall⟩

/-- **Calls are made one after the other, in document order and at most once**, by the
leaves at evaluated positions.  Each is waited for before the next one is made; without
waiting there are calls only. -/
theorem calls_sequential (policy : MissingRoot) (env : Callables σ) (expression : Option Node)
    (s : σ) :
    SyncSequence env expression ((evaluateSync policy env expression).run s) ∧
      ∀ budget, AsyncSequence env expression budget
        ((evaluateAsync policy env expression).run budget s) := by
  have hfinish := CallsInDocumentOrder.of_finish policy env expression s
  have hbegins := journal_evaluateSync_isPrefix policy env expression s
  have honly := callsOnly_evaluateSync policy env expression s
  have horder := inOrder_evaluateAsync policy env expression s
  constructor
  · exact {
      calls := hfinish.of_isPrefix hbegins
      callsOnly := honly
      lines_eq := honly.lines_eq
      ready := fun b _ f budget s' => Evaluation.journal_follow_ready b f budget s'
      deferred := by
        intro d hd
        obtain ⟨hjournal, hposition⟩ := journal_evaluateSync_of_deferred hd
        refine ⟨by rw [hjournal]; rfl, hposition, fun f budget s' => ?_⟩
        exact Evaluation.journal_follow_deferred d f budget s'
      readyPolled := fun b _ budget s' => Evaluation.journal_run_resolve_ready b budget s'
      deferredPolled := fun d _ budget hbudget s' =>
        ⟨d.journal_run_resolve hbudget s', d.journal_run_value hbudget s'⟩ }
  · intro budget
    refine ⟨hfinish.of_isPrefix (Pollable.journal_run_isPrefix _ budget s), ?_, ?_, ?_⟩
    · intro hdone
      have hbudget : budget ≠ some 0 := by
        rintro rfl
        exact hdone rfl
      have hblocks := (Pollable.inOrder_run horder hbudget).1 hdone
      exact ⟨hblocks, hblocks.lines_eq⟩
    · intro hpending hbudget
      obtain ⟨earlier, call, promise, hj, hblocks⟩ :=
        (Pollable.inOrder_run horder hbudget).2 hpending
      rw [List.nil_append] at hj
      refine ⟨earlier, call, promise, hj, hblocks, ?_⟩
      rw [hj, Journal.lines_append, hblocks.lines_eq]
      rfl
    · rintro rfl
      exact ⟨rfl, rfl⟩

end BooleanRules
