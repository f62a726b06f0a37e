import BooleanRules.Proofs.Reached

/-!
# The visit counter of a walk

The counter goes up in one place, when a node is entered, and it is looked at in
one place, when the result of a call is checked.  Both leave their mark in the
journal, so the journal says what the counter has to be at every moment
(`Journal.entered`, `Journal.counters`), and an evaluation keeps to it, whichever
way it ends (`Sync.counted`).

## Main definitions

* `Journal.entered`, `Journal.calls` — the positions entered and the calls made.
* `Journal.counters` — the counter at each call, as the journal has it.
* `Walked.Counted` — the counter and the checks of a walk are those of its journal,
  and no more nodes are entered than there are.

## Main results

* `Sync.counted` — the evaluation of an expression is counted.
* `Walked.Counted.check_of_called` — the counter at the check of a given call.
-/

namespace BooleanRules

variable {σ α : Type}

/-! ### What a journal says about the counter -/

/-- The position that an event enters. -/
def Event.entered? : Event → Option Position
  | .visited p => some p
  | _ => none

/-- The call that an event makes. -/
def Event.call? : Event → Option Call
  | .called call _ => some call
  | _ => none

namespace Journal

/-- The positions entered, in order. -/
def entered (j : Journal) : List Position := j.filterMap Event.entered?

/-- The calls made, in order. -/
def calls (j : Journal) : List Call := j.filterMap Event.call?

/-- A counter after the nodes of a journal have been entered. -/
def count (c : VisitCounter) (j : Journal) : VisitCounter := ⟨c.visits + j.entered.length⟩

/-- The counter at each call of a journal. -/
def counters (c : VisitCounter) : Journal → List VisitCounter
  | [] => []
  | .visited _ :: j => counters c.visit j
  | .called _ _ :: j => c :: counters c j
  | _ :: j => counters c j

@[simp] theorem entered_nil : entered [] = [] := rfl

@[simp] theorem entered_cons_visited (p : Position) (j : Journal) :
    entered (.visited p :: j) = p :: entered j := rfl

@[simp] theorem entered_cons_called (call : Call) (o : Output) (j : Journal) :
    entered (.called call o :: j) = entered j := rfl

@[simp] theorem entered_append (j k : Journal) : entered (j ++ k) = entered j ++ entered k :=
  List.filterMap_append

theorem mem_entered {j : Journal} {p : Position} : p ∈ j.entered ↔ .visited p ∈ j := by
  constructor
  · intro h
    obtain ⟨ev, hev, heq⟩ := List.mem_filterMap.mp h
    cases ev with
    | visited q => cases heq; exact hev
    | _ => cases heq
  · intro h
    exact List.mem_filterMap.mpr ⟨_, h, rfl⟩

/-- A moment in a journal of two parts is in the one or in the other. -/
theorem split_append {j k earlier later : Journal} {ev : Event}
    (h : j ++ k = earlier ++ ev :: later) :
    (∃ rest, j = earlier ++ ev :: rest ∧ later = rest ++ k) ∨
      ∃ between, earlier = j ++ between ∧ k = between ++ ev :: later := by
  rcases List.append_eq_append_iff.mp h with ⟨l, hl, hk⟩ | ⟨l, hl, hk⟩
  · exact .inr ⟨l, hl, hk⟩
  · cases l with
    | nil => exact .inr ⟨[], by simpa using hl.symm, hk.symm⟩
    | cons ev' l =>
      rw [List.cons_append, List.cons.injEq] at hk
      obtain ⟨rfl, rfl⟩ := hk
      exact .inl ⟨l, hl, rfl⟩

theorem count_append (c : VisitCounter) (j k : Journal) :
    count c (j ++ k) = count (count c j) k := by
  simp [count, Nat.add_assoc]

@[simp] theorem count_cons_visited (c : VisitCounter) (p : Position) (j : Journal) :
    count c (.visited p :: j) = count c.visit j := by
  simp [count, Nat.add_assoc, Nat.add_comm 1]

theorem counters_append (c : VisitCounter) (j k : Journal) :
    counters c (j ++ k) = counters c j ++ counters (count c j) k := by
  induction j generalizing c with
  | nil => rfl
  | cons ev j ih =>
    cases ev with
    | visited p => simp [counters, ih]
    | called call o => simp [counters, ih, count]
    | _ => exact ih c

/-- One counter for each call. -/
theorem length_counters (c : VisitCounter) (j : Journal) :
    (counters c j).length = j.calls.length := by
  induction j generalizing c with
  | nil => rfl
  | cons ev j ih =>
    cases ev with
    | called call o => exact congrArg (· + 1) (ih c)
    | _ => exact ih _

/-- No counter on the way is above the one at the end. -/
theorem visits_le_of_mem_counters {c c' : VisitCounter} {j : Journal} (h : c' ∈ counters c j) :
    c'.visits ≤ (count c j).visits := by
  induction j generalizing c with
  | nil => cases h
  | cons ev j ih =>
    cases ev with
    | visited p =>
      rw [count_cons_visited]
      exact ih h
    | called call o =>
      rcases List.mem_cons.mp h with rfl | h
      · exact Nat.le_add_right _ _
      · exact ih h
    | _ => exact ih h

end Journal

/-! ### Counted walks -/

/-- The counter and the checks of a walk from `c` are those of its journal, and the
journal enters at most `n` nodes. -/
structure Walked.Counted (c : VisitCounter) (n : Nat) (w : Walked σ α) : Prop where
  /-- The counter at the end. -/
  counter_eq : w.counter = w.journal.count c
  /-- The counters at the checks. -/
  checks_eq : w.checks = w.journal.counters c
  /-- The nodes that can be entered. -/
  length_entered_le : w.journal.entered.length ≤ n

namespace Walked.Counted

variable {c : VisitCounter} {n : Nat} {w : Walked σ α}

theorem visits_counter (h : w.Counted c n) :
    w.counter.visits = c.visits + w.journal.entered.length := by
  rw [h.counter_eq, Journal.count]

/-- The counter never goes down. -/
theorem le_visits_counter (h : w.Counted c n) : c.visits ≤ w.counter.visits := by
  rw [h.visits_counter]
  exact Nat.le_add_right _ _

/-- A bound that the nodes cannot reach is kept at the end and at each check. -/
theorem visits_lt (h : w.Counted c n) {limit : Nat} (hlimit : c.visits + n < limit) :
    w.counter.visits < limit ∧ ∀ c' ∈ w.checks, c'.visits < limit := by
  have hlt : w.counter.visits < limit := by
    have hvisits := h.visits_counter
    have hle := h.length_entered_le
    omega
  refine ⟨hlt, fun c' hc' => Nat.lt_of_le_of_lt ?_ hlt⟩
  rw [h.checks_eq] at hc'
  rw [h.counter_eq]
  exact Journal.visits_le_of_mem_counters hc'

/-- Each call is checked once, and in the order of the calls. -/
theorem length_checks (h : w.Counted c n) : w.checks.length = w.journal.calls.length := by
  rw [h.checks_eq, Journal.length_counters]

/-- The check of a call is made at the counter that the nodes entered before the
call account for. -/
theorem check_of_called (h : w.Counted c n) {earlier later : Journal} {call : Call} {o : Output}
    (hj : w.journal = earlier ++ .called call o :: later) :
    w.checks[earlier.calls.length]? = some (earlier.count c) := by
  rw [h.checks_eq, hj, Journal.counters_append, ← Journal.length_counters c earlier]
  simp [Journal.counters]

/-- Two counted walks in a row. -/
theorem append {β : Type} {m : Nat} {v : Walked σ β} (hw : w.Counted c n)
    (hv : v.Counted w.counter m) :
    Counted c (n + m) (⟨w.journal ++ v.journal, w.checks ++ v.checks, v.counter, v.state,
      v.result⟩ : Walked σ β) where
  counter_eq := by rw [hv.counter_eq, hw.counter_eq, Journal.count_append]
  checks_eq := by rw [hv.checks_eq, hw.checks_eq, hw.counter_eq, Journal.counters_append]
  length_entered_le := by
    have h₁ := hw.length_entered_le
    have h₂ := hv.length_entered_le
    simp only [Journal.entered_append, List.length_append]
    omega

/-- The result of a walk has no part in its counting. -/
theorem withResult {β : Type} {m : Nat} (hw : w.Counted c n) (hnm : n ≤ m) (s : σ)
    (r : Except EvalError β) :
    Counted c m (⟨w.journal, w.checks, w.counter, s, r⟩ : Walked σ β) :=
  ⟨hw.counter_eq, hw.checks_eq, Nat.le_trans hw.length_entered_le hnm⟩

end Walked.Counted

namespace Sync

/-- **An evaluation is counted**, from any counter and whichever way it ends. -/
theorem counted (env : Callables σ) :
    (∀ e p c s, (evaluate env p e c s).Counted c e.size) ∧
      ∀ es op p i c s, (evaluateOperands env op p i es c s).Counted c (Expr.sizes es) := by
  refine env.induct ?_ ?_ ?_ ?_ ?_ ?_
  · intro b p c s
    exact ⟨rfl, rfl, Nat.le_refl 1⟩
  · intro e callee f h p c s
    have hsize : 1 ≤ e.size := by cases e <;> simp [Expr.size]
    rw [evaluate_of_call h]
    exact ⟨rfl, rfl, hsize⟩
  · intro e error h p c s
    have hsize : 1 ≤ e.size := by cases e <;> simp [Expr.size]
    rw [evaluate_of_fault h]
    exact ⟨rfl, rfl, hsize⟩
  · intro op es ih p c s
    have hops := ih op p 0 c.visit s
    rw [evaluate_operator]
    refine ⟨?_, ?_, ?_⟩
    · simpa using hops.counter_eq
    · simpa [Journal.counters] using hops.checks_eq
    · simpa [Expr.size, Nat.add_comm] using hops.length_entered_le
  · intro op p i c s
    exact ⟨rfl, rfl, Nat.le_refl 0⟩
  · intro e es ihe ihes op p i c s
    have hfirst := ihe (p ++ [i]) c s
    have hle : e.size ≤ Expr.sizes (e :: es) := Nat.le_add_right _ _
    rcases op.cases_of_outcome (evaluate env (p ++ [i]) e c s).result with ⟨error, h⟩ | h | h
    · rw [evaluateOperands_cons_of_error es h]
      exact hfirst.withResult hle _ _
    · rw [evaluateOperands_cons_of_decided es h]
      exact hfirst.withResult hle _ _
    · rw [evaluateOperands_cons_of_undecided es h]
      exact hfirst.append (ihes op p (i + 1) _ _)

theorem counted_evaluate (env : Callables σ) (e : Expr) (p : Position) (c : VisitCounter)
    (s : σ) : (evaluate env p e c s).Counted c e.size :=
  (counted env).1 e p c s

end Sync

end BooleanRules
