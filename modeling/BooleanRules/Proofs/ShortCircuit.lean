import BooleanRules.Proofs.Formula
import BooleanRules.Proofs.Simulation

/-!
# What short-circuiting leaves out

An operator stops at its first operand that decides it.  Read as plain formulas,
expressions do not know of this: every operand counts.  Two statements connect
them.  When an evaluation ends with a truth value, the formula of what it has seen
has this value whatever stands in the places it never entered.  And whenever it
calls something, the formula of what it has seen so far can still come out either
way.

Both are proved for the asynchronous evaluation polled to its end; what happens
within a budget, and what the synchronous evaluation does, begins what happens
there.

## Main definitions

* `Journal.Answered` — all calls gave truth values.
* `Settled`, `Undecided` — a formula has one value, or can still have either.

## Main results

* `answer_forced_by_journal` — **an answer is forced by what was observed.**
* `outcome_undecided_at_call` — **nothing is called once the outcome is decided.**
-/

namespace BooleanRules

variable {σ : Type}

namespace Journal

/-- Each call gave a truth value, and it is the one that is known of its place. -/
def Answered (j : Journal) : Prop :=
  ∀ call o, .called call o ∈ j → ∃ b, o.value = .bool b ∧ j.given? call.position = some b

variable {p : Position} {i : Nat} {j k : Journal}

theorem answered_of_no_call (h : ∀ call o, .called call o ∉ j) : Answered j :=
  fun call o hmem => absurd hmem (h call o)

theorem answered_visited (p : Position) : Answered [.visited p] :=
  answered_of_no_call fun call o h => by simp at h

theorem Answered.cons_visited (h : Answered j) (p : Position) : Answered (.visited p :: j) := by
  intro call o hmem
  rcases List.mem_cons.mp hmem with heq | hmem
  · cases heq
  · exact h call o hmem

/-- The calls of an operand and then of the operands after it. -/
theorem Answered.append (hj : Answered j) (hk : Answered k) (hjp : Under (p ++ [i]) j)
    (hkp : UnderFrom p (i + 1) k) : Answered (j ++ k) := by
  intro call o hmem
  rcases List.mem_append.mp hmem with hmem | hmem
  · obtain ⟨b, hval, hgiven⟩ := hj call o hmem
    refine ⟨b, hval, ?_⟩
    rw [given?_append, hgiven, Option.some_or]
  · obtain ⟨b, hval, hgiven⟩ := hk call o hmem
    obtain ⟨n, hn, hpos⟩ := hkp _ hmem
    have hoff : Off (p ++ [n]) j := hjp.off (by omega)
    have hnone : j.given? call.position = none := hoff.given?_eq_none hpos
    refine ⟨b, hval, ?_⟩
    rw [given?_append, hnone, hgiven, Option.none_or]

end Journal

/-! ### The formula of operands, one after the other -/

namespace Expr

open Journal

variable {p : Position} {i : Nat} {j k : Journal} {e : Expr} {es : List Expr} {op : Operator}

/-- An operator that was entered is a formula of its operands. -/
theorem observed_operator (op : Operator) (es : List Expr) (p : Position) (j : Journal) :
    observed (.visited p :: j) p (.operator op es) = .junction op (observedOperands j p 0 es) := by
  have hentered : p ∈ entered (.visited p :: j) := List.mem_cons_self
  have hops : observedOperands (.visited p :: j) p 0 es = observedOperands j p 0 es :=
    observedOperands_congr es fun n _ => agreeUnder_append_right (off_visited p n)
  rw [observed, ifEntered, if_pos hentered, hops]

theorem observed_of_call {env : Callables σ} {callee : Callee} {f : σ → Output × σ}
    (h : env.reach e = .call callee f) (j : Journal) (p : Position) :
    observed j p e = j.ifEntered p (j.formulaOfCall p) := by
  rcases Callables.eq_of_reach_call h with ⟨name, rfl, -⟩ | ⟨name, vs, g, rfl, -⟩ <;> rfl

/-- An operand knows of its own part of the journal, and those after it of theirs. -/
theorem observedOperands_append (hj : Under (p ++ [i]) j) (hk : UnderFrom p (i + 1) k) :
    observedOperands (j ++ k) p i (e :: es) =
      observed j (p ++ [i]) e :: observedOperands k p (i + 1) es := by
  have hfirst : observed (j ++ k) (p ++ [i]) e = observed j (p ++ [i]) e :=
    observed_congr e (agreeUnder_append_left (hk.off (Nat.lt_succ_self i)))
  have hrest : observedOperands (j ++ k) p (i + 1) es = observedOperands k p (i + 1) es :=
    observedOperands_congr es fun n hn => agreeUnder_append_right (hj.off (by omega))
  rw [observedOperands, hfirst, hrest]

/-- The variables that were entered are those of the parts. -/
theorem entered_vars_append {X : Position → Prop} (hj : Under (p ++ [i]) j)
    (hk : UnderFrom p (i + 1) k)
    (hfirst : ∀ q ∈ (observed j (p ++ [i]) e).vars, q ∈ j.entered → X q)
    (hrest : ∀ q ∈ Formula.varsOf (observedOperands k p (i + 1) es), q ∈ k.entered → X q) :
    ∀ q ∈ Formula.varsOf (observedOperands (j ++ k) p i (e :: es)),
      q ∈ (j ++ k).entered → X q := by
  intro q hq hentered
  rw [observedOperands_append hj hk, Formula.varsOf] at hq
  rw [entered_append] at hentered
  rcases List.mem_append.mp hq with hq | hq
  · have hoff := hk.off (Nat.lt_succ_self i)
    rcases List.mem_append.mp hentered with h | h
    · exact hfirst q hq h
    · exact absurd h (hoff.notMem_entered (prefix_of_mem_vars e hq))
  · obtain ⟨n, hn, hpos⟩ := prefix_of_mem_varsOf es hq
    have hoff : Off (p ++ [n]) j := hj.off (by omega)
    rcases List.mem_append.mp hentered with h | h
    · exact absurd h (hoff.notMem_entered hpos)
    · exact hrest q hq h

/-- While only the first operand was entered, its variables are the ones entered. -/
theorem entered_vars_first {X : Position → Prop} (hj : Under (p ++ [i]) j)
    (hfirst : ∀ q ∈ (observed j (p ++ [i]) e).vars, q ∈ j.entered → X q) (es : List Expr) :
    ∀ q ∈ Formula.varsOf (observedOperands j p i (e :: es)), q ∈ j.entered → X q := by
  have hrest : ∀ q ∈ Formula.varsOf (observedOperands [] p (i + 1) es), q ∈ entered [] → X q := by
    intro q _ hq
    cases hq
  have hvars := entered_vars_append hj (underFrom_nil p (i + 1)) hfirst hrest
  rwa [List.append_nil] at hvars

/-- Entering an operator enters no variable of its formula. -/
theorem mem_entered_of_mem_varsOf {q : Position}
    (hq : q ∈ Formula.varsOf (observedOperands j p i es))
    (h : q ∈ entered (.visited p :: j)) : q ∈ j.entered := by
  obtain ⟨n, -, hpos⟩ := prefix_of_mem_varsOf es hq
  rcases List.mem_cons.mp h with rfl | h
  · exact absurd hpos (Position.not_prefix_self q n)
  · exact h

/-- Operands that were not entered leave their operator open, if they are all taken
to be so. -/
theorem value_observedOperands_of_off {α : Position → Bool}
    (hoff : ∀ n, i ≤ n → Off (p ++ [n]) j)
    (hα : ∀ n, i ≤ n → α (p ++ [n]) = op.fallthroughValue) :
    (Formula.junction op (observedOperands j p i es)).value α = op.fallthroughValue := by
  induction es generalizing i with
  | nil => exact Formula.value_junction_nil α op
  | cons e es ih =>
    have hnot : p ++ [i] ∉ j.entered := (hoff i (Nat.le_refl i)).notMem_entered List.prefix_rfl
    have hfirst : (observed j (p ++ [i]) e).value α = op.fallthroughValue := by
      rw [observed_of_notMem hnot e]
      exact hα i (Nat.le_refl i)
    rw [observedOperands, Formula.value_junction_cons_of_undecided hfirst]
    exact ih (fun n hn => hoff n (Nat.le_of_succ_le hn)) fun n hn => hα n (Nat.le_of_succ_le hn)

end Expr

/-! ### Settled formulas -/

/-- The formula `f` of the journal `j` has the value `b`, whatever stands in the
places that were not entered. -/
structure Settled (j : Journal) (f : Formula) (b : Bool) : Prop where
  /-- The value under every assignment. -/
  value_eq : ∀ α, f.value α = b
  /-- What is not known was not entered. -/
  free : ∀ q ∈ f.vars, q ∉ j.entered
  /-- The formula has what the calls gave. -/
  answered : j.Answered

namespace Settled

open Journal

variable {p : Position} {i : Nat} {j k : Journal} {b : Bool} {op : Operator} {e : Expr}

/-- A literal that was entered stands for itself. -/
theorem literal (p : Position) (b : Bool) :
    Settled [.visited p] (Expr.observed [.visited p] p (.literal b)) b := by
  have hformula : Expr.observed [.visited p] p (.literal b) = .const b :=
    if_pos (List.mem_singleton_self p)
  rw [hformula]
  refine ⟨?_, ?_, answered_visited p⟩
  · intro α
    rw [Formula.value]
  · intro q hq
    cases hq

/-- A leaf is settled by what its call gave. -/
theorem call {env : Callables σ} {callee : Callee} {f : σ → Output × σ}
    (h : env.reach e = .call callee f) (p : Position) {o : Output} (ho : o.value = .bool b) :
    let c : Call := ⟨p, callee⟩
    let j : Journal := .visited p :: .called c o :: o.waits c
    Settled j (e.observed j p) b := by
  intro c j
  have hentered : p ∈ j.entered := List.mem_cons_self
  have hgiven : j.given? p = some b := given?_cons_called c ho (o.waits c)
  have hformula : e.observed j p = .const b := by
    rw [Expr.observed_of_call h, ifEntered, if_pos hentered, formulaOfCall, hgiven]
  rw [hformula]
  refine ⟨?_, ?_, ?_⟩
  · intro α
    rw [Formula.value]
  · intro q hq
    cases hq
  · refine Answered.cons_visited ?_ p
    intro c' o' hmem
    rcases List.mem_cons.mp hmem with heq | hmem
    · cases heq
      exact ⟨b, ho, hgiven⟩
    · exact absurd hmem (called_notMem_waits c o c' o')

theorem operator {es : List Expr}
    (h : Settled j (.junction op (Expr.observedOperands j p 0 es)) b) :
    Settled (.visited p :: j) (Expr.observed (.visited p :: j) p (.operator op es)) b := by
  rw [Expr.observed_operator]
  refine ⟨h.value_eq, ?_, h.answered.cons_visited p⟩
  intro q hq hentered
  exact h.free q hq (Expr.mem_entered_of_mem_varsOf hq hentered)

/-- An operand of the deciding value settles its operator. -/
theorem decided (h : Settled j (e.observed j (p ++ [i])) op.decidingValue)
    (hj : Under (p ++ [i]) j) (es : List Expr) :
    Settled j (.junction op (Expr.observedOperands j p i (e :: es))) op.decidingValue where
  value_eq α := Formula.value_junction_cons_of_decided (h.value_eq α)
  free := Expr.entered_vars_first hj h.free es
  answered := h.answered

/-- An operand of the other value leaves it to the operands after it. -/
theorem undecided {es : List Expr} (h : Settled j (e.observed j (p ++ [i])) op.fallthroughValue)
    (hrest : Settled k (.junction op (Expr.observedOperands k p (i + 1) es)) b)
    (hj : Under (p ++ [i]) j) (hk : UnderFrom p (i + 1) k) :
    Settled (j ++ k) (.junction op (Expr.observedOperands (j ++ k) p i (e :: es))) b where
  value_eq α := by
    rw [Expr.observedOperands_append hj hk, Formula.value_junction_cons_of_undecided (h.value_eq α)]
    exact hrest.value_eq α
  free := Expr.entered_vars_append hj hk h.free hrest.free
  answered := h.answered.append hrest.answered hj hk

end Settled

namespace Async

open Journal

/-- **An evaluation that ends with a truth value settles its formula.** -/
theorem settled (env : Callables σ) :
    (∀ e p s b, ((evaluate env p e).finish s).result = .ok b →
        let j := ((evaluate env p e).finish s).journal
        Settled j (e.observed j p) b) ∧
      ∀ es op p i s b, ((evaluateOperands env op p i es).finish s).result = .ok b →
        let j := ((evaluateOperands env op p i es).finish s).journal
        Settled j (.junction op (Expr.observedOperands j p i es)) b := by
  refine env.induct ?_ ?_ ?_ ?_ ?_ ?_
  · intro b p s b' h
    cases h
    rw [finish_evaluate_literal]
    exact .literal p b
  · intro e callee f hreach p s b h
    rw [finish_evaluate_of_call hreach] at h ⊢
    exact .call hreach p (Value.expectBool_eq_ok_iff.mp h)
  · intro e error hreach p s b h
    rw [finish_evaluate_of_fault hreach] at h
    cases h
  · intro op es ih p s b h
    rw [finish_evaluate_operator] at h ⊢
    exact (ih op p 0 s b h).operator
  · intro op p i s b h
    cases h
    refine ⟨fun α => Formula.value_junction_nil α op, ?_, ?_⟩
    · intro q hq
      cases hq
    · exact answered_of_no_call fun call o h => by cases h
  · intro e es ihe ihes op p i s b h
    have hunder := under_evaluate env e (p ++ [i]) s
    rcases op.cases_of_result ((evaluate env (p ++ [i]) e).finish s).result with
      ⟨error, hfirst⟩ | hfirst | hfirst
    · rw [finish_evaluateOperands_cons_of_error es hfirst, hfirst] at h
      cases h
    · rw [finish_evaluateOperands_cons_of_decided es hfirst] at h ⊢
      obtain rfl : op.decidingValue = b := Except.ok.inj (hfirst.symm.trans h)
      exact (ihe (p ++ [i]) s _ hfirst).decided hunder es
    · rw [finish_evaluateOperands_cons_of_undecided es hfirst] at h ⊢
      exact (ihe (p ++ [i]) s _ hfirst).undecided (ihes op p (i + 1) _ b h) hunder
        (under_evaluateOperands env es op p (i + 1) _)

theorem settled_evaluate (env : Callables σ) {e : Expr} {p : Position} {s : σ} {b : Bool}
    (h : ((evaluate env p e).finish s).result = .ok b) :
    Settled ((evaluate env p e).finish s).journal
      (Expr.observed ((evaluate env p e).finish s).journal p e) b :=
  (settled env).1 e p s b h

end Async

/-! ### Undecided formulas -/

/-- At the moment after `earlier` when `call` is made, the formula `f` can still have
either value: what is not known of it is where the call is, or not entered yet. -/
structure Undecided (earlier : Journal) (call : Call) (f : Formula) : Prop where
  /-- Two assignments that tell the outcomes apart. -/
  differ : ∃ α β, f.value α ≠ f.value β
  /-- What is not known is the result of the call, or was not entered. -/
  free : ∀ q ∈ f.vars, q ∈ earlier.entered → q = call.position
  /-- The formula has what the calls gave. -/
  answered : earlier.Answered

namespace Undecided

open Journal

variable {p : Position} {i : Nat} {j k : Journal} {call : Call} {f : Formula} {op : Operator}
  {e : Expr} {es : List Expr}

/-- Either value is still possible. -/
theorem exists_value_eq (h : Undecided j call f) (b : Bool) : ∃ α, f.value α = b := by
  obtain ⟨α, β, hne⟩ := h.differ
  by_cases hα : f.value α = b
  · exact ⟨α, hα⟩
  · refine ⟨β, ?_⟩
    revert hα hne
    cases f.value α <;> cases f.value β <;> cases b <;> decide

/-- Entering a leaf decides nothing. -/
theorem leaf {env : Callables σ} {callee : Callee} {perform : σ → Output × σ}
    (h : env.reach e = .call callee perform) (p : Position) :
    Undecided [.visited p] ⟨p, callee⟩ (e.observed [.visited p] p) := by
  have hentered : p ∈ entered [.visited p] := List.mem_singleton_self p
  have hformula : e.observed [.visited p] p = .var p := by
    rw [Expr.observed_of_call h, ifEntered, if_pos hentered]
    rfl
  rw [hformula]
  refine ⟨⟨fun _ => true, fun _ => false, ?_⟩, ?_, answered_visited p⟩
  · rw [Formula.value, Formula.value]
    decide
  · intro q hq _
    exact List.mem_singleton.mp hq

theorem operator (h : Undecided j call (.junction op (Expr.observedOperands j p 0 es))) :
    Undecided (.visited p :: j) call (Expr.observed (.visited p :: j) p (.operator op es)) := by
  rw [Expr.observed_operator]
  refine ⟨h.differ, ?_, h.answered.cons_visited p⟩
  intro q hq hentered
  exact h.free q hq (Expr.mem_entered_of_mem_varsOf hq hentered)

/-- While an operand is undecided its operator is, as the operands after it may all
leave it open. -/
theorem first (h : Undecided j call (e.observed j (p ++ [i]))) (hj : Under (p ++ [i]) j)
    (es : List Expr) : Undecided j call (.junction op (Expr.observedOperands j p i (e :: es))) := by
  have hrest : ∀ n, i + 1 ≤ n → Off (p ++ [n]) j := fun n hn => hj.off (by omega)
  -- any value of the operand is one of the operator
  have hvalue : ∀ b, ∃ α,
      (Formula.junction op (Expr.observedOperands j p i (e :: es))).value α = b := by
    intro b
    obtain ⟨α, hα⟩ := h.exists_value_eq b
    let α' : Position → Bool := fun q => if p ++ [i] <+: q then α q else op.fallthroughValue
    have hfirst : (e.observed j (p ++ [i])).value α' = b := by
      rw [← hα]
      exact Formula.value_congr _ fun q hq => if_pos (Expr.prefix_of_mem_vars e hq)
    have hopen : (Formula.junction op (Expr.observedOperands j p (i + 1) es)).value α' =
        op.fallthroughValue := by
      refine Expr.value_observedOperands_of_off hrest fun n hn => if_neg fun hpre => ?_
      have heq : i = n := Position.apart hpre List.prefix_rfl
      omega
    refine ⟨α', ?_⟩
    rw [Expr.observedOperands, Formula.value_junction_cons, hfirst, hopen]
    rcases op.eq_decidingValue_or b with rfl | rfl
    · exact if_pos rfl
    · exact if_neg op.fallthroughValue_ne
  obtain ⟨α, hα⟩ := hvalue true
  obtain ⟨β, hβ⟩ := hvalue false
  refine ⟨⟨α, β, ?_⟩, Expr.entered_vars_first hj h.free es, h.answered⟩
  rw [hα, hβ]
  decide

/-- While the operands after a settled one are undecided, all of them are. -/
theorem rest (hfirst : Settled j (e.observed j (p ++ [i])) op.fallthroughValue)
    (h : Undecided k call (.junction op (Expr.observedOperands k p (i + 1) es)))
    (hj : Under (p ++ [i]) j) (hk : UnderFrom p (i + 1) k) :
    Undecided (j ++ k) call (.junction op (Expr.observedOperands (j ++ k) p i (e :: es))) := by
  have hvalue : ∀ α, (Formula.junction op (Expr.observedOperands (j ++ k) p i (e :: es))).value α =
      (Formula.junction op (Expr.observedOperands k p (i + 1) es)).value α := by
    intro α
    rw [Expr.observedOperands_append hj hk,
      Formula.value_junction_cons_of_undecided (hfirst.value_eq α)]
  obtain ⟨α, β, hne⟩ := h.differ
  refine ⟨⟨α, β, ?_⟩, ?_, hfirst.answered.append h.answered hj hk⟩
  · rw [hvalue, hvalue]
    exact hne
  · exact Expr.entered_vars_append hj hk (fun q hq hmem => absurd hmem (hfirst.free q hq)) h.free

end Undecided

namespace Async

open Journal

/-- **At each call the formula of what was seen is undecided.** -/
theorem undecided (env : Callables σ) :
    (∀ e p s earlier call o later,
        ((evaluate env p e).finish s).journal = earlier ++ .called call o :: later →
        Undecided earlier call (e.observed earlier p)) ∧
      ∀ es op p i s earlier call o later,
        ((evaluateOperands env op p i es).finish s).journal = earlier ++ .called call o :: later →
        Undecided earlier call (.junction op (Expr.observedOperands earlier p i es)) := by
  refine env.induct ?_ ?_ ?_ ?_ ?_ ?_
  · intro b p s earlier call o later h
    exact absurd h (visited_ne_called p)
  · intro e callee f hreach p s earlier call o later h
    rw [finish_evaluate_of_call hreach] at h
    obtain ⟨rfl, rfl⟩ := eq_of_called_leaf (called_notMem_waits _ _) h
    exact .leaf hreach p
  · intro e error hreach p s earlier call o later h
    rw [finish_evaluate_of_fault hreach] at h
    exact absurd h (visited_ne_called p)
  · intro op es ih p s earlier call o later h
    rw [finish_evaluate_operator, Finished.journal_after] at h
    obtain ⟨between, rfl, hops⟩ := eq_cons_of_called h
    exact (ih op p 0 s between call o later hops).operator
  · intro op p i s earlier call o later h
    exact absurd h (by simp [finish_evaluateOperands_nil])
  · intro e es ihe ihes op p i s earlier call o later h
    have hunder := under_evaluate env e (p ++ [i]) s
    -- a call made for the first operand, whatever comes of it
    have hcall : ∀ later', ((evaluate env (p ++ [i]) e).finish s).journal =
        earlier ++ .called call o :: later' →
          Undecided earlier call (.junction op (Expr.observedOperands earlier p i (e :: es))) := by
      intro later' hj
      have hprefix : earlier <+: ((evaluate env (p ++ [i]) e).finish s).journal :=
        hj ▸ List.prefix_append _ _
      exact (ihe (p ++ [i]) s earlier call o later' hj).first (hunder.of_isPrefix hprefix) es
    rcases op.cases_of_result ((evaluate env (p ++ [i]) e).finish s).result with
      ⟨error, hfirst⟩ | hfirst | hfirst
    · rw [finish_evaluateOperands_cons_of_error es hfirst] at h
      exact hcall later h
    · rw [finish_evaluateOperands_cons_of_decided es hfirst] at h
      exact hcall later h
    · rw [finish_evaluateOperands_cons_of_undecided es hfirst] at h
      rcases split_append h with ⟨rest, hj, -⟩ | ⟨between, rfl, hrest⟩
      · exact hcall rest hj
      · have hsettled := settled_evaluate env hfirst
        have hunderFrom := (under_evaluateOperands env es op p (i + 1)
          ((evaluate env (p ++ [i]) e).finish s).state).of_isPrefix (hrest ▸ List.prefix_append _ _)
        exact .rest hsettled (ihes op p (i + 1) _ between call o later hrest) hunder hunderFrom

theorem undecided_evaluate (env : Callables σ) {e : Expr} {p : Position} {s : σ}
    {earlier : Journal} {call : Call} {o : Output} {later : Journal}
    (h : ((evaluate env p e).finish s).journal = earlier ++ .called call o :: later) :
    Undecided earlier call (e.observed earlier p) :=
  (undecided env).1 e p s earlier call o later h

end Async

/-! ### The main theorems -/

/-- The predicate `no` answers false, `slow` promises true, and all others answer true.
The state counts the calls. -/
def countedAnswers : Callables Nat where
  predicate name calls :=
    let output : Output :=
      if name = "no" then .ready (.bool false)
      else if name = "slow" then .deferred ⟨.bool true, 1⟩
      else .ready (.bool true)
    (output, calls + 1)
  functions := .empty

/-- A disjunction whose first operand fails early, whose second one decides it, and whose
last one is no expression. -/
def earlyAnswer (second : String) : Node :=
  .or [.and [.predicate "no", .predicate "yes"], .predicate second, .null]

namespace Sync

/-- What settles the formula of the waiting settles that of a walk with a truth value. -/
theorem settled_evaluate {env : Callables σ} {e : Expr} (he : e.Readable) {s : σ} {b : Bool}
    (h : ((evaluate env [] e).run s).result = .ok (.ready b)) :
    let j := ((evaluate env [] e).run s).journal
    Settled j (e.observed j []) b := by
  have hready := (simulation_evaluate env he s).ready b h
  have hresult : ((Async.evaluate env [] e).finish s).result = .ok b := by rw [hready]
  have hsettled := Async.settled_evaluate env hresult
  rw [hready] at hsettled
  exact hsettled

/-- What waiting calls while undecided, a walk calls while undecided. -/
theorem undecided_evaluate {env : Callables σ} {e : Expr} (he : e.Readable) {s : σ}
    {earlier later : Journal} {call : Call} {o : Output}
    (h : ((evaluate env [] e).run s).journal = earlier ++ .called call o :: later) :
    Undecided earlier call (e.observed earlier []) := by
  have hprefix := (simulation_evaluate env he s).journal_isPrefix
  obtain ⟨later', hlater⟩ := Journal.exists_later_of_isPrefix hprefix h
  exact Async.undecided_evaluate env hlater

end Sync

/-- **An answer is forced by what was observed.**  When a root that is not null is
evaluated to a truth value, without waiting or with it, the plain formula of what was
entered and answered has this value, whatever stands in the places not entered. -/
theorem answer_forced_by_journal (policy : MissingRoot) (env : Callables σ) {root : Node}
    (hroot : root ≠ .null) (s : σ) (b : Bool) :
    (((evaluateSync policy env (some root)).run s).result = .ok (.ready b) →
        let j := ((evaluateSync policy env (some root)).run s).journal
        Settled j ((Expr.ofNode root).observed j []) b) ∧
      ∀ budget, ((evaluateAsync policy env (some root)).run budget s).result = some (.ok b) →
        let j := ((evaluateAsync policy env (some root)).run budget s).journal
        Settled j ((Expr.ofNode root).observed j []) b := by
  have hentry := policy.root_some hroot
  constructor
  · intro h
    rw [Walk.run, evaluateSync_of_root hentry] at h ⊢
    exact Sync.settled_evaluate (Expr.readable_ofNode root) h
  · intro budget h
    have hrun := Pollable.run_eq_of_result h
    rw [hrun, Finished.driven, finish_evaluateAsync_of_root hentry] at h ⊢
    exact Async.settled_evaluate env (Option.some.inj h)

/-- The rest of `earlyAnswer` does not count, without waiting and with it. -/
theorem earlyAnswer_settled :
    let sync := (evaluateSync .error countedAnswers (some (earlyAnswer "yes"))).run 0
    let async := (evaluateAsync .error countedAnswers (some (earlyAnswer "slow"))).run (some 2) 0
    let f : Formula := .junction .or [.junction .and [.const false, .var [0, 1]], .const true,
      .var [2]]
    Settled sync.journal f true ∧ Settled async.journal f true := by
  have hne : ∀ second, earlyAnswer second ≠ .null := by
    intro second h
    cases h
  constructor
  · exact (answer_forced_by_journal .error countedAnswers (hne "yes") 0 true).1 rfl
  · exact (answer_forced_by_journal .error countedAnswers (hne "slow") 0 true).2 (some 2) rfl

/-- **Nothing is called once the outcome is decided.**  At every call of an evaluation,
without waiting or with it and however it ends, the plain formula of what was entered
and answered before can still come out either way, by the result of this call and
by what stands in the places not entered yet. -/
theorem outcome_undecided_at_call (policy : MissingRoot) (env : Callables σ)
    (expression : Option Node) (s : σ) (earlier : Journal) (call : Call) (output : Output)
    (later : Journal) :
    (((evaluateSync policy env expression).run s).journal =
        earlier ++ .called call output :: later →
      ∃ root, expression = some root ∧
        Undecided earlier call ((Expr.ofNode root).observed earlier [])) ∧
      ∀ budget, ((evaluateAsync policy env expression).run budget s).journal =
          earlier ++ .called call output :: later →
        ∃ root, expression = some root ∧
          Undecided earlier call ((Expr.ofNode root).observed earlier []) := by
  rcases root_or_journal_nil policy env expression s with ⟨root, hentry⟩ | ⟨hsync, hasync⟩
  · have hroot := MissingRoot.eq_of_root_some hentry
    constructor
    · intro h
      rw [Walk.run, evaluateSync_of_root hentry] at h
      exact ⟨root, hroot, Sync.undecided_evaluate (Expr.readable_ofNode root) h⟩
    · intro budget h
      have hprefix := (evaluateAsync policy env expression).journal_run_isPrefix budget s
      obtain ⟨later', hlater⟩ := Journal.exists_later_of_isPrefix hprefix h
      rw [finish_evaluateAsync_of_root hentry] at hlater
      exact ⟨root, hroot, Async.undecided_evaluate env hlater⟩
  · constructor
    · intro h
      rw [hsync] at h
      exact absurd h (by simp)
    · intro budget h
      have hprefix := (evaluateAsync policy env expression).journal_run_isPrefix budget s
      rw [hasync, h] at hprefix
      exact absurd hprefix (by simp)

/-- When the second operand of `earlyAnswer` is called, it and the last one are open. -/
theorem earlyAnswer_undecided :
    let earlier : Journal := [.visited [], .visited [0], .visited [0, 0],
      .called ⟨[0, 0], .predicate "no"⟩ (.ready (.bool false)), .visited [1]]
    let f : Formula := .junction .or [.junction .and [.const false, .var [0, 1]], .var [1],
      .var [2]]
    Undecided earlier ⟨[1], .predicate "slow"⟩ f := by
  intro earlier f
  let call : Call := ⟨[1], .predicate "slow"⟩
  -- a single poll gets as far as waiting for the promise
  have hjournal : ((evaluateAsync .error countedAnswers (some (earlyAnswer "slow"))).run (some 1)
      0).journal = earlier ++ .called call (.deferred ⟨.bool true, 1⟩) :: [.started call] := rfl
  obtain ⟨root, hroot, hundecided⟩ :=
    (outcome_undecided_at_call .error countedAnswers (some (earlyAnswer "slow")) 0 earlier call _
      _).2 (some 1) hjournal
  cases hroot
  exact hundecided

end BooleanRules
