import BooleanRules.Proofs.Positions

/-!
# Plain formulas

What an expression means without an order of evaluation: a conjunction is true if
all its operands are, a disjunction if some operand is, and none is skipped.  What an
evaluation has not found out yet is a variable, named by its position.

A journal turns an expression into such a formula (`Expr.observed`): literals that
were entered stand for themselves, calls for the truth values they gave, and an
operand that was not entered is a variable, whatever it looks like.  The formula of
an operand depends on what happened at and below its position only
(`Expr.observed_congr`).

## Main definitions

* `Formula`, `Formula.value`, `Formula.vars` — formulas, their value under an
  assignment, and their variables.
* `Journal.given?` — the truth value that the call at a position gave.
* `Expr.observed` — the formula of an expression, as far as a journal has it.

## Main results

* `Formula.value_junction_cons` — the value of an operator by its first operand.
* `Formula.value_congr` — the value depends on the variables of the formula.
* `Expr.observed_congr`, `Expr.prefix_of_mem_vars` — formulas are local.
-/

namespace BooleanRules

/-! ### Formulas and their values -/

/-- A plain formula. -/
inductive Formula where
  /-- A truth value. -/
  | const (b : Bool)
  /-- What stands at a position, which is not known. -/
  | var (p : Position)
  /-- A conjunction or a disjunction. -/
  | junction (op : Operator) (operands : List Formula)

namespace Formula

mutual

/-- The value of a formula under an assignment of truth values to positions. -/
def value (α : Position → Bool) : Formula → Bool
  | .const b => b
  | .var p => α p
  | .junction .and fs => allTrue α fs
  | .junction .or fs => someTrue α fs

/-- All formulas are true. -/
def allTrue (α : Position → Bool) : List Formula → Bool
  | [] => true
  | f :: fs => f.value α && allTrue α fs

/-- Some formula is true. -/
def someTrue (α : Position → Bool) : List Formula → Bool
  | [] => false
  | f :: fs => f.value α || someTrue α fs

end

mutual

/-- The variables of a formula. -/
def vars : Formula → List Position
  | .const _ => []
  | .var p => [p]
  | .junction _ fs => varsOf fs

/-- The variables of some formulas. -/
def varsOf : List Formula → List Position
  | [] => []
  | f :: fs => f.vars ++ varsOf fs

end

variable {α β : Position → Bool} {op : Operator} {f : Formula} {fs : List Formula}

theorem value_and (α : Position → Bool) (fs : List Formula) :
    (junction .and fs).value α = fs.all (value α) := by
  simp only [value]
  induction fs with
  | nil => rfl
  | cons f fs ih => rw [allTrue, ih, List.all_cons]

theorem value_or (α : Position → Bool) (fs : List Formula) :
    (junction .or fs).value α = fs.any (value α) := by
  simp only [value]
  induction fs with
  | nil => rfl
  | cons f fs ih => rw [someTrue, ih, List.any_cons]

@[simp] theorem value_junction_nil (α : Position → Bool) (op : Operator) :
    (junction op []).value α = op.fallthroughValue := by
  cases op <;> rfl

/-- An operand of the deciding value gives an operator this value, and any other
operand changes nothing. -/
theorem value_junction_cons (α : Position → Bool) (op : Operator) (f : Formula)
    (fs : List Formula) :
    (junction op (f :: fs)).value α =
      if f.value α = op.decidingValue then op.decidingValue else (junction op fs).value α := by
  cases op with
  | and =>
    rw [value_and, value_and, List.all_cons]
    cases f.value α <;> rfl
  | or =>
    rw [value_or, value_or, List.any_cons]
    cases f.value α <;> rfl

theorem value_junction_cons_of_decided (h : f.value α = op.decidingValue) :
    (junction op (f :: fs)).value α = op.decidingValue := by
  rw [value_junction_cons, if_pos h]

theorem value_junction_cons_of_undecided (h : f.value α = op.fallthroughValue) :
    (junction op (f :: fs)).value α = (junction op fs).value α := by
  rw [value_junction_cons, h, if_neg op.fallthroughValue_ne]

mutual

/-- The value of a formula depends on its variables only. -/
theorem value_congr : ∀ f : Formula, (∀ q ∈ f.vars, α q = β q) → f.value α = f.value β
  | .const _, _ => rfl
  | .var p, h => h p (List.mem_singleton_self p)
  | .junction op fs, h => value_junction_congr op fs h

theorem value_junction_congr (op : Operator) : ∀ fs : List Formula,
    (∀ q ∈ varsOf fs, α q = β q) → (junction op fs).value α = (junction op fs).value β
  | [], _ => by rw [value_junction_nil, value_junction_nil]
  | f :: fs, h => by
    have hf := value_congr f fun q hq => h q (List.mem_append_left _ hq)
    have hfs := value_junction_congr op fs fun q hq => h q (List.mem_append_right _ hq)
    rw [value_junction_cons, value_junction_cons, hf, hfs]

end

end Formula

/-! ### What a journal knows -/

/-- The truth value that a value is. -/
def Value.truth? : Value → Option Bool
  | .bool b => some b
  | _ => none

/-- The truth value that an event gives the call at `p`. -/
def Event.given? (p : Position) : Event → Option Bool
  | .called call o => if call.position = p then o.value.truth? else none
  | _ => none

namespace Journal

/-- The truth value that the call at `p` gave. -/
def given? (j : Journal) (p : Position) : Option Bool := j.findSome? (Event.given? p)

/-- The journals `j` and `k` know the same about the places at and below `p`. -/
def AgreeUnder (p : Position) (j k : Journal) : Prop :=
  ∀ q, p <+: q → (q ∈ j.entered ↔ q ∈ k.entered) ∧ j.given? q = k.given? q

/-- Nothing happens at `p` or below. -/
def Off (p : Position) (j : Journal) : Prop := ∀ ev ∈ j, ¬ p <+: ev.position

variable {p q : Position} {i n : Nat} {j k : Journal}

theorem Off.notMem_entered (h : Off p j) (hq : p <+: q) : q ∉ j.entered := by
  intro hmem
  exact h _ (mem_entered.mp hmem) hq

theorem Off.given?_eq_none (h : Off p j) (hq : p <+: q) : j.given? q = none := by
  rw [given?, List.findSome?_eq_none_iff]
  intro ev hev
  cases ev with
  | called call o =>
    refine if_neg fun hcall => h _ hev ?_
    rw [Event.position, hcall]
    exact hq
  | _ => rfl

theorem given?_append (j k : Journal) (p : Position) :
    (j ++ k).given? p = (j.given? p).or (k.given? p) := by
  rw [given?, List.findSome?_append]
  rfl

/-- A call that gives a truth value makes it known. -/
theorem given?_cons_called (call : Call) {o : Output} {b : Bool} (h : o.value = .bool b)
    (j : Journal) : given? (.called call o :: j) call.position = some b := by
  have hgiven : Event.given? call.position (.called call o) = some b := by
    rw [Event.given?, if_pos rfl, h, Value.truth?]
  rw [given?, List.findSome?_cons, hgiven]

/-- What happens elsewhere afterwards is not seen. -/
theorem agreeUnder_append_left (h : Off p k) : AgreeUnder p (j ++ k) j := by
  intro q hq
  refine ⟨?_, ?_⟩
  · rw [entered_append, List.mem_append]
    exact or_iff_left (h.notMem_entered hq)
  · rw [given?_append, h.given?_eq_none hq, Option.or_none]

/-- What happened elsewhere before is not seen. -/
theorem agreeUnder_append_right (h : Off p j) : AgreeUnder p (j ++ k) k := by
  intro q hq
  refine ⟨?_, ?_⟩
  · rw [entered_append, List.mem_append]
    exact or_iff_right (h.notMem_entered hq)
  · rw [given?_append, h.given?_eq_none hq, Option.none_or]

/-- What happens for an operand is off the others. -/
theorem Under.off (h : Under (p ++ [i]) j) (hne : i ≠ n) : Off (p ++ [n]) j :=
  fun ev hev hn => hne (Position.apart (h ev hev) hn)

theorem UnderFrom.off (h : UnderFrom p i j) (hlt : n < i) : Off (p ++ [n]) j := by
  intro ev hev hn
  obtain ⟨k, hk, hpos⟩ := h ev hev
  have heq := Position.apart hpos hn
  omega

theorem off_visited (p : Position) (n : Nat) : Off (p ++ [n]) [.visited p] := by
  intro ev hev
  rw [List.mem_singleton.mp hev]
  exact Position.not_prefix_self p n

/-- The formula `f` of a place if it was entered; otherwise the place is a variable. -/
def ifEntered (j : Journal) (p : Position) (f : Formula) : Formula :=
  if p ∈ j.entered then f else .var p

/-- The formula of a place where something is called. -/
def formulaOfCall (j : Journal) (p : Position) : Formula :=
  match j.given? p with
  | some b => .const b
  | none => .var p

theorem mem_vars_ifEntered {f : Formula} (h : q ∈ (j.ifEntered p f).vars) : q ∈ f.vars ∨ q = p := by
  unfold ifEntered at h
  split at h
  · exact .inl h
  · exact .inr (List.mem_singleton.mp h)

theorem eq_of_mem_vars_formulaOfCall (h : q ∈ (j.formulaOfCall p).vars) : q = p := by
  unfold formulaOfCall at h
  split at h
  · cases h
  · exact List.mem_singleton.mp h

end Journal

/-! ### The formula of an expression -/

namespace Expr

mutual

/-- The formula of the expression at `p`, as far as a journal has it. -/
def observed (j : Journal) (p : Position) : Expr → Formula
  | .literal b => j.ifEntered p (.const b)
  | .operator op es => j.ifEntered p (.junction op (observedOperands j p 0 es))
  | .predicate _ => j.ifEntered p (j.formulaOfCall p)
  | .function _ _ => j.ifEntered p (j.formulaOfCall p)
  | .invalid _ => j.ifEntered p (j.formulaOfCall p)

/-- The formulas of the operands of `p` from the `i`-th on. -/
def observedOperands (j : Journal) (p : Position) (i : Nat) : List Expr → List Formula
  | [] => []
  | e :: es => observed j (p ++ [i]) e :: observedOperands j p (i + 1) es

end

/-- A place that was not entered is a variable. -/
theorem observed_of_notMem {j : Journal} {p : Position} (h : p ∉ j.entered) (e : Expr) :
    observed j p e = .var p := by
  cases e <;> exact if_neg h

mutual

/-- The formula of an expression depends on what happened at its place and below. -/
theorem observed_congr {j k : Journal} : ∀ (e : Expr) {p : Position}, j.AgreeUnder p k →
    observed j p e = observed k p e
  | .literal b, p, h => by
    simp only [observed, Journal.ifEntered, (h p List.prefix_rfl).1]
  | .operator op es, p, h => by
    have hops := observedOperands_congr es (i := 0) fun n _ q hq =>
      h q ((List.prefix_append p [n]).trans hq)
    simp only [observed, Journal.ifEntered, (h p List.prefix_rfl).1, hops]
  | .predicate _, p, h | .function _ _, p, h | .invalid _, p, h => by
    simp only [observed, Journal.ifEntered, Journal.formulaOfCall, (h p List.prefix_rfl).1,
      (h p List.prefix_rfl).2]

theorem observedOperands_congr {j k : Journal} : ∀ (es : List Expr) {p : Position} {i : Nat},
    (∀ n, i ≤ n → j.AgreeUnder (p ++ [n]) k) →
      observedOperands j p i es = observedOperands k p i es
  | [], _, _, _ => rfl
  | e :: es, p, i, h => by
    rw [observedOperands, observedOperands, observed_congr e (h i (Nat.le_refl i)),
      observedOperands_congr es fun n hn => h n (Nat.le_of_succ_le hn)]

end

mutual

/-- The variables of the formula of an expression are at its place or below. -/
theorem prefix_of_mem_vars {j : Journal} {q : Position} : ∀ (e : Expr) {p : Position},
    q ∈ (observed j p e).vars → p <+: q
  | .literal b, p, h => by
    rcases Journal.mem_vars_ifEntered h with h | rfl
    · cases h
    · exact List.prefix_rfl
  | .operator op es, p, h => by
    rcases Journal.mem_vars_ifEntered h with h | rfl
    · obtain ⟨n, -, hq⟩ := prefix_of_mem_varsOf es h
      exact (List.prefix_append p [n]).trans hq
    · exact List.prefix_rfl
  | .predicate _, p, h | .function _ _, p, h | .invalid _, p, h => by
    rcases Journal.mem_vars_ifEntered h with h | rfl
    · obtain rfl := Journal.eq_of_mem_vars_formulaOfCall h
      exact List.prefix_rfl
    · exact List.prefix_rfl

theorem prefix_of_mem_varsOf {j : Journal} {q : Position} : ∀ (es : List Expr) {p : Position}
    {i : Nat}, q ∈ Formula.varsOf (observedOperands j p i es) → ∃ n, i ≤ n ∧ p ++ [n] <+: q
  | [], _, _, h => by cases h
  | e :: es, p, i, h => by
    rcases List.mem_append.mp h with h | h
    · exact ⟨i, Nat.le_refl i, prefix_of_mem_vars e h⟩
    · obtain ⟨n, hn, hq⟩ := prefix_of_mem_varsOf es h
      exact ⟨n, Nat.le_of_succ_le hn, hq⟩

end

end Expr

end BooleanRules
