import BooleanRules.Proofs.Visits

/-!
# Where things happen

All that happens during the evaluation of an expression happens at its position or
below it, and what happens for the operands of an operator happens below the places
of the operands that were left.  So the events of one operand are never events of
another (`Position.apart`).

## Main definitions

* `Event.position` — where an event happens.
* `Journal.Under`, `Journal.UnderFrom` — all events happen at or below a position,
  and below the operands from the `i`-th on.
* `Journal.EntersFirst` — a call is made where the evaluation has entered.

## Main results

* `Async.under_evaluate`, `Async.under_evaluateOperands` — the asynchronous
  evaluation, polled to its end.
* `Async.entersFirst` — it calls nothing that it has not entered.
-/

namespace BooleanRules

variable {σ : Type}

/-- Where an event happens. -/
def Event.position : Event → Position
  | .visited p => p
  | .called call _ => call.position
  | .started call => call.position
  | .finished call => call.position

namespace Journal

/-- All events happen at `p` or below. -/
def Under (p : Position) (j : Journal) : Prop := ∀ ev ∈ j, p <+: ev.position

/-- All events happen at an operand of `p` from the `i`-th on, or below it. -/
def UnderFrom (p : Position) (i : Nat) (j : Journal) : Prop :=
  ∀ ev ∈ j, ∃ k, i ≤ k ∧ p ++ [k] <+: ev.position

variable {p : Position} {i : Nat} {j k : Journal}

theorem underFrom_nil (p : Position) (i : Nat) : UnderFrom p i [] := by
  intro ev hev
  cases hev

theorem Under.underFrom (h : Under (p ++ [i]) j) : UnderFrom p i j :=
  fun ev hev => ⟨i, Nat.le_refl i, h ev hev⟩

/-- What happens for an operand and then for the operands after it. -/
theorem Under.append (hj : Under (p ++ [i]) j) (hk : UnderFrom p (i + 1) k) :
    UnderFrom p i (j ++ k) := by
  intro ev hev
  rcases List.mem_append.mp hev with h | h
  · exact ⟨i, Nat.le_refl i, hj ev h⟩
  · obtain ⟨n, hn, hpos⟩ := hk ev h
    exact ⟨n, Nat.le_of_succ_le hn, hpos⟩

/-- What happens for operands happens below their operator. -/
theorem UnderFrom.under (h : UnderFrom p i j) : Under p j := by
  intro ev hev
  obtain ⟨n, -, hpos⟩ := h ev hev
  exact (List.prefix_append p [n]).trans hpos

theorem Under.of_isPrefix (hk : Under p k) (h : j <+: k) : Under p j :=
  fun ev hev => hk ev (h.subset hev)

theorem UnderFrom.of_isPrefix (hk : UnderFrom p i k) (h : j <+: k) : UnderFrom p i j :=
  fun ev hev => hk ev (h.subset hev)

theorem under_cons_visited (h : Under p j) : Under p (.visited p :: j) := by
  intro ev hev
  rcases List.mem_cons.mp hev with rfl | hev
  · exact List.prefix_rfl
  · exact h ev hev

/-- What waiting for the result of a call leaves, happens where the call is. -/
theorem under_waits (call : Call) (o : Output) : Under call.position (o.waits call) := by
  intro ev hev
  cases o with
  | ready v => cases hev
  | deferred promise =>
    simp only [Output.waits, List.mem_cons, List.not_mem_nil, or_false] at hev
    rcases hev with rfl | rfl <;> exact List.prefix_rfl

/-- Waiting calls nothing. -/
theorem called_notMem_waits (call : Call) (o : Output) (call' : Call) (o' : Output) :
    Event.called call' o' ∉ o.waits call := by
  intro h
  cases o <;> simp [Output.waits] at h

/-- Before a call something may have been entered. -/
theorem eq_cons_of_called {p : Position} {j earlier later : Journal} {call : Call} {o : Output}
    (h : .visited p :: j = earlier ++ .called call o :: later) :
    ∃ between, earlier = .visited p :: between ∧ j = between ++ .called call o :: later := by
  cases earlier with
  | nil => cases h
  | cons ev between =>
    rw [List.cons_append, List.cons.injEq] at h
    obtain ⟨rfl, h⟩ := h
    exact ⟨between, rfl, h⟩

theorem visited_ne_called (p : Position) {earlier later : Journal} {call : Call} {o : Output} :
    [.visited p] ≠ earlier ++ .called call o :: later := by
  intro h
  obtain ⟨between, -, hnil⟩ := eq_cons_of_called h
  simp at hnil

/-- The one call of a leaf is made right after the leaf is entered. -/
theorem eq_of_called_leaf {p : Position} {last call : Call} {o o' : Output}
    {rest earlier later : Journal} (hrest : ∀ call o, .called call o ∉ rest)
    (h : .visited p :: .called last o' :: rest = earlier ++ .called call o :: later) :
    earlier = [.visited p] ∧ last = call := by
  obtain ⟨between, rfl, hcall⟩ := eq_cons_of_called h
  cases between with
  | nil => cases hcall; exact ⟨rfl, rfl⟩
  | cons ev between =>
    have heq : rest = between ++ .called call o :: later := (List.cons.inj hcall).2
    have hmem : .called call o ∈ rest := by
      rw [heq]
      exact List.mem_append_right _ List.mem_cons_self
    exact absurd hmem (hrest call o)

/-- What has happened before a moment stays what it is when more happens afterwards. -/
theorem exists_later_of_isPrefix {j k earlier later : Journal} {ev : Event} (h : j <+: k)
    (hj : j = earlier ++ ev :: later) : ∃ later', k = earlier ++ ev :: later' := by
  obtain ⟨rest, rfl⟩ := h
  refine ⟨later ++ rest, ?_⟩
  rw [hj, List.append_assoc, List.cons_append]

/-- Each call is made at a position entered before. -/
def EntersFirst (j : Journal) : Prop :=
  ∀ (earlier : Journal) call o later, j = earlier ++ .called call o :: later →
    call.position ∈ earlier.entered

theorem entersFirst_of_no_call (h : ∀ call o, .called call o ∉ j) : EntersFirst j := by
  rintro earlier call o later rfl
  exact absurd (List.mem_append_right _ List.mem_cons_self) (h call o)

theorem EntersFirst.append (hj : EntersFirst j) (hk : EntersFirst k) : EntersFirst (j ++ k) := by
  intro earlier call o later h
  rcases split_append h with ⟨rest, hrest, -⟩ | ⟨between, rfl, hbetween⟩
  · exact hj earlier call o rest hrest
  · rw [entered_append]
    exact List.mem_append_right _ (hk between call o later hbetween)

theorem EntersFirst.of_isPrefix (hk : EntersFirst k) (h : j <+: k) : EntersFirst j := by
  intro earlier call o later hj
  obtain ⟨later', hk'⟩ := exists_later_of_isPrefix h hj
  exact hk earlier call o later' hk'

theorem entersFirst_visited (p : Position) : EntersFirst [.visited p] :=
  entersFirst_of_no_call fun call o h => by simp at h

/-- A leaf is entered, called, and perhaps waited for. -/
theorem entersFirst_call (call : Call) (o : Output) :
    EntersFirst (.visited call.position :: .called call o :: o.waits call) := by
  intro earlier call' o' later h
  obtain ⟨rfl, rfl⟩ := eq_of_called_leaf (called_notMem_waits call o) h
  exact List.mem_singleton_self _

end Journal

/-- Places below different operands are different. -/
theorem Position.apart {p q : Position} {i k : Nat} (hi : p ++ [i] <+: q) (hk : p ++ [k] <+: q) :
    i = k := by
  obtain ⟨r, rfl⟩ := hi
  obtain ⟨r', h⟩ := hk
  simp only [List.append_assoc, List.singleton_append, List.append_cancel_left_eq,
    List.cons.injEq] at h
  exact h.1.symm

/-- No place is below its own operands. -/
theorem Position.not_prefix_self (p : Position) (i : Nat) : ¬ p ++ [i] <+: p := by
  intro h
  have hlen := h.length_le
  rw [List.length_append, List.length_singleton] at hlen
  omega

namespace Async

/-- **Induction over the journals of an evaluation** polled to its end, at any
position: what is entered, called, and left by the operands one after the other. -/
theorem journal_induct (env : Callables σ) {P : Position → Journal → Prop}
    {Q : Position → Nat → Journal → Prop}
    (enter : ∀ p, P p [.visited p])
    (call : ∀ call o, P call.position (.visited call.position :: .called call o :: o.waits call))
    (operator : ∀ p j, Q p 0 j → P p (.visited p :: j))
    (nil : ∀ p i, Q p i [])
    (stop : ∀ p i j, P (p ++ [i]) j → Q p i j)
    (append : ∀ p i j k, P (p ++ [i]) j → Q p (i + 1) k → Q p i (j ++ k)) :
    (∀ e p s, P p ((evaluate env p e).finish s).journal) ∧
      ∀ es op p i s, Q p i ((evaluateOperands env op p i es).finish s).journal := by
  refine env.induct ?_ ?_ ?_ ?_ ?_ ?_
  · intro b p s
    exact enter p
  · intro e callee f h p s
    rw [finish_evaluate_of_call h]
    exact call ⟨p, callee⟩ (f s).1
  · intro e error h p s
    rw [finish_evaluate_of_fault h]
    exact enter p
  · intro op es ih p s
    rw [finish_evaluate_operator]
    exact operator p _ (ih op p 0 s)
  · intro op p i s
    exact nil p i
  · intro e es ihe ihes op p i s
    have hfirst := ihe (p ++ [i]) s
    rcases op.cases_of_result ((evaluate env (p ++ [i]) e).finish s).result with
      ⟨error, h⟩ | h | h
    · rw [finish_evaluateOperands_cons_of_error es h]
      exact stop p i _ hfirst
    · rw [finish_evaluateOperands_cons_of_decided es h]
      exact stop p i _ hfirst
    · rw [finish_evaluateOperands_cons_of_undecided es h]
      exact append p i _ _ hfirst (ihes op p (i + 1) _)

/-- **All that happens happens at or below the position of the expression.** -/
theorem under (env : Callables σ) :
    (∀ e p s, ((evaluate env p e).finish s).journal.Under p) ∧
      ∀ es op p i s, ((evaluateOperands env op p i es).finish s).journal.UnderFrom p i := by
  refine journal_induct env ?_ ?_ ?_ Journal.underFrom_nil ?_ ?_
  · intro p ev hev
    rw [List.mem_singleton.mp hev]
    exact List.prefix_rfl
  · intro call o
    refine Journal.under_cons_visited fun ev hev => ?_
    rcases List.mem_cons.mp hev with rfl | hev
    · exact List.prefix_rfl
    · exact Journal.under_waits call o ev hev
  · intro p j h
    exact Journal.under_cons_visited h.under
  · intro p i j h
    exact h.underFrom
  · intro p i j k hj hk
    exact hj.append hk

theorem under_evaluate (env : Callables σ) (e : Expr) (p : Position) (s : σ) :
    ((evaluate env p e).finish s).journal.Under p :=
  (under env).1 e p s

theorem under_evaluateOperands (env : Callables σ) (es : List Expr) (op : Operator) (p : Position)
    (i : Nat) (s : σ) : ((evaluateOperands env op p i es).finish s).journal.UnderFrom p i :=
  (under env).2 es op p i s

/-- **Nothing is called that has not been entered.** -/
theorem entersFirst (env : Callables σ) :
    (∀ e p s, ((evaluate env p e).finish s).journal.EntersFirst) ∧
      ∀ es op p i s, ((evaluateOperands env op p i es).finish s).journal.EntersFirst := by
  refine journal_induct env (P := fun _ j => j.EntersFirst) (Q := fun _ _ j => j.EntersFirst)
    Journal.entersFirst_visited Journal.entersFirst_call ?_ ?_ ?_ ?_
  · intro p j h
    exact (Journal.entersFirst_visited p).append h
  · intro p i
    exact Journal.entersFirst_of_no_call fun call o h => by cases h
  · intro p i j h
    exact h
  · intro p i j k hj hk
    exact hj.append hk

end Async

end BooleanRules
