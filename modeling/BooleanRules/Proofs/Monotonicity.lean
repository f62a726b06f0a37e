import BooleanRules.Proofs.Contexts
import BooleanRules.Proofs.Evidence

/-!
# Granting more never rejects

Operators have no negation, so turning truth values from false to true can only turn answers
from false to true.  The literals at evaluated positions may be turned, and the results of
predicates and functions.  The two evaluations need not have much in common: where an operand
has become true, a disjunction stops earlier and a conjunction goes on, perhaps into an operand
that was never looked at and fails.  Then there is no answer, but there is never the answer
false in place of true.

The evidence for a true answer consists of true operands, and it stays evidence when more of
them become true.

## Main definitions

* `Value.Raised`, `Callables.Raised` — values and callables of which some became true.
* `Node.Raised` — a tree of which some literals became true.

## Main results

* `Expr.Supports.raise`, `Node.Raised.supports` — evidence for true is kept.
* `acceptance_monotone` — **what was accepted is not rejected when more is granted.**
-/

namespace BooleanRules

variable {σ : Type}

/-! ### More is true -/

/-- The value is the same, or false has become true. -/
def Value.Raised (v v' : Value) : Prop := v' = v ∨ v = .bool false ∧ v' = .bool true

theorem Value.Raised.eq_true {v v' : Value} (h : v.Raised v') (hv : v = .bool true) :
    v' = .bool true := by
  rcases h with rfl | ⟨rfl, -⟩
  · exact hv
  · cases hv

/-- Callables that give the same values, wherever they are called, except that some values
have become true.  The same names are registered. -/
structure Callables.Raised (env env' : Callables σ) : Prop where
  /-- The predicates. -/
  predicate : ∀ name s, (env.predicate name s).1.value.Raised (env'.predicate name s).1.value
  /-- The functions. -/
  function : ∀ name,
    Option.Rel (fun f f' => ∀ args s, (f args s).1.value.Raised (f' args s).1.value)
      (env.functions.get? name) (env'.functions.get? name)

theorem Callables.Raised.reach_of_call {env env' : Callables σ} (h : env.Raised env') {e : Expr}
    {callee : Callee} {f : σ → Output × σ} (hreach : env.reach e = .call callee f) :
    ∃ f', env'.reach e = .call callee f' ∧ ∀ s, (f s).1.value.Raised (f' s).1.value := by
  rcases eq_of_reach_call hreach with ⟨name, rfl, rfl, rfl⟩ | ⟨name, vs, g, rfl, hg, rfl, rfl⟩
  · exact ⟨env'.predicate name, rfl, h.predicate name⟩
  · have hrel := h.function name
    rw [function_eq_ok_iff.mp hg] at hrel
    cases hget : env'.functions.get? name with
    | none =>
      rw [hget] at hrel
      cases hrel
    | some g' =>
      rw [hget] at hrel
      cases hrel with
      | some hraised =>
        refine ⟨g' vs, ?_, hraised vs⟩
        simp only [reach, function_eq_ok_iff.mpr hget]

namespace Node

mutual

/-- The tree is the same, except that some literals at evaluated positions have become
true. -/
inductive Raised : Node → Node → Prop
  | same (n : Node) : Raised n n
  | literal : Raised (.bool false) (.bool true)
  | operator (op : Operator) (rest : List (String × Node)) {items items' : List Node}
    (operands : AllRaised items items') :
    Raised (.map ((op.key, .list items) :: rest)) (.map ((op.key, .list items') :: rest))

/-- The trees of a list are the same one by one, except that some literals have become
true. -/
inductive AllRaised : List Node → List Node → Prop
  | nil : AllRaised [] []
  | cons {n n' : Node} {ns ns' : List Node} (first : Raised n n') (rest : AllRaised ns ns') :
    AllRaised (n :: ns) (n' :: ns')

end

end Node

/-! ### Evidence for true -/

/-- Evidence for true is kept when callables give true more often. -/
theorem Expr.Supports.raise {env env' : Callables σ} (hcallables : env.Raised env') {e : Expr}
    {b : Bool} (h : e.Supports env b) (hb : b = true) : e.Supports env' b := by
  induction h with
  | literal b => exact .literal b
  | call reached given =>
    obtain ⟨f', reached', hraised⟩ := hcallables.reach_of_call reached
    subst hb
    exact .call reached' ((hraised _).eq_true given)
  | decided mem _ ih => exact .decided mem (ih hb)
  | undecided _ ih => exact .undecided fun e he => ih e he hb

mutual

/-- Evidence for true is kept when literals become true. -/
theorem Node.Raised.supports {env env' : Callables σ} (hcallables : env.Raised env')
    {n n' : Node} : n.Raised n' → (Expr.ofNode n).Supports env true →
      (Expr.ofNode n').Supports env' true
  | .same _, h => h.raise hcallables rfl
  | .literal, _ => .literal true
  | .operator op rest operands, h => by
    rw [Expr.ofNode_operator] at h ⊢
    exact h.operator_congr (AllRaised.supports hcallables operands) (List.Perm.refl _)

theorem Node.AllRaised.supports {env env' : Callables σ} (hcallables : env.Raised env')
    {ns ns' : List Node} : Node.AllRaised ns ns' →
      List.Forall₂ (fun e e' => e.Supports env true → e'.Supports env' true)
        (ns.map Expr.ofNode) (ns'.map Expr.ofNode)
  | .nil => .nil
  | .cons first rest =>
    .cons (Node.Raised.supports hcallables first) (AllRaised.supports hcallables rest)

end

/-! ### The main theorem -/

/-- **What was accepted is not rejected when more is granted.**  If an evaluation of a tree
answers true, then the evaluation of a raised tree by raised callables that are pure answers
true if it answers, without waiting and with it, and from whatever states the two begin. -/
theorem acceptance_monotone (policy : MissingRoot) {env env' : Callables σ}
    (hcallables : env.Raised env') (hpure : env'.Pure) {root root' : Node}
    (htree : root.Raised root') (s s' : σ) :
    (answerSync policy env (some root) s = .ok true →
        ∀ b, answerSync policy env' (some root') s' = .ok b → b = true) ∧
      (answerAsync policy env (some root) s = .ok true →
        ∀ b, answerAsync policy env' (some root') s' = .ok b → b = true) := by
  have hasync : answerAsync policy env (some root) s = .ok true →
      ∀ b, answerAsync policy env' (some root') s' = .ok b → b = true := by
    intro htrue b hb
    have hnull : root.isNull = root'.isNull := by cases htree <;> rfl
    rcases policy.root_congr hnull with ⟨hroot, -⟩ | ⟨hroot, hroot'⟩
    · -- an absent root is not accepted
      rw [answerAsync, Pollable.finish, evaluateAsync_of_none hroot] at htrue
      cases htrue
    · have hevidence := htree.supports hcallables (supports_of_answerAsync hroot htrue)
      exact (supports_of_answerAsync hroot' hb).unique hpure hevidence
  refine ⟨fun htrue b hb => ?_, hasync⟩
  exact hasync (answerAsync_of_answerSync htrue) b (answerAsync_of_answerSync hb)

theorem admitting_raised : (admitting false).Raised (admitting true) where
  predicate name calls := by
    by_cases hname : name = "guest"
    · exact .inr (by simp [admitting, hname, Output.value])
    · exact .inl (by simp [admitting, hname])
  function name := by
    simp only [admitting, Registry.get?_register, Registry.get?_empty]
    by_cases hname : name = "owns"
    · rw [if_pos hname, if_pos hname]
      refine .some fun args calls => ?_
      simp only [Output.value, Bool.false_or, Bool.true_or]
      split
      · exact .inl rfl
      · exact .inr ⟨rfl, rfl⟩
    · rw [if_neg hname, if_neg hname]
      exact .none

/-- With guests admitted and the embargo lifted the first conjunction accepts, which has
rejected before.  Where the evaluation now goes on to what is no expression, it fails. -/
theorem admitting_guests_accepts :
    let rule (lifted : Bool) : Node := .or
      [.and [.predicate "guest", .bool lifted], .and [.call "owns" (.string "draft"), .bool true]]
    let flawed : Node := .or [.and [.predicate "guest", .null], .predicate "owner"]
    (admitting false).Raised (admitting true) ∧ (admitting true).Pure ∧
      (rule false).Raised (rule true) ∧
      answerSync .error (admitting false) (some (rule false)) 0 = .ok true ∧
      answerSync .error (admitting true) (some (rule true)) 5 = .ok true ∧
      answerAsync .error (admitting false) (some (rule false)) 0 = .ok true ∧
      answerAsync .error (admitting true) (some (rule true)) 5 = .ok true ∧
      answerAsync .error (admitting false) (some flawed) 0 = .ok true ∧
      answerAsync .error (admitting true) (some flawed) 0 = .error (.unexpectedToken "null") := by
  intro rule flawed
  have htree : (rule false).Raised (rule true) :=
    .operator .or [] (.cons (.operator .and [] (.cons (.same _) (.cons .literal .nil)))
      (.cons (.same _) .nil))
  have hmonotone := acceptance_monotone .error admitting_raised (admitting_pure true) htree 0 5
  have hsync : answerSync .error (admitting false) (some (rule false)) 0 = .ok true := rfl
  have hasync : answerAsync .error (admitting false) (some (rule false)) 0 = .ok true := rfl
  -- the evaluations with guests do answer, and the theorem says what
  have hsync' : ∃ b, answerSync .error (admitting true) (some (rule true)) 5 = .ok b := ⟨_, rfl⟩
  have hasync' : ∃ b, answerAsync .error (admitting true) (some (rule true)) 5 = .ok b :=
    ⟨_, rfl⟩
  obtain ⟨b, hb⟩ := hsync'
  obtain ⟨b', hb'⟩ := hasync'
  obtain rfl := hmonotone.1 hsync b hb
  obtain rfl := hmonotone.2 hasync b' hb'
  exact ⟨admitting_raised, admitting_pure true, htree, hsync, hb, hasync, hb', rfl, rfl⟩

end BooleanRules
