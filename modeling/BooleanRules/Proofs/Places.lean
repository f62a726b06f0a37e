import BooleanRules.Proofs.Positions

/-!
# What stands at a position

The evaluated positions of a tree are the root and the items of a list that the
first entry of an evaluated map holds under the key of an operator.  Nothing else of
the tree is ever evaluated: not the arguments of functions, not the entries after
the first, not what an operator has in place of a list.

Positions are compared as lists of numbers.  Of two positions of which neither is
above the other, the smaller one stands further to the left in the document.

## Main definitions

* `Node.at?`, `Expr.at?` — the node at an evaluated position, and the expression.
* `Expr.OperandsAt` — some expressions are the operands of a position, from the
  `i`-th on.
* `Event.Placed` — an event happens where something stands, and a call is made where
  the call stands.

## Main results

* `Expr.at?_ofNode` — the expression at a position is the one of the node there.
* `Position.lt_of_operands` — places below an earlier operand come first.
* `Async.placed` — all events are placed.
-/

namespace BooleanRules

variable {σ : Type}

namespace Position

variable {α β : Type}

/-- What stands at a position, where `operands` says what stands right below. -/
def descend (operands : α → List α) : α → Position → Option α
  | a, [] => some a
  | a, i :: p => ((operands a)[i]?).bind fun b => descend operands b p

/-- What stands at an operand of a position is an operand of what stands there. -/
theorem descend_snoc (operands : α → List α) (a : α) (p : Position) (i : Nat) :
    descend operands a (p ++ [i]) = (descend operands a p).bind fun b => (operands b)[i]? := by
  induction p generalizing a with
  | nil => simp [descend]
  | cons k p ih => simp only [List.cons_append, descend, Option.bind_assoc, ih]

theorem descend_map {operands : α → List α} {operands' : β → List β} {f : β → α}
    (h : ∀ b, operands (f b) = (operands' b).map f) (b : β) (p : Position) :
    descend operands (f b) p = (descend operands' b p).map f := by
  induction p generalizing b with
  | nil => rfl
  | cons i p ih =>
    simp only [descend, h, List.getElem?_map]
    cases (operands' b)[i]? with
    | none => rfl
    | some b' => exact ih b'

/-- What is below an operand comes before what is below a later one. -/
theorem lt_of_operands {p q q' : Position} {i k : Nat} (hq : p ++ [i] <+: q)
    (hq' : p ++ [k] <+: q') (hlt : i < k) : q < q' := by
  obtain ⟨r, rfl⟩ := hq
  obtain ⟨r', rfl⟩ := hq'
  induction p with
  | nil => exact List.Lex.rel hlt
  | cons n p ih => exact List.Lex.cons ih

end Position

/-! ### Nodes and expressions at positions -/

namespace Node

/-- The items of the list that the first entry holds under the key of an operator. -/
def operands : Node → List Node
  | .map ((key, .list items) :: _) => if (Operator.ofKey? key).isSome then items else []
  | _ => []

/-- The node at an evaluated position below `root`. -/
def at? (root : Node) (p : Position) : Option Node := Position.descend operands root p

end Node

namespace Expr

/-- The operands of an expression. -/
def operands : Expr → List Expr
  | .operator _ es => es
  | _ => []

/-- The expression at a position below `root`. -/
def at? (root : Expr) (p : Position) : Option Expr := Position.descend operands root p

theorem at?_snoc (root : Expr) (p : Position) (i : Nat) :
    root.at? (p ++ [i]) = (root.at? p).bind fun e => e.operands[i]? :=
  Position.descend_snoc operands root p i

theorem operands_ofNode (n : Node) : (ofNode n).operands = n.operands.map ofNode := by
  match n with
  | .null | .bool _ | .number _ | .string _ | .list _ | .map [] | .predicate _ => rfl
  | .map ((key, value) :: rest) =>
    cases hop : Operator.ofKey? key with
    | some op =>
      cases value <;> simp [ofNode, KeyRole.ofKey, hop, operands, Node.operands, ofNodes_eq_map]
    | none =>
      cases value <;> cases hsigil : hasSigil key <;>
        simp [ofNode, KeyRole.ofKey, hop, hsigil, operands, Node.operands]

/-- The expression at a position is the one of the node there. -/
theorem at?_ofNode (root : Node) (p : Position) :
    (ofNode root).at? p = (root.at? p).map ofNode :=
  Position.descend_map operands_ofNode root p

theorem at?_ofNode_eq_some_iff {root : Node} {p : Position} {e : Expr} :
    (ofNode root).at? p = some e ↔ ∃ n, root.at? p = some n ∧ ofNode n = e := by
  rw [at?_ofNode, Option.map_eq_some_iff]

/-- The expressions `es` are the operands of `p` from the `i`-th on. -/
def OperandsAt (root : Expr) (p : Position) (i : Nat) (es : List Expr) : Prop :=
  ∀ k e, es[k]? = some e → root.at? (p ++ [i + k]) = some e

namespace OperandsAt

variable {root e : Expr} {es : List Expr} {op : Operator} {p : Position} {i : Nat}

theorem of_operator (h : root.at? p = some (.operator op es)) : root.OperandsAt p 0 es := by
  intro k e hk
  rw [at?_snoc, h, Nat.zero_add]
  exact hk

theorem head (h : root.OperandsAt p i (e :: es)) : root.at? (p ++ [i]) = some e :=
  h 0 e rfl

theorem tail (h : root.OperandsAt p i (e :: es)) : root.OperandsAt p (i + 1) es := by
  intro k e' hk
  have hnext := h (k + 1) e' hk
  rwa [show i + 1 + k = i + (k + 1) by omega]

end OperandsAt

end Expr

/-! ### Events in their places -/

/-- An event happens where an expression of `root` stands, and what is called and
what the call gives is the doing of the expression there. -/
structure Event.Placed (env : Callables σ) (root : Expr) (ev : Event) : Prop where
  /-- Something stands there. -/
  exists_at : ∃ e, root.at? ev.position = some e
  /-- A call is made where it stands. -/
  called : ∀ call o, ev = .called call o → ∃ e f s, root.at? call.position = some e ∧
    env.reach e = .call call.callee f ∧ o = (f s).1

theorem Event.Placed.of_position {env : Callables σ} {root e : Expr} {ev : Event}
    (h : root.at? ev.position = some e) (hcall : ∀ call o, ev ≠ .called call o) :
    ev.Placed env root :=
  ⟨⟨e, h⟩, fun call o heq => absurd heq (hcall call o)⟩

namespace Async

/-- **All events are placed.** -/
theorem placed (env : Callables σ) (root : Expr) :
    (∀ e p s, root.at? p = some e →
        ∀ ev ∈ ((evaluate env p e).finish s).journal, ev.Placed env root) ∧
      ∀ es op p i s, root.OperandsAt p i es →
        ∀ ev ∈ ((evaluateOperands env op p i es).finish s).journal, ev.Placed env root := by
  have hvisited : ∀ {e p}, root.at? p = some e → (Event.visited p).Placed env root := by
    intro e p hat
    exact .of_position (by exact hat) fun call o h => by cases h
  refine env.induct ?_ ?_ ?_ ?_ ?_ ?_
  · intro b p s hat ev hev
    obtain rfl := List.mem_singleton.mp hev
    exact hvisited hat
  · intro e callee f hreach p s hat ev hev
    rw [finish_evaluate_of_call hreach] at hev
    rcases List.mem_cons.mp hev with rfl | hev
    · exact hvisited hat
    rcases List.mem_cons.mp hev with rfl | hev
    · refine ⟨⟨e, hat⟩, fun call o heq => ?_⟩
      cases heq
      exact ⟨e, f, s, hat, hreach, rfl⟩
    · -- waiting happens where the call is
      cases ho : (f s).1 with
      | ready v => rw [ho] at hev; cases hev
      | deferred promise =>
        simp only [ho, Output.waits, List.mem_cons, List.not_mem_nil, or_false] at hev
        rcases hev with rfl | rfl
        · exact .of_position (by exact hat) fun call o h => by cases h
        · exact .of_position (by exact hat) fun call o h => by cases h
  · intro e error hreach p s hat ev hev
    rw [finish_evaluate_of_fault hreach] at hev
    obtain rfl := List.mem_singleton.mp hev
    exact hvisited hat
  · intro op es ih p s hat ev hev
    rw [finish_evaluate_operator] at hev
    rcases List.mem_cons.mp hev with rfl | hev
    · exact hvisited hat
    · exact ih op p 0 s (.of_operator hat) ev hev
  · intro op p i s hat ev hev
    cases hev
  · intro e es ihe ihes op p i s hat ev hev
    have hfirst := ihe (p ++ [i]) s hat.head ev
    rcases op.cases_of_result ((evaluate env (p ++ [i]) e).finish s).result with
      ⟨error, h⟩ | h | h
    · rw [finish_evaluateOperands_cons_of_error es h] at hev
      exact hfirst hev
    · rw [finish_evaluateOperands_cons_of_decided es h] at hev
      exact hfirst hev
    · rw [finish_evaluateOperands_cons_of_undecided es h] at hev
      rcases List.mem_append.mp hev with hev | hev
      · exact hfirst hev
      · exact ihes op p (i + 1) _ hat.tail ev hev

end Async

end BooleanRules
