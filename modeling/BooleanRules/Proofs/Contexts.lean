import BooleanRules.Proofs.Places

/-!
# Trees with an open place

A context is a tree of which one evaluated position has been left open.  Filling it with a
node puts the node there and leaves the rest of the tree alone, so what is true of a node in
every context is true of it at every evaluated position of every tree.

## Main definitions

* `Context`, `Context.fill` — trees with an open place, and what they are when it is filled.
* `Context.position` — where the open place is.

## Main results

* `Context.at?_fill`, `Context.exists_fill` — **the evaluated positions of trees are the
  open places of contexts.**
-/

namespace BooleanRules

/-- A tree with one evaluated position left open. -/
inductive Context where
  /-- The root is open. -/
  | hole
  /-- The open place is at or below an operand of an operator at the root. -/
  | operand (op : Operator) (before : List Node) (inner : Context) (after : List Node)
    (rest : List (String × Node))

/-- The node of an operator over some operands. -/
def Operator.over (op : Operator) (operands : List Node) : Node := .entry op.key (.list operands)

theorem Node.operands_of_operator (op : Operator) (items : List Node)
    (rest : List (String × Node)) :
    (Node.map ((op.key, .list items) :: rest)).operands = items := by
  simp [operands]

/-- Only an operator over a list has operands. -/
theorem Node.eq_of_operands {root n : Node} {i : Nat} (h : root.operands[i]? = some n) :
    ∃ (op : Operator) (rest : _), root = .map ((op.key, .list root.operands) :: rest) := by
  match root with
  | .null | .bool _ | .number _ | .string _ | .list _ | .map [] | .predicate _ =>
    simp [operands] at h
  | .map ((key, value) :: rest) =>
    cases value with
    | list items =>
      cases hop : Operator.ofKey? key with
      | none => simp [operands, hop] at h
      | some op =>
        obtain rfl := Operator.ofKey?_eq_some_iff.mp hop
        exact ⟨op, rest, by rw [operands_of_operator]⟩
    | _ => simp [operands] at h

theorem Expr.ofNode_operator (op : Operator) (items : List Node) (rest : List (String × Node)) :
    ofNode (.map ((op.key, .list items) :: rest)) = .operator op (items.map ofNode) := by
  simp [ofNode, ofNodes_eq_map]

namespace Context

/-- The tree with `n` in the open place. -/
def fill : Context → Node → Node
  | hole, n => n
  | operand op before inner after rest, n =>
    .map ((op.key, .list (before ++ [inner.fill n] ++ after)) :: rest)

/-- Where the open place is. -/
def position : Context → Position
  | hole => []
  | operand _ before inner _ _ => before.length :: inner.position

/-- What a context is filled with stands in the open place. -/
theorem at?_fill (ctx : Context) (n : Node) : (ctx.fill n).at? ctx.position = some n := by
  induction ctx with
  | hole => rfl
  | operand op before inner after rest ih =>
    have hitem : (before ++ [inner.fill n] ++ after)[before.length]? = some (inner.fill n) := by
      simp
    rw [Node.at?, fill, position, Position.descend, Node.operands_of_operator, hitem]
    exact ih

/-- A tree with something at an evaluated position is a context filled with it. -/
theorem exists_fill {root n : Node} {p : Position} (h : root.at? p = some n) :
    ∃ ctx : Context, ctx.position = p ∧ ctx.fill n = root := by
  induction p generalizing root with
  | nil =>
    cases h
    exact ⟨hole, rfl, rfl⟩
  | cons i p ih =>
    obtain ⟨child, hchild, hat⟩ := Option.bind_eq_some_iff.mp h
    obtain ⟨inner, hposition, hfill⟩ := ih hat
    obtain ⟨op, rest, hroot⟩ := Node.eq_of_operands hchild
    obtain ⟨hi, hget⟩ := List.getElem?_eq_some_iff.mp hchild
    have hsplit : root.operands.take i ++ [child] ++ root.operands.drop (i + 1) =
        root.operands := by
      rw [← hget, List.append_assoc, List.singleton_append, ← List.drop_eq_getElem_cons hi,
        List.take_append_drop]
    refine ⟨operand op (root.operands.take i) inner (root.operands.drop (i + 1)) rest, ?_, ?_⟩
    · rw [position, hposition, List.length_take_of_le (Nat.le_of_lt hi)]
    · rw [fill, hfill, hsplit, ← hroot]

/-- A filled context with the open place below the root is an operator. -/
theorem ofNode_fill_operand (op : Operator) (before : List Node) (inner : Context)
    (after : List Node) (rest : List (String × Node)) (n : Node) :
    Expr.ofNode ((operand op before inner after rest).fill n) =
      .operator op ((before ++ [inner.fill n] ++ after).map Expr.ofNode) :=
  Expr.ofNode_operator op _ rest

end Context

end BooleanRules
