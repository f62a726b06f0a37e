import BooleanRules.Proofs.Contexts
import BooleanRules.Proofs.Conversion
import BooleanRules.Proofs.Sequence

/-!
# Only the first entry of a map counts

What a map means is told by its first entry, so the other entries can be dropped from every
map at an evaluated position, and nothing an evaluation does will tell: no result, no error
and no text of one, no call and no argument.  The line is drawn at what is evaluated.
The arguments of functions are data and not trimmed, nor is what an operator has in place of
a list, and functions receive all the entries that stand in their arguments.

## Main definitions

* `Node.trim` — the tree with the first entries only, at the evaluated positions.
* `ArgumentsReach` — functions receive what stands in a tree, trimmed or not.

## Main results

* `Expr.ofNode_trim` — a trimmed tree means the same.
* `Node.at?_trim` — trimming goes through positions.
* `first_entries_count` — **only the first entries count, and the arguments are whole.**
-/

namespace BooleanRules

variable {σ : Type}

/-! ### Trimmed trees -/

namespace Node

mutual

/-- The tree without the later entries of the maps at evaluated positions.  Under the key of an
operator the items of a list are trimmed too; what is under any other key stays whole. -/
def trim : Node → Node
  | .map ((key, value) :: _) =>
    match Operator.ofKey? key with
    | some _ => .map [(key, value.trimItems)]
    | none => .map [(key, value)]
  | n => n

/-- The trimmed trees of the items of a list; anything else stays what it is. -/
def trimItems : Node → Node
  | .list items => .list (trims items)
  | n => n

/-- The trimmed trees of a list. -/
def trims : List Node → List Node
  | [] => []
  | n :: ns => n.trim :: trims ns

end

-- the second entry of the operator goes, and so does that of its operand, but not the ones
-- of the arguments
example :
    let args : Node := .map [("a", .null), ("b", .null)]
    trim (.map [("$or", .list [.map [("f", args), ("k", .null)]]), ("$and", .list [])]) =
      .map [("$or", .list [.map [("f", args)]])] := rfl

theorem trims_eq_map (ns : List Node) : trims ns = ns.map trim := by
  induction ns with
  | nil => rfl
  | cons n ns ih => rw [trims, ih, List.map_cons]

/-- The operands of a trimmed tree are the trimmed operands. -/
theorem operands_trim (n : Node) : n.trim.operands = n.operands.map trim := by
  match n with
  | .null | .bool _ | .number _ | .string _ | .list _ | .map [] | .predicate _ => rfl
  | .map ((key, value) :: rest) =>
    cases hop : Operator.ofKey? key <;> cases value <;>
      simp [trim, hop, trimItems, operands, trims_eq_map]

/-- What stands in a trimmed tree is the trimmed node that stands in the tree. -/
theorem at?_trim (root : Node) (p : Position) : root.trim.at? p = (root.at? p).map trim :=
  Position.descend_map operands_trim root p

/-- The arguments of a function stay whole. -/
theorem trim_function {name : String} (hsigil : hasSigil name = false) (args : Node)
    (rest : List (String × Node)) : trim (.map ((name, args) :: rest)) = .map [(name, args)] := by
  cases hop : Operator.ofKey? name with
  | none => simp only [trim, hop]
  | some op =>
    obtain rfl := Operator.ofKey?_eq_some_iff.mp hop
    rw [op.hasSigil_key] at hsigil
    cases hsigil

theorem isNull_trim (n : Node) : n.trim.isNull = n.isNull := by
  match n with
  | .null | .bool _ | .number _ | .string _ | .list _ | .map [] | .predicate _ => rfl
  | .map ((key, value) :: rest) => cases hop : Operator.ofKey? key <;> simp [trim, hop, isNull]

end Node

/-! ### What trimmed trees mean -/

namespace Expr

/-- The later entries of a map do not change what it means. -/
theorem ofNode_map_later (entry : String × Node) (later later' : List (String × Node)) :
    ofNode (.map (entry :: later)) = ofNode (.map (entry :: later')) := by
  obtain ⟨key, value⟩ := entry
  rw [ofNode, ofNode]

mutual

/-- **A trimmed tree means the same.** -/
theorem ofNode_trim : ∀ n : Node, ofNode n.trim = ofNode n
  | .null | .bool _ | .number _ | .string _ | .list _ | .map [] | .predicate _ => rfl
  | .map ((key, value) :: rest) => by
    cases hop : Operator.ofKey? key with
    | none =>
      simp only [Node.trim, hop]
      exact ofNode_map_later ..
    | some op =>
      cases value with
      | list items =>
        have hitems := ofNodes_trims items
        simp [Node.trim, hop, Node.trimItems, ofNode, KeyRole.ofKey, hitems]
      | _ =>
        simp only [Node.trim, hop, Node.trimItems]
        exact ofNode_map_later ..

theorem ofNodes_trims : ∀ ns : List Node, ofNodes (Node.trims ns) = ofNodes ns
  | [] => rfl
  | n :: ns => by rw [Node.trims, ofNodes, ofNodes, ofNode_trim n, ofNodes_trims ns]

end

/-- What a node means decides what a tree means that it stands in. -/
theorem ofNode_fill {n n' : Node} (h : ofNode n = ofNode n') (ctx : Context) :
    ofNode (ctx.fill n) = ofNode (ctx.fill n') := by
  induction ctx with
  | hole => exact h
  | operand op before inner after rest ih =>
    rw [Context.ofNode_fill_operand, Context.ofNode_fill_operand]
    simp only [List.map_append, List.map_cons, ih]

end Expr

/-! ### Evaluations of trees that mean the same -/

section Entry

variable {policy : MissingRoot} {env : Callables σ} {n n' : Node}

theorem evaluateSync_congr (hnull : n.isNull = n'.isNull) (h : Expr.ofNode n = Expr.ofNode n') :
    evaluateSync policy env (some n) = evaluateSync policy env (some n') := by
  funext c s
  rcases policy.root_congr hnull with ⟨hroot, hroot'⟩ | ⟨hroot, hroot'⟩
  · rw [evaluateSync_of_none hroot, evaluateSync_of_none hroot']
  · rw [evaluateSync_of_root hroot, evaluateSync_of_root hroot', h]

theorem evaluateAsync_congr (hnull : n.isNull = n'.isNull) (h : Expr.ofNode n = Expr.ofNode n') :
    evaluateAsync policy env (some n) = evaluateAsync policy env (some n') := by
  funext s
  rcases policy.root_congr hnull with ⟨hroot, hroot'⟩ | ⟨hroot, hroot'⟩
  · rw [evaluateAsync_of_none hroot, evaluateAsync_of_none hroot']
  · rw [evaluateAsync_of_root hroot, evaluateAsync_of_root hroot', h]

end Entry

/-! ### Arguments -/

/-- Every function that is called in the journal receives the arguments that stand in the
tree, in the place of the call, and they stand there too when the tree is trimmed: nothing
that they hold is missing from what the function receives. -/
def ArgumentsReach (root : Node) (j : Journal) : Prop :=
  ∀ p name vs o, (⟨p, .function name vs⟩, o) ∈ j.made →
    ∃ args rest, root.at? p = some (.map ((name, args) :: rest)) ∧
      root.trim.at? p = some (.map [(name, args)]) ∧
      List.Forall₂ Node.Conveys args.positional vs

theorem CallsInDocumentOrder.argumentsReach {env : Callables σ} {root : Node} {j : Journal}
    (h : CallsInDocumentOrder env (some root) j) : ArgumentsReach root j := by
  intro p name vs o hmade
  obtain ⟨root', n, hroot, hat, hmakes⟩ := h.leaf _ o hmade
  cases hroot
  cases hmakes with
  | function name args rest vs hsigil hregistered hdata hargs =>
    refine ⟨args, rest, hat, ?_, Node.conveys_of_arguments hargs⟩
    rw [Node.at?_trim, hat, Option.map_some, Node.trim_function hsigil]

/-! ### The main theorem -/

/-- **Only the first entries count, and the arguments are whole.**  A tree and the trimmed
tree are evaluated alike in all that can be observed, and so are two trees that differ in the
later entries of a map at an evaluated position.  Every function receives all that its
arguments hold, the later entries of their maps too. -/
theorem first_entries_count (policy : MissingRoot) (env : Callables σ) :
    (∀ expression : Option Node,
      evaluateSync policy env (expression.map Node.trim) = evaluateSync policy env expression ∧
        evaluateAsync policy env (expression.map Node.trim) =
          evaluateAsync policy env expression) ∧
      (∀ (ctx : Context) entry later later',
        evaluateSync policy env (some (ctx.fill (.map (entry :: later)))) =
            evaluateSync policy env (some (ctx.fill (.map (entry :: later')))) ∧
          evaluateAsync policy env (some (ctx.fill (.map (entry :: later)))) =
            evaluateAsync policy env (some (ctx.fill (.map (entry :: later'))))) ∧
      ∀ root s, ArgumentsReach root ((evaluateSync policy env (some root)).run s).journal ∧
        ∀ budget,
          ArgumentsReach root ((evaluateAsync policy env (some root)).run budget s).journal := by
  refine ⟨?_, ?_, ?_⟩
  · intro expression
    cases expression with
    | none => exact ⟨rfl, rfl⟩
    | some n =>
      have hnull := n.isNull_trim
      have hmeans := Expr.ofNode_trim n
      exact ⟨evaluateSync_congr hnull hmeans, evaluateAsync_congr hnull hmeans⟩
  · intro ctx entry later later'
    have hnull : (ctx.fill (.map (entry :: later))).isNull =
        (ctx.fill (.map (entry :: later'))).isNull := by
      cases ctx <;> rfl
    have hmeans := Expr.ofNode_fill (Expr.ofNode_map_later entry later later') ctx
    exact ⟨evaluateSync_congr hnull hmeans, evaluateAsync_congr hnull hmeans⟩
  · intro root s
    have hfinish := CallsInDocumentOrder.of_finish policy env (some root) s
    have hbegins := journal_evaluateSync_isPrefix policy env (some root) s
    refine ⟨(hfinish.of_isPrefix hbegins).argumentsReach, ?_⟩
    intro budget
    have hrun := Pollable.journal_run_isPrefix (evaluateAsync policy env (some root)) budget s
    exact (hfinish.of_isPrefix hrun).argumentsReach

end BooleanRules
