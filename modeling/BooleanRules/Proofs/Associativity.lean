import BooleanRules.Proofs.Contexts
import BooleanRules.Proofs.Entry
import BooleanRules.Proofs.Meaning

/-!
# Operators are associative

An operator over operands of which one is the same operator again is one operator over all
of the operands.  The truth value that leaves an operator open is neutral, the one that
decides it makes the operands after it superfluous, and an operator over a single operand is
that operand.  All this holds of what evaluations do and not of their answers alone: they
make the same calls, wait as often, and fail in the same way.  And it holds at every
evaluated position of every tree; only at the root does a single operand differ from the
operator over it, because a promise is handed over from there.

The laws are laws of the loop that goes through operands, in any monad.  They are carried
to evaluations by `Expr.meaning`.

## Main definitions

* `Node.SameMeaning` — two nodes that mean the same, whatever becomes of results.
* `SameWalk`, `SameRun` — two evaluations that do the same, apart from places.

## Main results

* `Operator.loop_append` — the loop over two lists of operands.
* `Node.SameMeaning.fill` — what means the same does so in every context.
* `operators_associative` — **operators are associative, with identities, in every context.**
-/

namespace BooleanRules

variable {σ : Type}

/-! ### Laws of the loop -/

namespace Operator

variable {m : Type → Type} [Monad m] [LawfulMonad m] (op : Operator)

/-- The loop over two lists is the loop over the first one, and over the second one if the
first one has not decided. -/
theorem loop_append (xs ys : List (m Bool)) :
    op.loop (xs ++ ys) =
      op.loop xs >>= fun b => if b = op.decidingValue then pure b else op.loop ys := by
  induction xs with
  | nil => simp [loop, op.fallthroughValue_ne]
  | cons x xs ih =>
    rw [List.cons_append, loop, loop, bind_assoc, ih]
    congr 1
    funext b
    by_cases hb : b = op.decidingValue <;> simp [hb]

theorem loop_singleton (x : m Bool) : op.loop [x] = x := by
  have hsame : ∀ b, (if b = op.decidingValue then pure b else op.loop []) = (pure b : m Bool) := by
    intro b
    rcases op.eq_decidingValue_or b with rfl | rfl
    · rw [if_pos rfl]
    · rw [if_neg op.fallthroughValue_ne, loop]
  rw [loop]
  simp only [hsame, bind_pure]

/-- A loop within a loop is one loop. -/
theorem loop_nested (xs ys zs : List (m Bool)) :
    op.loop (xs ++ [op.loop ys] ++ zs) = op.loop (xs ++ ys ++ zs) := by
  rw [loop_append, loop_append, loop_singleton, ← loop_append, ← loop_append]

/-- The value that leaves the operator open is neutral. -/
theorem loop_neutral (xs zs : List (m Bool)) :
    op.loop (xs ++ [pure op.fallthroughValue] ++ zs) = op.loop (xs ++ zs) := by
  have hempty : (pure op.fallthroughValue : m Bool) = op.loop [] := rfl
  rw [hempty, loop_nested, List.append_nil]

/-- Nothing after the deciding value counts. -/
theorem loop_decided (xs zs : List (m Bool)) :
    op.loop (xs ++ [pure op.decidingValue] ++ zs) = op.loop (xs ++ [pure op.decidingValue]) := by
  have htail : op.loop (pure op.decidingValue :: zs) =
      op.loop [(pure op.decidingValue : m Bool)] := by simp [loop]
  rw [List.append_assoc, List.singleton_append, loop_append, htail, ← loop_append]

end Operator

/-! ### Nodes that mean the same -/

/-- Two nodes mean the same, whatever becomes of the results of calls. -/
def Node.SameMeaning (env : Callables σ) (n n' : Node) : Prop :=
  ∀ take, (Expr.ofNode n).meaning env take = (Expr.ofNode n').meaning env take

namespace Node.SameMeaning

variable (env : Callables σ) (op : Operator) (xs ys zs : List Node)

/-- The meaning of an operator is the loop over the meanings of its operands. -/
theorem meaning_over (take : Call → Output → Pollable σ Bool) (items : List Node)
    (rest : List (String × Node)) :
    (Expr.ofNode (.map ((op.key, .list items) :: rest))).meaning env take =
      op.loop (items.map fun n => (Expr.ofNode n).meaning env take) := by
  rw [Expr.ofNode_operator, Expr.meaning, Expr.meanings_eq_map, List.map_map]
  rfl

theorem nested :
    SameMeaning env (op.over (xs ++ [op.over ys] ++ zs)) (op.over (xs ++ ys ++ zs)) := by
  intro take
  simp only [Operator.over, entry, meaning_over, List.map_append, List.map_cons, List.map_nil]
  exact op.loop_nested _ _ _

theorem neutral :
    SameMeaning env (op.over (xs ++ [.bool op.fallthroughValue] ++ zs)) (op.over (xs ++ zs)) := by
  intro take
  simp only [Operator.over, entry, meaning_over, List.map_append, List.map_cons, List.map_nil]
  exact op.loop_neutral _ _

theorem decided :
    SameMeaning env (op.over (xs ++ [.bool op.decidingValue] ++ zs))
      (op.over (xs ++ [.bool op.decidingValue])) := by
  intro take
  simp only [Operator.over, entry, meaning_over, List.map_append, List.map_cons, List.map_nil]
  exact op.loop_decided _ _

theorem singleton (n : Node) : SameMeaning env (op.over [n]) n := by
  intro take
  simp only [Operator.over, entry, meaning_over, List.map_cons, List.map_nil]
  exact op.loop_singleton _

/-- What means the same means the same in every context. -/
theorem fill {env : Callables σ} {n n' : Node} (h : SameMeaning env n n') (ctx : Context) :
    SameMeaning env (ctx.fill n) (ctx.fill n') := by
  induction ctx with
  | hole => exact h
  | operand op before inner after rest ih =>
    intro take
    simp only [Context.fill, meaning_over, List.map_append, List.map_cons, List.map_nil, ih take]

end Node.SameMeaning

/-! ### Evaluations that do the same -/

/-- Two walks do the same, apart from places. -/
structure SameWalk (w w' : Walked σ Evaluation) : Prop where
  /-- The results are the same. -/
  result_eq : w.result = w'.result
  /-- The same calls are made with the same arguments and give the same results. -/
  placeless_eq : w.journal.placeless = w'.journal.placeless
  /-- The logs are the same. -/
  lines_eq : w.journal.lines = w'.journal.lines
  /-- The states are the same. -/
  state_eq : w.state = w'.state

/-- Two runs within a budget do the same, apart from places. -/
structure SameRun (d d' : Driven σ Bool) : Prop where
  /-- The results are the same, or both are pending. -/
  result_eq : d.result = d'.result
  /-- As many polls are made. -/
  polls_eq : d.polls = d'.polls
  /-- The same calls are made and waited for in the same order. -/
  placeless_eq : d.journal.placeless = d'.journal.placeless
  /-- The logs are the same. -/
  lines_eq : d.journal.lines = d'.journal.lines
  /-- The states are the same. -/
  state_eq : d.state = d'.state

/-- The evaluations of two trees do the same, apart from places. -/
structure SameEffects (policy : MissingRoot) (env : Callables σ) (n n' : Node) : Prop where
  /-- The synchronous evaluations do, from any state. -/
  walk : ∀ s, SameWalk ((evaluateSync policy env (some n)).run s)
    ((evaluateSync policy env (some n')).run s)
  /-- The asynchronous evaluations do, from any state and within any budget. -/
  run : ∀ budget s, SameRun ((evaluateAsync policy env (some n)).run budget s)
    ((evaluateAsync policy env (some n')).run budget s)

theorem Journal.lines_eq_of_placeless {j k : Journal} (h : j.placeless = k.placeless) :
    j.lines = k.lines := by
  rw [← lines_placeless, h, lines_placeless]

/-- An operator never hands a promise over, so what it is as an operand is all of it. -/
theorem Sync.result_operator (env : Callables σ) (op : Operator) (es : List Expr) (p : Position)
    (c : VisitCounter) (s : σ) :
    (evaluate env p (.operator op es) c s).result =
      (evaluate env p (.operator op es) c s).asOperand.result.map .ready := by
  simp only [Walked.asOperand, evaluate_operator]
  cases (evaluateOperands env op p 0 es c.visit s).result <;> rfl

theorem Driven.same_of_relabel {d d' : Driven σ Bool}
    (h : d.relabel Event.placeless? id = d'.relabel Event.placeless? id) : SameRun d d' := by
  have hmap : ∀ r : Option (Except EvalError Bool), r.map (Except.map id) = r := by
    intro r
    rcases r with _ | _ | _ <;> rfl
  simp only [Driven.relabel, hmap, Driven.mk.injEq] at h
  obtain ⟨hpolls, hjournal, hstate, hresult⟩ := h
  exact ⟨hresult, hpolls, hjournal, Journal.lines_eq_of_placeless hjournal, hstate⟩

/-- Operators that mean the same do the same when they are evaluated. -/
theorem Node.SameMeaning.sameEffects {env : Callables σ} {n n' : Node}
    (h : n.SameMeaning env n') (policy : MissingRoot) {op op' : Operator} {es es' : List Expr}
    (hn : Expr.ofNode n = .operator op es) (hn' : Expr.ofNode n' = .operator op' es') :
    SameEffects policy env n n' := by
  have hroot : policy.root (some n) = .ok (some n) := by
    refine policy.root_some ?_
    rintro rfl
    cases hn
  have hroot' : policy.root (some n') = .ok (some n') := by
    refine policy.root_some ?_
    rintro rfl
    cases hn'
  constructor
  · intro s
    have hsync := (Sync.evaluate_meaning env).1 (.ofNode n) [] {} s
    have hsync' := (Sync.evaluate_meaning env).1 (.ofNode n') [] {} s
    rw [h, hsync', hn, hn'] at hsync
    simp only [Walked.placeless, Step.done.injEq] at hsync
    obtain ⟨hjournal, hstate, hresult⟩ := hsync
    rw [Walk.run, Walk.run, evaluateSync_of_root hroot, evaluateSync_of_root hroot', hn, hn']
    refine ⟨?_, hjournal.symm, Journal.lines_eq_of_placeless hjournal.symm, hstate.symm⟩
    rw [Sync.result_operator, Sync.result_operator, hresult]
  · intro budget s
    have hasync := (Async.evaluate_meaning env).1 (.ofNode n) [] s
    have hasync' := (Async.evaluate_meaning env).1 (.ofNode n') [] s
    rw [← evaluateAsync_of_root hroot] at hasync
    rw [← evaluateAsync_of_root hroot'] at hasync'
    refine Driven.same_of_relabel ?_
    rw [← Pollable.run_relabel hasync budget, ← Pollable.run_relabel hasync' budget, h]

/-- The tree of a context with an operator in the open place is an operator. -/
theorem Context.ofNode_fill_over (ctx : Context) (op : Operator) (items : List Node) :
    ∃ op' es, Expr.ofNode (ctx.fill (op.over items)) = .operator op' es := by
  cases ctx with
  | hole => exact ⟨op, _, Expr.ofNode_operator op items []⟩
  | operand op' before inner after rest => exact ⟨op', _, ofNode_fill_operand ..⟩

/-- Operators that mean the same do the same in every context. -/
theorem Node.SameMeaning.sameEffects_fill {env : Callables σ} {op op' : Operator}
    {items items' : List Node} (h : (op.over items).SameMeaning env (op'.over items'))
    (policy : MissingRoot) (ctx : Context) :
    SameEffects policy env (ctx.fill (op.over items)) (ctx.fill (op'.over items')) := by
  obtain ⟨_, _, hn⟩ := ctx.ofNode_fill_over op items
  obtain ⟨_, _, hn'⟩ := ctx.ofNode_fill_over op' items'
  exact (h.fill ctx).sameEffects policy hn hn'

/-! ### The main theorem -/

/-- **Operators are associative, with identities, in every context.**  At any evaluated
position of any tree, an operator over operands of which one is the same operator does what
the operator over all of the operands does.  An operand of the value that leaves the operator
open may be left out, and so may all that follows an operand of the deciding value.  Below
the root an operator over one operand does what the operand does. -/
theorem operators_associative (policy : MissingRoot) (env : Callables σ) (op : Operator)
    (xs ys zs : List Node) (x : Node) :
    (∀ ctx : Context,
      SameEffects policy env (ctx.fill (op.over (xs ++ [op.over ys] ++ zs)))
          (ctx.fill (op.over (xs ++ ys ++ zs))) ∧
        SameEffects policy env (ctx.fill (op.over (xs ++ [.bool op.fallthroughValue] ++ zs)))
          (ctx.fill (op.over (xs ++ zs))) ∧
        SameEffects policy env (ctx.fill (op.over (xs ++ [.bool op.decidingValue] ++ zs)))
          (ctx.fill (op.over (xs ++ [.bool op.decidingValue])))) ∧
      ∀ op' before inner after rest,
        SameEffects policy env ((Context.operand op' before inner after rest).fill (op.over [x]))
          ((Context.operand op' before inner after rest).fill x) := by
  constructor
  · intro ctx
    have hnested := Node.SameMeaning.nested env op xs ys zs
    have hneutral := Node.SameMeaning.neutral env op xs zs
    have hdecided := Node.SameMeaning.decided env op xs zs
    exact ⟨hnested.sameEffects_fill policy ctx, hneutral.sameEffects_fill policy ctx,
      hdecided.sameEffects_fill policy ctx⟩
  · intro op' before inner after rest
    have hfill := (Node.SameMeaning.singleton env op x).fill
      (.operand op' before inner after rest)
    exact hfill.sameEffects policy (Context.ofNode_fill_operand ..)
      (Context.ofNode_fill_operand ..)

end BooleanRules
