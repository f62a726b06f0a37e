import BooleanRules.Proofs.Contexts
import BooleanRules.Proofs.Evidence
import BooleanRules.Proofs.Provenance

/-!
# The order of operands

The operands of an operator may be written in another order, in any number of operators at once.
Then other operands are skipped and other faults are met, so one of the two trees may have an
answer where the other one has none.  But the evidence for an answer does not depend on the order,
and where callables are pure it leaves room for one answer only.

If nothing can go wrong, both have an answer: no evaluated position is rejected, every call gives a
truth value, and where no promise can be waited for, no call below the root gives one.

## Main definitions

* `Node.Reordered` — a tree with operands in another order.
* `Node.WellFormed`, `Node.EachResult` — every position holds an expression, and the results of
  all calls are of some kind.

## Main results

* `Node.Reordered.supports` — evidence does not depend on the order.
* `Node.Reordered.exists_at` — what stands in the reordered tree stands in the tree.
* `exists_answerAsync`, `answerSync_eq_of_prompt` — if nothing can go wrong there is an answer, and
  it is the same without waiting.
* `operand_order_irrelevant` — **the order of operands never flips an answer.**
-/

namespace BooleanRules

variable {σ : Type}

/-! ### Reordered trees -/

namespace Node

mutual

/-- The tree is the same, except that the operands of some operators at evaluated positions stand
in another order. -/
inductive Reordered : Node → Node → Prop
  | same (n : Node) : Reordered n n
  | operator (op : Operator) (rest : List (String × Node)) {items items' items'' : List Node}
    (operands : AllReordered items items') (perm : items'.Perm items'') :
    Reordered (.map ((op.key, .list items) :: rest)) (.map ((op.key, .list items'') :: rest))

/-- The trees of a list are the same one by one, except for the order of operands. -/
inductive AllReordered : List Node → List Node → Prop
  | nil : AllReordered [] []
  | cons {n n' : Node} {ns ns' : List Node} (first : Reordered n n')
    (rest : AllReordered ns ns') : AllReordered (n :: ns) (n' :: ns')

end

mutual

/-- **Evidence does not depend on the order of operands.** -/
theorem Reordered.supports {env : Callables σ} {b : Bool} {n n' : Node} :
    n.Reordered n' → (Expr.ofNode n).Supports env b → (Expr.ofNode n').Supports env b
  | .same _, h => h
  | .operator op rest operands perm, h => by
    rw [Expr.ofNode_operator] at h ⊢
    exact h.operator_congr (AllReordered.supports operands) (perm.map Expr.ofNode)

theorem AllReordered.supports {env : Callables σ} {b : Bool} {ns ns' : List Node} :
    AllReordered ns ns' →
      List.Forall₂ (fun e e' => e.Supports env b → e'.Supports env b)
        (ns.map Expr.ofNode) (ns'.map Expr.ofNode)
  | .nil => .nil
  | .cons first rest => .cons first.supports (AllReordered.supports rest)

end

theorem AllReordered.forall₂ {ns ns' : List Node} :
    AllReordered ns ns' → List.Forall₂ Reordered ns ns'
  | .nil => .nil
  | .cons first rest => .cons first rest.forall₂

/-- An operand of a reordered tree is an operand of the tree, reordered. -/
theorem Reordered.exists_operand {root root' child' : Node} {i : Nat} (h : root.Reordered root')
    (hchild : root'.operands[i]? = some child') :
    ∃ (k : Nat) (child : Node), root.operands[k]? = some child ∧ child.Reordered child' := by
  cases h with
  | same => exact ⟨i, child', hchild, .same child'⟩
  | operator op rest operands perm =>
    rw [operands_of_operator] at hchild ⊢
    have hmem := perm.mem_iff.mpr (List.mem_of_getElem? hchild)
    obtain ⟨child, hmem, hreordered⟩ := exists_original operands.forall₂ hmem
    obtain ⟨k, hk⟩ := List.getElem?_of_mem hmem
    exact ⟨k, child, hk, hreordered⟩

/-- **What stands in a reordered tree stands in the tree**, at another place and reordered, and
what stands at the root stands at the root. -/
theorem Reordered.exists_at {root root' n' : Node} {p' : Position}
    (h : root.Reordered root') (hat : root'.at? p' = some n') :
    ∃ p n, root.at? p = some n ∧ n.Reordered n' ∧ (p = [] ↔ p' = []) := by
  induction p' generalizing root root' with
  | nil =>
    cases hat
    exact ⟨[], root, rfl, h, Iff.rfl⟩
  | cons i p' ih =>
    obtain ⟨child', hchild', hat⟩ := Option.bind_eq_some_iff.mp hat
    obtain ⟨k, child, hchild, hreordered⟩ := h.exists_operand hchild'
    obtain ⟨p, n, hat, hn, -⟩ := ih hreordered hat
    exact ⟨k :: p, n, Option.bind_eq_some_iff.mpr ⟨child, hchild, hat⟩, hn, by simp⟩

end Node

/-! ### Trees in which nothing can go wrong -/

namespace Node

/-- Every evaluated position of the tree holds an expression that is well formed for the
registry. -/
def WellFormed (env : Callables σ) (root : Node) : Prop :=
  ∀ p n, root.at? p = some n → ∀ reason error, ¬ n.Rejected env reason error

/-- Whatever is called at an evaluated position gives a result of the kind that `P` says for this
position, from any state. -/
def EachResult (env : Callables σ) (root : Node) (P : Position → Output → Prop) : Prop :=
  ∀ p n callee f, root.at? p = some n → env.reach (.ofNode n) = .call callee f → ∀ s, P p (f s).1

/-- What holds of a node and at all positions of its operands holds at all its positions. -/
theorem forall_at?_of_operands {Q : Node → Prop} {root : Node} (hroot : Q root)
    (hoperands : ∀ child ∈ root.operands, ∀ p n, child.at? p = some n → Q n) :
    ∀ p n, root.at? p = some n → Q n := by
  intro p n hat
  cases p with
  | nil =>
    cases hat
    exact hroot
  | cons i p =>
    obtain ⟨child, hchild, hat⟩ := Option.bind_eq_some_iff.mp hat
    exact hoperands child (List.mem_of_getElem? hchild) p n hat

namespace Reordered

variable {env : Callables σ} {root root' : Node}

theorem wellFormed (h : root.Reordered root') (hform : root.WellFormed env) :
    root'.WellFormed env := by
  intro p' n' hat reason error hrejected
  obtain ⟨p, n, hat, hn, -⟩ := h.exists_at hat
  cases hn with
  | same => exact hform p _ hat reason error hrejected
  | operator op rest operands perm =>
    -- an operator over a list is never rejected
    have hfault := Callables.reach_of_rejected hrejected
    rw [Expr.ofNode_operator] at hfault
    cases hfault

theorem eachResult (h : root.Reordered root') {P : Position → Output → Prop}
    (hP : ∀ p p', (p = [] ↔ p' = []) → ∀ o, P p o → P p' o) (hresult : root.EachResult env P) :
    root'.EachResult env P := by
  intro p' n' callee f hat hreach s
  obtain ⟨p, n, hat, hn, hnil⟩ := h.exists_at hat
  cases hn with
  | same => exact hP p p' hnil _ (hresult p _ callee f hat hreach s)
  | operator op rest operands perm =>
    rw [Expr.ofNode_operator] at hreach
    cases hreach

theorem isNull_eq (h : root.Reordered root') : root.isNull = root'.isNull := by
  cases h <;> rfl

end Reordered

end Node

/-! ### There is an answer -/

section Answers

variable {policy : MissingRoot} {env : Callables σ} {root : Node} {s : σ}

/-- What is called during an evaluation is called at an evaluated position of the tree. -/
theorem Node.EachResult.of_called {P : Position → Output → Prop} (h : root.EachResult env P)
    {call : Call} {o : Output}
    (hcalled : .called call o ∈ ((evaluateAsync policy env (some root)).finish s).journal) :
    P call.position o := by
  rcases root_or_journal_nil policy env (some root) s with ⟨root', hroot⟩ | ⟨-, hnil⟩
  · cases MissingRoot.eq_of_root_some hroot
    rw [finish_evaluateAsync_of_root hroot] at hcalled
    have hplaced := (Async.placed env (.ofNode root)).1 _ [] s rfl _ hcalled
    obtain ⟨e, f, s', hat, hreach, rfl⟩ := hplaced.called call o rfl
    obtain ⟨n, hn, rfl⟩ := Expr.at?_ofNode_eq_some_iff.mp hat
    exact h call.position n call.callee f hn hreach s'
  · rw [hnil] at hcalled
    cases hcalled

/-- If no position is rejected and all calls give truth values, then a promise is the only
reason to fail. -/
theorem Cause.exists_promise {j : Journal} {reason : Reason} {error : EvalError}
    (h : Cause policy env (some root) j reason error) (hform : root.WellFormed env)
    (htruth : ∀ call o, .called call o ∈ j → ∃ b, o.value = .bool b) :
    ∃ call promise, .called call (.deferred promise) ∈ j ∧ call.position ≠ [] ∧
      error = .unexpectedNestedPromise call.kind := by
  cases h with
  | absent policy_eq expression_eq journal_eq => cases expression_eq
  | rejected root' n earlier p reason error expression_eq hat journal_eq hrejected =>
    cases expression_eq
    exact absurd hrejected (hform p n hat reason error)
  | returnType earlier call o journal_eq type_ne =>
    have hcalled : .called call o ∈ j := by
      rw [journal_eq]
      exact List.mem_append_right _ List.mem_cons_self
    obtain ⟨b, hb⟩ := htruth call o hcalled
    rw [hb] at type_ne
    exact absurd rfl type_ne
  | nestedPromise earlier call promise journal_eq position_ne =>
    refine ⟨call, promise, ?_, position_ne, rfl⟩
    rw [journal_eq]
    exact List.mem_append_right _ (List.mem_singleton_self _)

/-- **Where nothing can go wrong there is an answer.** -/
theorem exists_answerAsync (policy : MissingRoot) (hform : root.WellFormed env)
    (htruth : root.EachResult env fun _ o => ∃ b, o.value = .bool b) (s : σ) :
    ∃ b, answerAsync policy env (some root) s = .ok b := by
  cases hanswer : answerAsync policy env (some root) s with
  | ok b => exact ⟨b, rfl⟩
  | error error =>
    obtain ⟨reason, hcause⟩ := (evaluateAsync_fails_iff policy env (some root) s error).mp hanswer
    obtain ⟨call, promise, -, -, rfl⟩ :=
      hcause.exists_promise hform fun call o hcalled => htruth.of_called hcalled
    exact absurd hanswer (evaluateAsync_ne_nestedPromise policy env (some root) s call.kind)

/-- **Without waiting there is the same answer**, unless a call below the root gives a promise. -/
theorem answerSync_eq_of_prompt (policy : MissingRoot) (hform : root.WellFormed env)
    (htruth : root.EachResult env fun _ o => ∃ b, o.value = .bool b)
    (hprompt : root.EachResult env fun p o => p ≠ [] → ∃ v, o = .ready v) (s : σ) :
    answerSync policy env (some root) s = answerAsync policy env (some root) s := by
  have hbegins := journal_evaluateSync_isPrefix policy env (some root) s
  cases hresult : ((evaluateSync policy env (some root)).run s).result with
  | ok outcome => exact answerSync_eq_answerAsync hresult
  | error error =>
    obtain ⟨reason, hcause⟩ := (evaluateSync_fails_iff policy env (some root) s error).mp hresult
    obtain ⟨call, promise, hcalled, hposition, -⟩ :=
      hcause.exists_promise hform fun call o hcalled => htruth.of_called (hbegins.subset hcalled)
    obtain ⟨v, hready⟩ := hprompt.of_called (hbegins.subset hcalled) hposition
    cases hready

end Answers

/-! ### The main theorem -/

/-- **The order of operands never flips an answer.**  If the evaluations of a tree and of a
reordered tree by pure callables both have an answer, without waiting or with it, then it is the
same one.  If every evaluated position is well formed and every call gives a truth value, then both
do have an answer; without waiting, if in addition no call below the root gives a promise, which for
a tree of a single node asks nothing. -/
theorem operand_order_irrelevant (policy : MissingRoot) {env : Callables σ} (hpure : env.Pure)
    {root root' : Node} (hreordered : root.Reordered root') (s s' : σ) :
    (∀ b b', answerSync policy env (some root) s = .ok b →
        answerSync policy env (some root') s' = .ok b' → b = b') ∧
      (∀ b b', answerAsync policy env (some root) s = .ok b →
        answerAsync policy env (some root') s' = .ok b' → b = b') ∧
      (root.WellFormed env → (root.EachResult env fun _ o => ∃ b, o.value = .bool b) →
        ∃ b, answerAsync policy env (some root) s = .ok b ∧
          answerAsync policy env (some root') s' = .ok b ∧
          ((root.EachResult env fun p o => p ≠ [] → ∃ v, o = .ready v) →
            answerSync policy env (some root) s = .ok b ∧
              answerSync policy env (some root') s' = .ok b)) := by
  have hasync : ∀ b b', answerAsync policy env (some root) s = .ok b →
      answerAsync policy env (some root') s' = .ok b' → b = b' := by
    intro b b' hb hb'
    rcases policy.root_congr hreordered.isNull_eq with ⟨hroot, hroot'⟩ | ⟨hroot, hroot'⟩
    · rw [answerAsync, Pollable.finish, evaluateAsync_of_none hroot] at hb
      rw [answerAsync, Pollable.finish, evaluateAsync_of_none hroot'] at hb'
      exact Except.ok.inj (hb.symm.trans hb')
    · have hevidence := hreordered.supports (supports_of_answerAsync hroot hb)
      exact hevidence.unique hpure (supports_of_answerAsync hroot' hb')
  refine ⟨fun b b' hb hb' => ?_, hasync, fun hform htruth => ?_⟩
  · exact hasync b b' (answerAsync_of_answerSync hb) (answerAsync_of_answerSync hb')
  · have hform' := hreordered.wellFormed hform
    have htruth' := hreordered.eachResult (fun p p' _ o h => h) htruth
    obtain ⟨b, hb⟩ := exists_answerAsync policy hform htruth s
    obtain ⟨b', hb'⟩ := exists_answerAsync policy hform' htruth' s'
    obtain rfl := hasync b b' hb hb'
    refine ⟨b, hb, hb', fun hprompt => ?_⟩
    have hprompt' := hreordered.eachResult (fun p p' hnil o h hp' => h (mt hnil.mp hp')) hprompt
    rw [answerSync_eq_of_prompt policy hform htruth hprompt,
      answerSync_eq_of_prompt policy hform' htruth' hprompt']
    exact ⟨hb, hb'⟩

/-- A rule that finds out first that guests are not admitted, and the same rule that finds out
first who owns the draft. -/
theorem draft_rule_reordered :
    let guest : Node := .predicate "guest"
    let owns : Node := .call "owns" (.string "draft")
    let rule : Node := .or [.and [guest, owns], owns]
    let rule' : Node := .or [owns, .and [owns, guest]]
    let env := admitting false
    rule.Reordered rule' ∧ rule.WellFormed env ∧
      (rule.EachResult env fun _ o => ∃ b, o = .ready (.bool b)) ∧
      (∃ b, answerSync .error env (some rule) 0 = .ok b ∧
        answerSync .error env (some rule') 7 = .ok b) ∧
      answerSync .error env (some rule) 0 = .ok true := by
  intro guest owns rule rule' env
  have htree : rule.Reordered rule' := by
    have hinner : Node.Reordered (.and [guest, owns]) (.and [owns, guest]) :=
      .operator .and [] (.cons (.same _) (.cons (.same _) .nil)) (.swap ..)
    exact .operator .or [] (.cons hinner (.cons (.same _) .nil)) (.swap ..)
  -- what is said of every position, and why it holds of the two calls and of operators
  let Sound (n : Node) : Prop := (∀ reason error, ¬ n.Rejected env reason error) ∧
    ∀ callee f, env.reach (.ofNode n) = .call callee f → ∀ s, ∃ b, (f s).1 = .ready (.bool b)
  have hcall : ∀ n callee f, env.reach (.ofNode n) = .call callee f →
      (∀ s, ∃ b, (f s).1 = .ready (.bool b)) → Sound n := by
    intro n callee f hreach hready
    refine ⟨fun reason error h => ?_, fun callee' f' h => ?_⟩
    · cases hreach.symm.trans (Callables.reach_of_rejected h)
    · cases hreach.symm.trans h
      exact hready
  have hover : ∀ (op : Operator) items, (∀ child ∈ items, ∀ p n, child.at? p = some n → Sound n) →
      ∀ p n, (op.over items).at? p = some n → Sound n := by
    intro op items hitems
    have hreach : env.reach (.ofNode (op.over items)) = .operands op (items.map Expr.ofNode) := by
      rw [Operator.over, Node.entry, Expr.ofNode_operator]
      rfl
    refine Node.forall_at?_of_operands ⟨fun reason error h => ?_, fun callee f h => ?_⟩ ?_
    · cases hreach.symm.trans (Callables.reach_of_rejected h)
    · cases hreach.symm.trans h
    · rwa [Operator.over, Node.entry, Node.operands_of_operator]
  have hguest : ∀ p n, guest.at? p = some n → Sound n :=
    Node.forall_at?_of_operands (hcall _ _ _ rfl fun s => ⟨false, rfl⟩) fun _ h => by cases h
  have howns : ∀ p n, owns.at? p = some n → Sound n :=
    Node.forall_at?_of_operands (hcall _ _ _ rfl fun s => ⟨true, rfl⟩) fun _ h => by cases h
  have hsound : ∀ p n, rule.at? p = some n → Sound n := by
    have hinner := hover .and [guest, owns] (by simpa using ⟨hguest, howns⟩)
    exact hover .or [.and [guest, owns], owns] (by simpa using ⟨hinner, howns⟩)
  have hform : rule.WellFormed env := fun p n hat => (hsound p n hat).1
  have hready : rule.EachResult env fun _ o => ∃ b, o = .ready (.bool b) :=
    fun p n callee f hat => (hsound p n hat).2 callee f
  have htruth : rule.EachResult env fun _ o => ∃ b, o.value = .bool b := by
    intro p n callee f hat hreach s
    obtain ⟨b, hb⟩ := hready p n callee f hat hreach s
    exact ⟨b, by rw [hb]; rfl⟩
  have hprompt : rule.EachResult env fun p o => p ≠ [] → ∃ v, o = .ready v := by
    intro p n callee f hat hreach s _
    obtain ⟨b, hb⟩ := hready p n callee f hat hreach s
    exact ⟨_, hb⟩
  obtain ⟨b, -, -, hsync⟩ :=
    (operand_order_irrelevant .error (admitting_pure false) htree 0 7).2.2 hform htruth
  exact ⟨htree, hform, hready, ⟨b, hsync hprompt⟩, rfl⟩

end BooleanRules
