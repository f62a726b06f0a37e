import BooleanRules.Proofs.Simulation

/-!
# Promises are handed over from the root alone

The synchronous evaluation knows the root by its visit counter and by nothing else.
The counter is the number of nodes entered so far, at every check of a call's
result, and a call is made only at the node entered last but not before; so a
counter of one is the root's, and every other promise is refused.

## Main definitions

* `Node.count` — the number of nodes in a tree.
* `HandsOver` — the root makes a call, and the call gives a promise.
* `RootPromises` — what a walk from a root does with promises, and how it counts.

## Main results

* `Expr.size_ofNode_le` — a tree has at least as many nodes as positions.
* `promises_only_from_root` — **the counter tells the root, and only the root's
  promise comes out of a walk.**
-/

namespace BooleanRules

variable {σ : Type}

/-! ### The number of nodes -/

namespace Node

mutual

/-- The number of nodes in a tree, those in lists and in entries included. -/
def count : Node → Nat
  | .list items => 1 + counts items
  | .map entries => 1 + entryCounts entries
  | _ => 1

/-- The number of nodes in some trees. -/
def counts : List Node → Nat
  | [] => 0
  | n :: ns => n.count + counts ns

/-- The number of nodes in the values of some entries. -/
def entryCounts : List (String × Node) → Nat
  | [] => 0
  | (_, n) :: rest => n.count + entryCounts rest

end

theorem one_le_count (n : Node) : 1 ≤ n.count := by
  cases n <;> simp [count]

end Node

namespace Expr

mutual

/-- A tree has at least as many nodes as its expression has positions. -/
theorem size_ofNode_le : ∀ n : Node, (ofNode n).size ≤ n.count
  | .null | .bool _ | .number _ | .string _ | .predicate _ => Nat.le_refl 1
  | .list _ | .map [] => Nat.le_add_right 1 _
  | .map ((key, value) :: rest) => by
    have hone : 1 ≤ (Node.map ((key, value) :: rest)).count := Node.one_le_count _
    rw [ofNode]
    cases KeyRole.ofKey key with
    | operator op =>
      cases value with
      | list operands =>
        have hoperands := sizes_ofNodes_le operands
        simp only [size, Node.count, Node.entryCounts]
        omega
      | _ => exact hone
    | unrecognized => exact hone
    | function => exact hone

theorem sizes_ofNodes_le : ∀ ns : List Node, sizes (ofNodes ns) ≤ Node.counts ns
  | [] => Nat.le_refl 0
  | n :: ns => Nat.add_le_add (size_ofNode_le n) (sizes_ofNodes_le ns)

end

end Expr

/-! ### The call of a root -/

theorem Callables.function_eq_ok_iff {env : Callables σ} {name : String} {f : Function σ} :
    env.function name = .ok f ↔ env.functions.get? name = some f := by
  unfold Callables.function
  cases env.functions.get? name <;> simp

theorem Callables.reach_ofNode_of_predicate {env : Callables σ} {n : Node} {name : String}
    (h : n.classify = .ok (.predicate name)) :
    env.reach (.ofNode n) = .call (.predicate name) (env.predicate name) := by
  rw [Expr.ofNode_eq, h]
  rfl

theorem Callables.reach_ofNode_of_function {env : Callables σ} {n args : Node} {name : String}
    {g : Function σ} {vs : List Value} (h : n.classify = .ok (.function name args))
    (hg : env.functions.get? name = some g) (hargs : args.arguments = .ok vs) :
    env.reach (.ofNode n) = .call (.function name vs) (g vs) := by
  rw [Expr.ofNode_eq, h]
  simp only [Expr.ofForm, reach, Callables.function_eq_ok_iff.mpr hg, hargs]

/-- A tree that means a call is a predicate, or a function node whose name is
registered and whose arguments are data. -/
theorem Callables.classify_of_reach_call {env : Callables σ} {n : Node} {callee : Callee}
    {f : σ → Output × σ} (h : env.reach (.ofNode n) = .call callee f) :
    (∃ name, n.classify = .ok (.predicate name) ∧ callee = .predicate name ∧
        f = env.predicate name) ∨
      ∃ name args g vs, n.classify = .ok (.function name args) ∧
        env.functions.get? name = some g ∧ args.isData = true ∧ args.arguments = .ok vs ∧
        callee = .function name vs ∧ f = g vs := by
  rw [Expr.ofNode_eq] at h
  match hclass : n.classify with
  | .error e => rw [hclass] at h; cases h
  | .ok (.literal b) => rw [hclass] at h; cases h
  | .ok (.operator op operands) => rw [hclass] at h; cases h
  | .ok (.predicate name) => rw [hclass] at h; cases h; exact .inl ⟨name, rfl, rfl, rfl⟩
  | .ok (.function name args) =>
    rw [hclass] at h
    rcases eq_of_reach_call h with ⟨_, heq, -⟩ | ⟨name', vs, g, heq, hg, rfl, rfl⟩
    · cases heq
    · obtain ⟨rfl, hargs⟩ : name = name' ∧ args.arguments = .ok vs := by
        simpa [Expr.ofForm] using heq
      refine .inr ⟨name, args, g, vs, rfl, function_eq_ok_iff.mp hg, ?_, hargs, rfl, rfl⟩
      rcases args.arguments_cases with ⟨hdata, -⟩ | ⟨-, hfault⟩
      · exact hdata
      · rw [hargs] at hfault; cases hfault

/-! ### Promises of a walk -/

/-- The root makes the call of a promise, and the call gives the promise: the root is
a predicate, or a function node whose name is registered and whose arguments hold no
predicate. -/
inductive HandsOver (env : Callables σ) (root : Node) (s : σ) (d : Deferred) : Prop where
  /-- The root is a predicate. -/
  | predicate (name : String) (root_eq : root.classify = .ok (.predicate name))
      (call_eq : d.call = ⟨[], .predicate name⟩) (kind_eq : d.kind = .callback)
      (output_eq : (env.predicate name s).1 = .deferred d.promise)
  /-- The root is a function node. -/
  | function (name : String) (args : Node) (f : Function σ) (vs : List Value)
      (root_eq : root.classify = .ok (.function name args))
      (registered : env.functions.get? name = some f) (isData : args.isData = true)
      (args_eq : args.arguments = .ok vs) (call_eq : d.call = ⟨[], .function name vs⟩)
      (kind_eq : d.kind = .function) (output_eq : (f vs s).1 = .deferred d.promise)

/-- What a walk `w` from a root does with promises, and how it counts. -/
structure RootPromises (env : Callables σ) (root : Node) (s : σ) (w : Walked σ Evaluation) :
    Prop where
  /-- The result of each call is checked once. -/
  length_checks : w.checks.length = w.journal.calls.length
  /-- At the check of a call the counter is the number of nodes entered so far, and it
  tells whether the call is the root's. -/
  check_of_called : ∀ (earlier : Journal) call o later,
    w.journal = earlier ++ .called call o :: later →
      ∃ c : VisitCounter, w.checks[earlier.calls.length]? = some c ∧
        c.visits = earlier.entered.length ∧ (c.visits = 1 ↔ call.position = [])
  /-- The walk hands over what the root's call promises, and nothing else. -/
  deferred_iff : ∀ d, w.result = .ok (.deferred d) ↔ HandsOver env root s d
  /-- A promise handed over has not been polled. -/
  unpolled : ∀ d, w.result = .ok (.deferred d) →
    w.journal = [.visited [], .called d.call (.deferred d.promise)]
  /-- A promise below the root ends the walk, which fails for it. -/
  nested : ∀ (earlier : Journal) call promise later,
    w.journal = earlier ++ .called call (.deferred promise) :: later → call.position ≠ [] →
      w.result = .error (.unexpectedNestedPromise call.kind) ∧ later = []
  /-- The counter at the end is the number of nodes entered, -/
  visits_eq : w.counter.visits = w.journal.entered.length
  /-- one of them at least, -/
  one_le_visits : 1 ≤ w.counter.visits
  /-- and no more than there are in the tree, -/
  visits_le : w.counter.visits ≤ root.count
  /-- so that a counter that could hold the number of nodes, and wraps at `limit`, never
  wraps. -/
  visits_lt : ∀ limit, root.count < limit →
    w.counter.visits < limit ∧ ∀ c ∈ w.checks, c.visits < limit

namespace Sync

variable {env : Callables σ} {e : Expr}

/-- The first thing in a walk is that its expression is entered. -/
theorem journal_evaluate_head (env : Callables σ) (e : Expr) (p : Position) (c : VisitCounter)
    (s : σ) : ∃ rest, (evaluate env p e c s).journal = .visited p :: rest := by
  cases h : env.reach e with
  | value b =>
    obtain rfl := Callables.eq_of_reach_value h
    exact ⟨_, congrArg Walked.journal (evaluate_literal p b c s)⟩
  | call callee f => exact ⟨_, congrArg Walked.journal (evaluate_of_call h p c s)⟩
  | fault error => exact ⟨_, congrArg Walked.journal (evaluate_of_fault h p c s)⟩
  | operands op es =>
    obtain rfl := Callables.eq_of_reach_operands h
    exact ⟨_, congrArg Walked.journal (evaluate_operator op es p c s)⟩

/-- A walk from the root hands over what the root's call promises. -/
theorem result_eq_deferred_iff {s : σ} {d : Deferred} :
    ((evaluate env [] e).run s).result = .ok (.deferred d) ↔
      ∃ callee f, env.reach e = .call callee f ∧ d.call = ⟨[], callee⟩ ∧
        (f s).1 = .deferred d.promise := by
  rw [Walk.run]
  constructor
  · intro h
    cases hreach : env.reach e with
    | value b =>
      obtain rfl := Callables.eq_of_reach_value hreach
      cases h
    | call callee f =>
      rw [evaluate_of_call hreach] at h
      refine ⟨callee, f, rfl, ?_⟩
      cases ho : (f s).1 with
      | ready v =>
        rw [ho] at h
        rcases v.expectBool_cases callee.kind with ⟨b, hb⟩ | herror
        · rw [Output.settle_ready_of_ok ⟨[], callee⟩ hb] at h; cases h
        · rw [Output.settle_ready_of_error ⟨[], callee⟩ herror] at h; cases h
      | deferred promise =>
        rw [ho] at h
        cases h
        exact ⟨rfl, rfl⟩
    | fault error => rw [evaluate_of_fault hreach] at h; cases h
    | operands op es =>
      obtain rfl := Callables.eq_of_reach_operands hreach
      rw [evaluate_operator] at h
      cases hr : (evaluateOperands env op [] 0 es (VisitCounter.visit {}) s).result with
      | error error => simp [hr, Except.map] at h
      | ok b => simp [hr, Except.map] at h
  · rintro ⟨callee, f, hreach, hcall, ho⟩
    rw [evaluate_of_call hreach, ho]
    obtain ⟨call, promise⟩ := d
    obtain rfl : call = ⟨[], callee⟩ := hcall
    rfl

/-- What a walk has done when it hands a promise over. -/
theorem journal_of_result_eq_deferred {s : σ} {d : Deferred}
    (h : ((evaluate env [] e).run s).result = .ok (.deferred d)) :
    ((evaluate env [] e).run s).journal = [.visited [], .called d.call (.deferred d.promise)] := by
  obtain ⟨callee, f, hreach, hcall, ho⟩ := result_eq_deferred_iff.mp h
  rw [Walk.run, evaluate_of_call hreach, ho, hcall]

/-- A call at a counter of one is the call of the root. -/
theorem length_entered_eq_one_iff (he : e.Readable) {s : σ} {earlier later : Journal} {call : Call}
    {o : Output} (h : ((evaluate env [] e).run s).journal = earlier ++ .called call o :: later) :
    earlier.entered.length = 1 ↔ call.position = [] := by
  rw [Walk.run] at h
  cases hreach : env.reach e with
  | value b =>
    obtain rfl := Callables.eq_of_reach_value hreach
    exact absurd h (Journal.visited_ne_called [])
  | call callee f =>
    rw [evaluate_of_call hreach] at h
    obtain ⟨rfl, hcall⟩ := Journal.eq_of_called_leaf (by simp) h
    simp [← hcall]
  | fault error =>
    rw [evaluate_of_fault hreach] at h
    exact absurd h (Journal.visited_ne_called [])
  | operands op es =>
    obtain rfl := Callables.eq_of_reach_operands hreach
    have hprefix := (inStep_operator env he op [] {} s).journal_isPrefix
    have hentered := ((Async.entersFirst env).1 _ [] s).of_isPrefix hprefix earlier call o later h
    rw [evaluate_operator] at h
    obtain ⟨between, rfl, hops⟩ := Journal.eq_cons_of_called h
    -- the call is below the root, so two nodes have been entered at least
    have hne := position_ne_nil_of_operator env op he (Nat.le_refl 1) s call o
      (hops ▸ List.mem_append_right _ List.mem_cons_self)
    rw [Journal.entered_cons_visited] at hentered ⊢
    have hmem := (List.mem_cons.mp hentered).resolve_left hne
    have hpos := List.length_pos_of_mem hmem
    rw [List.length_cons]
    exact ⟨fun hone => by omega, fun hnil => absurd hnil hne⟩

/-- Below the root no promise comes out. -/
theorem result_ne_deferred (he : e.Readable) (p : Position) {c : VisitCounter}
    (hc : 1 ≤ c.visits) (s : σ) (d : Deferred) :
    (evaluate env p e c s).result ≠ .ok (.deferred d) := by
  intro h
  rcases inStep_evaluate env he p hc s with ⟨b, hres, -, -⟩ | ⟨error, hres, -, -, -⟩ |
    ⟨_, _, _, _, hres, -, -, -⟩
  all_goals rw [hres] at h; cases h

/-- A promise below the root ends the walk from the root, which fails for it. -/
theorem eq_of_called_deferred (he : e.Readable) {s : σ} {earlier later : Journal} {call : Call}
    {promise : Promise}
    (h : ((evaluate env [] e).run s).journal = earlier ++ .called call (.deferred promise) :: later)
    (hcall : call.position ≠ []) :
    ((evaluate env [] e).run s).result = .error (.unexpectedNestedPromise call.kind) ∧
      later = [] := by
  rw [Walk.run] at h ⊢
  have hmem : Event.called call (.deferred promise) ∈ (evaluate env [] e {} s).journal :=
    h ▸ List.mem_append_right _ List.mem_cons_self
  cases hreach : env.reach e with
  | value b =>
    obtain rfl := Callables.eq_of_reach_value hreach
    exact absurd h (Journal.visited_ne_called [])
  | call callee f =>
    rw [evaluate_of_call hreach] at h
    exact absurd (congrArg Call.position (Journal.eq_of_called_leaf (by simp) h).2).symm hcall
  | fault error =>
    rw [evaluate_of_fault hreach] at h
    exact absurd h (Journal.visited_ne_called [])
  | operands op es =>
    obtain rfl := Callables.eq_of_reach_operands hreach
    rcases inStep_operator env he op [] {} s with ⟨b, -, himm, -⟩ | ⟨error, -, -, himm, -⟩ |
      ⟨before, last, promise', resume, hres, hjournal, himm, -⟩
    · exact absurd hmem (himm call promise)
    · exact absurd hmem (himm call promise)
    · obtain ⟨rfl, hlater⟩ := himm.eq_of_called (hjournal.symm.trans h)
      exact ⟨hres, hlater⟩

end Sync

/-! ### The main theorem -/

/-- The truth value of an operand, with `answer` in place of the refusal of promises. -/
def Evaluation.operandValueOr (answer : Deferred → Except EvalError Bool) :
    Evaluation → Except EvalError Bool
  | .ready b => .ok b
  | .deferred d => answer d

/-- What a walk hands over is what the root's call promises. -/
theorem handsOver_iff {env : Callables σ} {root : Node} {s : σ} {d : Deferred} :
    ((Sync.evaluate env [] (.ofNode root)).run s).result = .ok (.deferred d) ↔
      HandsOver env root s d := by
  rw [Sync.result_eq_deferred_iff]
  constructor
  · rintro ⟨callee, f, hreach, hcall, ho⟩
    have hkind : d.kind = callee.kind := congrArg Call.kind hcall
    rcases Callables.classify_of_reach_call hreach with ⟨name, hclass, rfl, rfl⟩ |
      ⟨name, args, g, vs, hclass, hg, hdata, hargs, rfl, rfl⟩
    · exact .predicate name hclass hcall hkind ho
    · exact .function name args g vs hclass hg hdata hargs hcall hkind ho
  · rintro (⟨name, hclass, hcall, -, ho⟩ | ⟨name, args, g, vs, hclass, hg, -, hargs, hcall, -, ho⟩)
    · exact ⟨_, _, Callables.reach_ofNode_of_predicate hclass, hcall, ho⟩
    · exact ⟨_, _, Callables.reach_ofNode_of_function hclass hg hargs, hcall, ho⟩

/-- **Promises come out of a walk from the root alone.**  The counter is the number of
nodes entered, at each check and at the end, and it tells the root; what the root's
call promises is handed over as it is, any other promise ends the walk.  Where a
node has been entered before, no promise comes out, so it does not matter how the
operands would take one. -/
theorem promises_only_from_root (env : Callables σ) :
    (∀ root s, RootPromises env root s ((Sync.evaluate env [] (.ofNode root)).run s)) ∧
      ∀ (node : Node) p (c : VisitCounter) s, 1 ≤ c.visits →
        (∀ d, (Sync.evaluate env p (.ofNode node) c s).result ≠ .ok (.deferred d)) ∧
        ∀ answer,
          (Sync.evaluate env p (.ofNode node) >>= fun outcome =>
            Walk.demand (outcome.operandValueOr answer)) c s =
          (Sync.evaluate env p (.ofNode node) >>= fun outcome =>
            Walk.demand outcome.operandValue) c s := by
  constructor
  · intro root s
    have he := Expr.readable_ofNode root
    have hcounted := Sync.counted_evaluate env (.ofNode root) [] {} s
    have hvisits := hcounted.visits_counter
    simp only [Nat.zero_add] at hvisits
    have hle := Nat.le_trans hcounted.length_entered_le (Expr.size_ofNode_le root)
    exact {
      length_checks := hcounted.length_checks
      check_of_called := by
        intro earlier call o later h
        refine ⟨_, hcounted.check_of_called h, by simp [Journal.count], ?_⟩
        simpa [Journal.count] using Sync.length_entered_eq_one_iff he h
      deferred_iff := fun d => handsOver_iff
      unpolled := fun d => Sync.journal_of_result_eq_deferred
      nested := fun earlier call promise later => Sync.eq_of_called_deferred he
      visits_eq := hvisits
      one_le_visits := by
        obtain ⟨rest, hrest⟩ := Sync.journal_evaluate_head env (.ofNode root) [] {} s
        rw [Walk.run, hvisits, hrest, Journal.entered_cons_visited, List.length_cons]
        omega
      visits_le := by rw [Walk.run, hvisits]; exact hle
      visits_lt := by
        intro limit hlimit
        have hsize := Expr.size_ofNode_le root
        refine hcounted.visits_lt ?_
        rw [Nat.zero_add]
        exact Nat.lt_of_le_of_lt hsize hlimit }
  · intro node p c s hc
    have hne : ∀ d, (Sync.evaluate env p (.ofNode node) c s).result ≠ .ok (.deferred d) :=
      Sync.result_ne_deferred (Expr.readable_ofNode node) p hc s
    refine ⟨hne, fun answer => ?_⟩
    simp only [Walk.bind_eq, Walk.next]
    cases hr : (Sync.evaluate env p (.ofNode node) c s).result with
    | error error => rfl
    | ok outcome =>
      cases outcome with
      | ready b => rfl
      | deferred d => exact absurd hr (hne d)

/-- Every predicate promises true at once. -/
def promisedTrue : Callables Unit := ⟨fun _ s => (.deferred ⟨.bool true, 0⟩, s), .empty⟩

/-- The promise of a predicate is handed over at the root and nowhere below it. -/
theorem promise_at_root_not_below :
    ((Sync.evaluate promisedTrue [] (.ofNode (.predicate "late"))).run ()).result =
        .ok (.deferred ⟨⟨[], .predicate "late"⟩, ⟨.bool true, 0⟩⟩) ∧
      ∀ d, (Sync.evaluate promisedTrue [0] (.ofNode (.predicate "late")) ⟨1⟩ ()).result ≠
        .ok (.deferred d) := by
  have hroot := (promises_only_from_root promisedTrue).1 (.predicate "late") ()
  have hbelow := (promises_only_from_root promisedTrue).2 (.predicate "late") [0] ⟨1⟩ ()
    (Nat.le_refl 1)
  refine ⟨(hroot.deferred_iff _).mpr ?_, hbelow.1⟩
  exact .predicate "late" rfl rfl rfl rfl

end BooleanRules
