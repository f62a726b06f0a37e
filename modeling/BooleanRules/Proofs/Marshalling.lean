import BooleanRules.Proofs.Retraction
import BooleanRules.Proofs.Trimming
import BooleanRules.Proofs.Visited

/-!
# What functions receive

A function node that is visited hands its arguments over as they stand, one value for each item of
a list and one value for anything else, or it does not call its function at all, if a predicate
occurs in them.  So a run cannot tell arguments that come to the same values one by one, and they
may be exchanged at any number of nodes at once.

## Main definitions

* `Marshalled` — what a run hands to the functions of the nodes that it visits.
* `Node.Rearranged` — the same data, written in another way.
* `Node.SameArguments`, `Node.Respelled` — arguments that no function can tell apart, and trees
  that differ in such arguments alone.

## Main results

* `Visiting.marshalled` — functions receive what stands in the tree.
* `Node.Rearranged.toValue_eq` — the same data has the same value.
* `Node.Respelled.ofNode_eq` — respelled trees mean the same.
* `arguments_marshalled` — **every visited function receives its arguments once or fails, and how
  they are written makes no difference.**
-/

namespace BooleanRules

variable {σ : Type}

/-! ### The calls at a position -/

namespace Journal

/-- The calls that are made at a position, with their results. -/
def madeAt (j : Journal) (p : Position) : List (Call × Output) :=
  j.made.filter fun m => m.1.position = p

variable {j : Journal} {p : Position}

theorem madeAt_eq_nil_iff : j.madeAt p = [] ↔ ∀ call o, (call, o) ∈ j.made → call.position ≠ p := by
  simp [madeAt, List.filter_eq_nil_iff]

/-- Calls that go through the document are made once where they are made. -/
theorem Increasing.madeAt_eq (h : j.Increasing) {call : Call} {o : Output}
    (hmem : (call, o) ∈ j.made) : j.madeAt call.position = [(call, o)] := by
  rw [Increasing] at h
  rw [madeAt]
  generalize j.made = calls at h hmem
  induction calls with
  | nil => cases hmem
  | cons m rest ih =>
    obtain ⟨hlt, hrest⟩ := List.pairwise_cons.mp h
    have hne : ∀ m' ∈ rest, m'.1.position ≠ m.1.position := by
      intro m' hm' heq
      have hless := hlt m' hm'
      rw [heq] at hless
      exact List.lt_irrefl _ hless
    rcases List.mem_cons.mp hmem with rfl | hmem
    · have hnone : rest.filter (fun m => m.1.position = call.position) = [] :=
        List.filter_eq_nil_iff.mpr fun m' hm' heq => hne m' hm' (of_decide_eq_true heq)
      simp [hnone]
    · have hother : m.1.position ≠ call.position := (hne _ hmem).symm
      rw [List.filter_cons_of_neg (by simpa using hother)]
      exact ih hrest hmem

end Journal

/-! ### Arguments one by one -/

namespace Node

theorem toValues_eq_ok_iff {ns : List Node} {vs : List Value} :
    toValues ns = .ok vs ↔ List.Forall₂ (fun n v => n.toValue = .ok v) ns vs := by
  induction ns generalizing vs with
  | nil => simp [toValues, eq_comm]
  | cons n ns ih =>
    rw [List.forall₂_cons_left_iff]
    constructor
    · intro h
      obtain ⟨v, hv, h⟩ := exists_of_bind_eq_ok h
      obtain ⟨rest, hrest, h⟩ := exists_of_bind_eq_ok h
      cases h
      exact ⟨v, rest, hv, ih.mp hrest, rfl⟩
    · rintro ⟨v, rest, hv, hrest, rfl⟩
      rw [toValues, hv, ih.mpr hrest]
      rfl

/-- Where no predicate occurs there are arguments. -/
theorem exists_arguments {args : Node} (h : ¬ args.HoldsPredicate) :
    ∃ vs, args.arguments = .ok vs := by
  rcases args.arguments_cases with ⟨-, hvs⟩ | ⟨hdata, -⟩
  · exact hvs
  · exact absurd (holdsPredicate_iff.mpr hdata) h

end Node

/-! ### Visited function nodes -/

/-- What a run of `root` hands to the functions of the nodes that it visits, which has left the
journal `j` and has led from the state `s` to the state `s'`. -/
structure Marshalled (env : Callables σ) (root : Node) (s : σ) (j : Journal) (s' : σ)
    (fails : EvalError → Prop) : Prop where
  /-- The state changes by what is called alone. -/
  replays : env.Replays (.ofNode root) s j s'
  /-- If a predicate occurs in the arguments of a function that is there, it is not called, and the
  run fails. -/
  refused : ∀ p name args rest, .visited p ∈ j →
    root.at? p = some (.map ((name, args) :: rest)) → hasSigil name = false →
    env.functions.contains name = true → args.HoldsPredicate →
    fails (.unexpectedToken "[predicate]") ∧ j.madeAt p = []
  /-- Otherwise it is called once, with the values of its arguments one by one and in the state
  that the calls before it have left. -/
  called : ∀ p name f args rest, .visited p ∈ j →
    root.at? p = some (.map ((name, args) :: rest)) → hasSigil name = false →
    env.functions.get? name = some f → ¬ args.HoldsPredicate →
    ∃ (vs : List Value) (earlier later : Journal) (s₁ : σ),
      List.Forall₂ (fun n v => n.toValue = .ok v) args.positional vs ∧
      env.Replays (.ofNode root) s earlier s₁ ∧
      j = earlier ++ .visited p :: .called ⟨p, .function name vs⟩ (f vs s₁).1 :: later ∧
      j.madeAt p = [(⟨p, .function name vs⟩, (f vs s₁).1)]

/-- **Functions receive what stands in the tree.** -/
theorem Visiting.marshalled {env : Callables σ} {root : Node} {s s' : σ} {j : Journal}
    {fails : EvalError → Prop} (h : Visiting env root s j s' fails) :
    Marshalled env root s j s' fails where
  replays := h.replays
  refused p name args rest hvisited hn hsigil hregistered hpredicate := by
    have hdata := Node.holdsPredicate_iff.mp hpredicate
    refine ⟨(h.rejected p _ _ _ hvisited hn (.arguments name args rest hsigil hregistered
      hdata)).2, Journal.madeAt_eq_nil_iff.mpr ?_⟩
    -- who makes a call there has arguments without predicates
    rintro ⟨q, callee⟩ o hmade rfl
    obtain ⟨root', n, hroot, hat, hmakes⟩ := h.calls.leaf _ o hmade
    cases hroot
    cases hn.symm.trans hat
    cases hmakes with
    | function _ _ _ vs _ _ hargs => cases hdata.symm.trans hargs
  called p name f args rest hvisited hn hsigil hf hpredicate := by
    obtain ⟨vs, hvs⟩ := Node.exists_arguments hpredicate
    have hat : (Expr.ofNode root).at? p = some (.function name (.ok vs)) := by
      rw [Expr.at?_ofNode, hn, Option.map_some, Expr.ofNode_function hsigil, hvs]
    have hreach : env.reach (.function name (.ok vs)) = .call (.function name vs) (f vs) := by
      simp only [Callables.reach, Callables.function_eq_ok_iff.mpr hf]
    obtain ⟨earlier, later, s₁, hearlier, rfl⟩ := h.replays.called_of_visited hvisited hat hreach
    rw [Node.arguments_eq_toValues, Node.toValues_eq_ok_iff] at hvs
    refine ⟨vs, earlier, later, s₁, hvs, hearlier, rfl, ?_⟩
    have hcalled : .called ⟨p, .function name vs⟩ (f vs s₁).1 ∈
        earlier ++ .visited p :: .called ⟨p, .function name vs⟩ (f vs s₁).1 :: later := by simp
    exact h.calls.increasing.madeAt_eq (Journal.mem_made.mpr hcalled)

/-! ### The same data -/

namespace Node

/-- The same data, written in another way: entries without repeated keys come in another order, or
an entry is left out that a later one takes the place of. -/
inductive Rearranged : Node → Node → Prop
  | refl (n : Node) : Rearranged n n
  | symm {n n' : Node} (h : Rearranged n n') : Rearranged n' n
  | trans {n n' n'' : Node} (h : Rearranged n n') (h' : Rearranged n' n'') : Rearranged n n''
  | item (before after : List Node) {n n' : Node} (inside : Rearranged n n') :
    Rearranged (.list (before ++ n :: after)) (.list (before ++ n' :: after))
  | entry (before : List (String × Node)) (k : String) (after : List (String × Node)) {n n' : Node}
    (inside : Rearranged n n') :
    Rearranged (.map (before ++ (k, n) :: after)) (.map (before ++ (k, n') :: after))
  | reordered {entries entries' : List (String × Node)} (nodup : (entries.map Prod.fst).Nodup)
    (perm : entries.Perm entries') : Rearranged (.map entries) (.map entries')
  | dropped (before between after : List (String × Node)) (k : String) (n' : Node) {n : Node}
    (no_predicate : ¬ n.HoldsPredicate) :
    Rearranged (.map (before ++ (k, n) :: (between ++ (k, n') :: after)))
      (.map (before ++ (between ++ (k, n') :: after)))

theorem toValues_congr {ns ns' : List Node} (h : ns.map toValue = ns'.map toValue) :
    toValues ns = toValues ns' := by
  induction ns generalizing ns' with
  | nil =>
    rw [List.map_nil, eq_comm, List.map_eq_nil_iff] at h
    rw [h]
  | cons n ns ih =>
    cases ns' with
    | nil => cases h
    | cons n' ns' =>
      rw [List.map_cons, List.map_cons, List.cons.injEq] at h
      rw [toValues, toValues, h.1, ih h.2]

theorem toEntries_congr {before after : List (String × Node)} {k : String} {n n' : Node}
    (h : n.toValue = n'.toValue) :
    toEntries (before ++ (k, n) :: after) = toEntries (before ++ (k, n') :: after) := by
  induction before with
  | nil => rw [List.nil_append, List.nil_append, toEntries, toEntries, h]
  | cons e before ih => rw [List.cons_append, List.cons_append, toEntries, toEntries, ih]

theorem holdsPredicate_map_iff {entries : List (String × Node)} :
    (map entries).HoldsPredicate ↔ ∃ e ∈ entries, e.2.HoldsPredicate := by
  constructor
  · rintro (_ | _ | ⟨mem, inside⟩)
    exact ⟨_, mem, inside⟩
  · rintro ⟨e, mem, inside⟩
    exact .entry mem inside

/-- What a value of a map holds is what the last entries hold. -/
theorem Conveys.map_congr {entries entries' : List (String × Node)} {v : Value}
    (hlast : ∀ k, valueOf? k entries.reverse = valueOf? k entries'.reverse)
    (h : Conveys (.map entries) v) : Conveys (.map entries') v := by
  cases h with
  | map ascending mem_keys conveyed =>
    have hkeys : ∀ k (es : List (String × Node)),
        k ∈ es.map Prod.fst ↔ (valueOf? k es.reverse).isSome := by
      intro k es
      rw [isSome_valueOf?_iff, List.map_reverse, List.mem_reverse]
    refine .map ascending (fun k => ?_) fun k n v hn => conveyed k n v ((hlast k).trans hn)
    rw [mem_keys k, hkeys, hkeys, hlast]

/-- Maps with the same last entries have the same value, or none for a predicate. -/
theorem toValue_map_congr {entries entries' : List (String × Node)}
    (hpredicate : (map entries).HoldsPredicate ↔ (map entries').HoldsPredicate)
    (hlast : ∀ k, valueOf? k entries.reverse = valueOf? k entries'.reverse) :
    (map entries).toValue = (map entries').toValue := by
  cases h : (map entries).toValue with
  | error error =>
    obtain ⟨hholds, herror⟩ := toValue_eq_error_iff.mp h
    exact (toValue_eq_error_iff.mpr ⟨hpredicate.mp hholds, herror⟩).symm
  | ok v =>
    obtain ⟨hdata, hconveys⟩ := toValue_eq_ok_iff.mp h
    exact (toValue_eq_ok_iff.mpr ⟨mt hpredicate.mpr hdata, hconveys.map_congr hlast⟩).symm

/-- **The same data has the same value.** -/
theorem Rearranged.toValue_eq {n n' : Node} (h : Rearranged n n') : n.toValue = n'.toValue := by
  induction h with
  | refl n => rfl
  | symm _ ih => exact ih.symm
  | trans _ _ ih ih' => exact ih.trans ih'
  | @item before after n n' _ ih =>
    have hitems : toValues (before ++ n :: after) = toValues (before ++ n' :: after) :=
      toValues_congr (by simp only [List.map_append, List.map_cons, ih])
    rw [toValue, hitems, toValue]
  | entry before k after _ ih => rw [toValue, toEntries_congr ih, toValue]
  | @reordered entries entries' hnodup hperm =>
    refine toValue_map_congr ?_ fun k => Option.ext fun n => ?_
    · simp only [holdsPredicate_map_iff, hperm.mem_iff]
    · have hnodup' := (hperm.map Prod.fst).nodup_iff.mp hnodup
      rw [← List.nodup_reverse, ← List.map_reverse] at hnodup hnodup'
      rw [valueOf?_eq_some_iff hnodup, valueOf?_eq_some_iff hnodup', List.mem_reverse,
        List.mem_reverse, hperm.mem_iff]
  | dropped before between after k n' hdata =>
    refine toValue_map_congr ?_ fun k' => ?_
    · simp only [holdsPredicate_map_iff, List.mem_append, List.mem_cons, or_and_right, exists_or,
        exists_eq_left, hdata, false_or]
    · by_cases hk : k = k' <;> simp [valueOf?_append, valueOf?, hk]

/-! ### Arguments that functions cannot tell apart -/

/-- Arguments that no function can tell apart: one argument that is no list may be made a list of
one, and arguments may be exchanged that come to the same values one by one, such as the same data
written in another way. -/
inductive SameArguments : Node → Node → Prop
  | listed (x : Node) (no_list : x.isList = false) : SameArguments x (.list [x])
  | results {args args' : Node}
    (same : args.positional.map toValue = args'.positional.map toValue) : SameArguments args args'
  | rearranged {args args' : Node} (same : Rearranged args args') : SameArguments args args'

mutual

/-- The trees are alike but for the arguments of function nodes at evaluated positions, which no
function can tell apart. -/
inductive Respelled : Node → Node → Prop
  | same (n : Node) : Respelled n n
  | function {name : String} {args args' : Node} (rest : List (String × Node))
    (no_sigil : hasSigil name = false) (same : SameArguments args args') :
    Respelled (.map ((name, args) :: rest)) (.map ((name, args') :: rest))
  | operator (op : Operator) {items items' : List Node} (rest : List (String × Node))
    (operands : AllRespelled items items') :
    Respelled (.map ((op.key, .list items) :: rest)) (.map ((op.key, .list items') :: rest))

/-- The operands are alike, one by one. -/
inductive AllRespelled : List Node → List Node → Prop
  | nil : AllRespelled [] []
  | cons {n n' : Node} {ns ns' : List Node} (first : Respelled n n') (rest : AllRespelled ns ns') :
    AllRespelled (n :: ns) (n' :: ns')

end

/-- Lists of the same data hold it one by one. -/
theorem Rearranged.positional_eq {n n' : Node} (h : Rearranged n n') :
    n.positional.map toValue = n'.positional.map toValue := by
  -- a map is an argument as a whole
  have hmap : ∀ {es es'}, Rearranged (.map es) (.map es') →
      (map es).positional.map toValue = (map es').positional.map toValue :=
    fun h => congrArg (fun r => [r]) h.toValue_eq
  induction h with
  | refl n => rfl
  | symm _ ih => exact ih.symm
  | trans _ _ ih ih' => exact ih.trans ih'
  | item before after inside =>
    rw [positional, positional, List.map_append, List.map_cons, inside.toValue_eq, List.map_append,
      List.map_cons]
  | entry before k after inside => exact hmap (.entry before k after inside)
  | reordered nodup perm => exact hmap (.reordered nodup perm)
  | dropped before between after k n' hdata => exact hmap (.dropped before between after k n' hdata)

/-- Arguments that come to the same values one by one are the same arguments. -/
theorem SameArguments.arguments_eq {args args' : Node} (h : SameArguments args args') :
    args'.arguments = args.arguments := by
  rw [arguments_eq_toValues, arguments_eq_toValues]
  cases h with
  | listed no_list =>
    cases args with
    | list items => cases no_list
    | _ => rfl
  | results same => exact (toValues_congr same).symm
  | rearranged same => exact (toValues_congr same.positional_eq).symm

mutual

/-- **Respelled trees mean the same.** -/
theorem Respelled.ofNode_eq : ∀ {n n' : Node}, Respelled n n' → Expr.ofNode n' = Expr.ofNode n
  | _, _, .same _ => rfl
  | _, _, .function rest no_sigil same => by
    rw [Expr.ofNode_function no_sigil, Expr.ofNode_function no_sigil, same.arguments_eq]
  | .map ((_, .list items) :: _), _, .operator op rest operands => by
    rw [Expr.ofNode_operator, Expr.ofNode_operator, AllRespelled.ofNodes_eq items operands]

theorem AllRespelled.ofNodes_eq : ∀ (ns : List Node) {ns' : List Node}, AllRespelled ns ns' →
    ns'.map Expr.ofNode = ns.map Expr.ofNode
  | [], _, .nil => rfl
  | _ :: ns, _, .cons first rest => by
    rw [List.map_cons, List.map_cons, first.ofNode_eq, AllRespelled.ofNodes_eq ns rest]

end

theorem Respelled.isNull_eq {n n' : Node} (h : Respelled n n') : n'.isNull = n.isNull := by
  cases h <;> rfl

end Node

/-! ### The main theorem -/

/-- **Every visited function receives its arguments once or fails, and how they are written makes
no difference.**  This holds for walking and for waiting within any budget.  Trees that differ in
the arguments of function nodes alone, at as many places as one likes, are evaluated in the same
way if no function can tell the arguments apart. -/
theorem arguments_marshalled (policy : MissingRoot) (env : Callables σ) (root : Node) :
    (∀ s, let w := (evaluateSync policy env (some root)).run s
      Marshalled env root s w.journal w.state fun error => w.result = .error error) ∧
    (∀ s budget, let d := (evaluateAsync policy env (some root)).run budget s
      Marshalled env root s d.journal d.state fun error => d.result = some (.error error)) ∧
    ∀ root', root.Respelled root' →
      evaluateSync policy env (some root') = evaluateSync policy env (some root) ∧
        evaluateAsync policy env (some root') = evaluateAsync policy env (some root) := by
  refine ⟨?_, ?_, ?_⟩
  · exact fun s => (visiting_evaluateSync policy env root s).marshalled
  · exact fun s budget => (visiting_evaluateAsync policy env root s budget).marshalled
  · exact fun root' h => ⟨evaluateSync_congr h.isNull_eq h.ofNode_eq,
      evaluateAsync_congr h.isNull_eq h.ofNode_eq⟩

/-- The function `f` answers true, and the state keeps the arguments that it has received. -/
def receiving : Callables (List (List Value)) where
  predicate _ received := (.ready (.bool true), received)
  functions := Registry.empty.register "f" fun args received =>
    (.ready (.bool true), received ++ [args])

/-- A rule whose functions receive a text and a map, and the same rule with the text in a list and
the map without the entry that another one takes the place of, in another order.  If that entry
holds a predicate the second call is not made. -/
theorem received_text_and_map :
    let rule (shadowed : Node) : Node := .and [.call "f" (.string "x"),
      .call "f" (.map [("b", shadowed), ("a", .bool true), ("b", .list [])])]
    let respelled : Node := .and [.call "f" (.list [.string "x"]),
      .call "f" (.map [("b", .list []), ("a", .bool true)])]
    let object : Value := .object [("a", .bool true), ("b", .array [])]
    evaluateSync .error receiving (some respelled) =
        evaluateSync .error receiving (some (rule .null)) ∧
      ((evaluateSync .error receiving (some (rule .null))).run []).state =
        [[.string "x"], [object]] ∧
      ∀ budget, budget ≠ some 0 →
        ((evaluateAsync .error receiving (some (rule (.predicate "p")))).run budget []).result =
          some (.error (.unexpectedToken "[predicate]")) := by
  intro rule respelled object
  refine ⟨?_, rfl, fun budget hbudget => ?_⟩
  · have hmap : Node.Rearranged (.map [("b", .null), ("a", .bool true), ("b", .list [])])
        (.map [("b", .list []), ("a", .bool true)]) :=
      .trans
        (.dropped [] [("a", .bool true)] [] "b" (.list []) (Node.not_holdsPredicate_iff.mpr rfl))
        (.reordered (by decide) (.swap ..))
    have hrespelled : (rule .null).Respelled respelled :=
      .operator .and [] (.cons (.function [] rfl (.listed _ rfl))
        (.cons (.function [] rfl (.rearranged hmap)) .nil))
    exact ((arguments_marshalled .error receiving (rule .null)).2.2 respelled hrespelled).1
  · obtain ⟨-, hwait, -⟩ := arguments_marshalled .error receiving (rule (.predicate "p"))
    have hmarshalled := hwait [] budget
    have hvisited : .visited [1] ∈ ((evaluateAsync .error receiving
        (some (rule (.predicate "p")))).run budget []).journal := by
      match budget with
      | none => exact List.mem_of_getLast? rfl
      | some 0 => exact absurd rfl hbudget
      | some (more + 1) => exact List.mem_of_getLast? rfl
    exact (hmarshalled.refused [1] "f" _ [] hvisited rfl rfl rfl
      (Node.holdsPredicate_iff.mpr rfl)).1

end BooleanRules
