import BooleanRules.Proofs.Reading

/-!
# What reaching a node comes to

The expression of a node hides which node it came from.  Here the two are put side
by side: which nodes make a call when they are reached (`Node.Makes`), and which are
rejected, for which reason and by which error (`Node.Rejected`).

The grammar looks at a map in a fixed order: first whether the key names an operator,
then whether it has the sigil of operators, then whether a function is registered
under it, and at the arguments last.  So an undefined function is reported whatever
its arguments are.

## Main definitions

* `Reason` — the reasons for which an evaluation fails.
* `Node.Rejected` — the reason for which a node is rejected, and the error.
* `Node.Makes` — the call that a node makes.

## Main results

* `Callables.reach_ofNode_eq_fault_iff` — reaching a node is a fault exactly if the
  node is rejected.
* `Node.Rejected.reason_eq` — there is one reason.
* `Callables.makes_of_reach_call` — what is called is what the node makes.
-/

namespace BooleanRules

variable {σ : Type}

/-! ### Keys -/

theorem Operator.ofKey?_eq_none_iff {k : String} :
    ofKey? k = none ↔ k ≠ "$and" ∧ k ≠ "$or" := by
  unfold ofKey?
  split
  · rename_i h
    simp [h]
  · rename_i hand
    split
    · rename_i h
      simp [h]
    · rename_i hor
      simp [hand, hor]

/-- The keys of operators have the sigil. -/
theorem Operator.hasSigil_key (op : Operator) : hasSigil op.key = true := by
  cases op <;> decide

namespace KeyRole

theorem ofKey_eq_operator_iff {k : String} {op : Operator} :
    ofKey k = .operator op ↔ k = op.key := by
  constructor
  · intro h
    unfold ofKey at h
    split at h
    · rename_i op' hop
      cases h
      exact Operator.ofKey?_eq_some_iff.mp hop
    · split at h <;> cases h
  · rintro rfl
    exact ofKey_key op

theorem ofKey_eq_unrecognized_iff {k : String} :
    ofKey k = .unrecognized ↔ hasSigil k = true ∧ k ≠ "$and" ∧ k ≠ "$or" := by
  rw [← Operator.ofKey?_eq_none_iff]
  unfold ofKey
  cases hop : Operator.ofKey? k with
  | some op => simp
  | none => cases hsigil : hasSigil k <;> simp

/-- All keys without the sigil name functions. -/
theorem ofKey_eq_function_iff {k : String} : ofKey k = .function ↔ hasSigil k = false := by
  unfold ofKey
  cases hop : Operator.ofKey? k with
  | some op =>
    obtain rfl := Operator.ofKey?_eq_some_iff.mp hop
    simp [op.hasSigil_key]
  | none => cases hsigil : hasSigil k <;> simp

end KeyRole

/-! ### Rejected nodes -/

/-- The reasons for which an evaluation fails. -/
inductive Reason where
  /-- There is no expression. -/
  | absent
  /-- A node has no place in the grammar. -/
  | stray
  /-- An operator has something else in place of a list. -/
  | operands
  /-- The arguments of a function hold a predicate. -/
  | arguments
  /-- A key has the sigil and names no operator. -/
  | key
  /-- A name is not registered. -/
  | name
  /-- A call gave something else than a truth value. -/
  | returnType
  /-- A call below the root gave a promise. -/
  | nestedPromise
  deriving DecidableEq

namespace Node

/-- Null, numbers, texts, lists and the empty map have no place in the grammar. -/
def isStray : Node → Bool
  | .null | .number _ | .string _ | .list _ | .map [] => true
  | _ => false

/-- The node is a list. -/
def isList : Node → Bool
  | .list _ => true
  | _ => false

/-- `n.Rejected env reason error` says that the node `n` is rejected when it is reached,
for which reason, and by which error. -/
inductive Rejected (env : Callables σ) : Node → Reason → EvalError → Prop where
  | stray (n : Node) (isStray : n.isStray = true) :
    Rejected env n .stray (.unexpectedToken n.display)
  | operands (op : Operator) (value : Node) (rest : List (String × Node))
    (noList : value.isList = false) :
    Rejected env (.map ((op.key, value) :: rest)) .operands (.unexpectedToken value.display)
  | arguments (name : String) (args : Node) (rest : List (String × Node))
    (noSigil : hasSigil name = false) (registered : env.functions.contains name = true)
    (noData : args.isData = false) :
    Rejected env (.map ((name, args) :: rest)) .arguments (.unexpectedToken "[predicate]")
  | key (key : String) (value : Node) (rest : List (String × Node))
    (sigil : hasSigil key = true) (ne_and : key ≠ "$and") (ne_or : key ≠ "$or") :
    Rejected env (.map ((key, value) :: rest)) .key (.unrecognizedOperator key)
  | name (name : String) (args : Node) (rest : List (String × Node))
    (noSigil : hasSigil name = false) (undefined : env.functions.contains name = false) :
    Rejected env (.map ((name, args) :: rest)) .name (.undefinedFunction name)

/-- A call that a node makes: a predicate makes its own, and a map whose first key is
the name of a registered function makes one if there is no predicate in the arguments. -/
inductive Makes (env : Callables σ) : Node → Callee → Prop where
  | predicate (name : String) : Makes env (.predicate name) (.predicate name)
  | function (name : String) (args : Node) (rest : List (String × Node)) (vs : List Value)
    (noSigil : hasSigil name = false) (registered : env.functions.contains name = true)
    (isData : args.isData = true) (args_eq : args.arguments = .ok vs) :
    Makes env (.map ((name, args) :: rest)) (.function name vs)

/-- The reason for which a node is rejected, if it is: the first key of a map tells it,
and the registry. -/
def reason (env : Callables σ) : Node → Reason
  | .map ((key, _) :: _) =>
    match KeyRole.ofKey key with
    | .operator _ => .operands
    | .unrecognized => .key
    | .function => if env.functions.contains key then .arguments else .name
  | _ => .stray

/-- A node is rejected for one reason. -/
theorem Rejected.reason_eq {env : Callables σ} {n : Node} {r : Reason} {error : EvalError}
    (h : n.Rejected env r error) : r = n.reason env := by
  cases h with
  | stray n hstray =>
    match n with
    | .null | .number _ | .string _ | .list _ | .map [] => rfl
    | .bool _ | .predicate _ | .map (_ :: _) => cases hstray
  | operands op value rest hlist => simp only [reason, KeyRole.ofKey_key]
  | arguments name args rest hsigil hregistered hdata =>
    simp only [reason, KeyRole.ofKey_eq_function_iff.mpr hsigil, hregistered, if_true]
  | key key value rest hsigil hand hor =>
    simp only [reason, KeyRole.ofKey_eq_unrecognized_iff.mpr ⟨hsigil, hand, hor⟩]
  | name name args rest hsigil hundefined =>
    simp only [reason, KeyRole.ofKey_eq_function_iff.mpr hsigil, hundefined]
    rfl

end Node

/-! ### Reaching nodes -/

/-- A map whose first key has no sigil means a function. -/
theorem Expr.ofNode_function {name : String} (hsigil : hasSigil name = false) (args : Node)
    (rest : List (String × Node)) :
    ofNode (.map ((name, args) :: rest)) = .function name args.arguments := by
  rw [ofNode, KeyRole.ofKey_eq_function_iff.mpr hsigil]

namespace Callables

variable {env : Callables σ}

theorem function_eq_of_contains {name : String} (h : env.functions.contains name = true) :
    ∃ f, env.function name = .ok f := by
  obtain ⟨f, hf⟩ := Option.isSome_iff_exists.mp h
  exact ⟨f, by rw [function, hf]⟩

theorem function_eq_of_not_contains {name : String}
    (h : env.functions.contains name = false) :
    env.function name = .error (.undefinedFunction name) := by
  have hnone : env.functions.get? name = none := by
    simpa [Registry.contains] using h
  rw [function, hnone]

/-- A node is rejected by what reaching it comes to. -/
theorem reach_of_rejected {n : Node} {reason : Reason} {error : EvalError}
    (h : n.Rejected env reason error) : env.reach (.ofNode n) = .fault error := by
  cases h with
  | stray n hstray =>
    match n with
    | .null | .number _ | .string _ | .list _ | .map [] => rfl
    | .bool _ | .predicate _ | .map (_ :: _) => cases hstray
  | operands op value rest hlist =>
    cases value with
    | list items => cases hlist
    | _ => simp [Expr.ofNode, reach]
  | arguments name args rest hsigil hregistered hdata =>
    obtain ⟨f, hf⟩ := function_eq_of_contains hregistered
    rcases args.arguments_cases with ⟨hargs, -⟩ | ⟨-, hargs⟩
    · rw [hdata] at hargs
      cases hargs
    · rw [Expr.ofNode_function hsigil, hargs]
      simp only [reach, hf]
  | key key value rest hsigil hand hor =>
    rw [Expr.ofNode, KeyRole.ofKey_eq_unrecognized_iff.mpr ⟨hsigil, hand, hor⟩]
    rfl
  | name name args rest hsigil hundefined =>
    rw [Expr.ofNode_function hsigil]
    simp only [reach, function_eq_of_not_contains hundefined]

/-- The node of a map with a function's name at its head is called or rejected. -/
theorem function_cases (env : Callables σ) {name : String} (args : Node)
    (rest : List (String × Node)) (hsigil : hasSigil name = false) :
    (∃ vs f, Node.Makes env (.map ((name, args) :: rest)) (.function name vs) ∧
        env.reach (.ofNode (.map ((name, args) :: rest))) = .call (.function name vs) f) ∨
      ∃ reason error, Node.Rejected env (.map ((name, args) :: rest)) reason error := by
  cases hcontains : env.functions.contains name with
  | false => exact .inr ⟨_, _, .name name args rest hsigil hcontains⟩
  | true =>
    rcases args.arguments_cases with ⟨hdata, vs, hvs⟩ | ⟨hdata, -⟩
    · obtain ⟨f, hf⟩ := function_eq_of_contains hcontains
      refine .inl ⟨vs, f vs, .function name args rest vs hsigil hcontains hdata hvs, ?_⟩
      rw [Expr.ofNode_function hsigil, hvs]
      simp only [reach, hf]
    · exact .inr ⟨_, _, .arguments name args rest hsigil hcontains hdata⟩

/-- What a node comes to when it is reached: it is a literal, an operator, a call that it
makes, or it is rejected. -/
theorem reach_ofNode_cases (env : Callables σ) (n : Node) :
    (∃ b, env.reach (.ofNode n) = .value b) ∨
      (∃ op es, env.reach (.ofNode n) = .operands op es) ∨
      (∃ callee f, n.Makes env callee ∧ env.reach (.ofNode n) = .call callee f) ∨
      ∃ reason error, n.Rejected env reason error := by
  match n with
  | .bool b => exact .inl ⟨b, rfl⟩
  | .predicate name => exact .inr (.inr (.inl ⟨_, _, .predicate name, rfl⟩))
  | .null | .number _ | .string _ | .list _ | .map [] =>
    exact .inr (.inr (.inr ⟨_, _, .stray _ rfl⟩))
  | .map ((key, value) :: rest) =>
    match hrole : KeyRole.ofKey key with
    | .unrecognized =>
      obtain ⟨hsigil, hand, hor⟩ := KeyRole.ofKey_eq_unrecognized_iff.mp hrole
      exact .inr (.inr (.inr ⟨_, _, .key key value rest hsigil hand hor⟩))
    | .function =>
      have hsigil := KeyRole.ofKey_eq_function_iff.mp hrole
      rcases env.function_cases value rest hsigil with ⟨vs, f, hmakes, hreach⟩ | hrejected
      · exact .inr (.inr (.inl ⟨_, _, hmakes, hreach⟩))
      · exact .inr (.inr (.inr hrejected))
    | .operator op =>
      obtain rfl := KeyRole.ofKey_eq_operator_iff.mp hrole
      cases hlist : value.isList with
      | false => exact .inr (.inr (.inr ⟨_, _, .operands op value rest hlist⟩))
      | true =>
        cases value with
        | list items =>
          exact .inr (.inl ⟨op, Expr.ofNodes items, by simp [Expr.ofNode, reach]⟩)
        | _ => cases hlist

/-- **Reaching a node is a fault exactly if the node is rejected**, and with the error
that says why. -/
theorem reach_ofNode_eq_fault_iff {n : Node} {error : EvalError} :
    env.reach (.ofNode n) = .fault error ↔ ∃ reason, n.Rejected env reason error := by
  constructor
  · intro h
    rcases env.reach_ofNode_cases n with ⟨b, hvalue⟩ | ⟨op, es, hops⟩ | ⟨callee, f, -, hcall⟩ |
      ⟨reason, error', hrejected⟩
    · rw [h] at hvalue; cases hvalue
    · rw [h] at hops; cases hops
    · rw [h] at hcall; cases hcall
    · have hfault := reach_of_rejected hrejected
      rw [h] at hfault
      cases hfault
      exact ⟨reason, hrejected⟩
  · rintro ⟨reason, hrejected⟩
    exact reach_of_rejected hrejected

/-- What is called when a node is reached is what the node makes. -/
theorem makes_of_reach_call {n : Node} {callee : Callee} {f : σ → Output × σ}
    (h : env.reach (.ofNode n) = .call callee f) : n.Makes env callee := by
  rcases env.reach_ofNode_cases n with ⟨b, hvalue⟩ | ⟨op, es, hops⟩ | ⟨callee', f', hmakes, hcall⟩ |
    ⟨reason, error', hrejected⟩
  · rw [h] at hvalue; cases hvalue
  · rw [h] at hops; cases hops
  · rw [h] at hcall
    cases hcall
    exact hmakes
  · have hfault := reach_of_rejected hrejected
    rw [h] at hfault
    cases hfault

end Callables

end BooleanRules
