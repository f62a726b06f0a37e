import BooleanRules.Expr.Basic
import BooleanRules.Proofs.Reached

/-!
# Faults of nodes

A node fails to be a value for one reason only, a predicate somewhere in it, and
it fails to be an expression for two, a node out of place and a key that names no
operator.  So the faults that an expression carries are these two
(`Expr.readable_ofNode`): none of them is an error that only a call can give.

## Main definitions

* `EvalError.IsReading`, `Expr.Readable` — the errors of reading, and expressions
  with no others.

## Main results

* `Node.toValue_cases`, `Node.arguments_cases` — data has a value, and a node with
  a predicate in it has none.
* `Expr.readable_ofNode` — what a node means is readable.
* `Callables.error_of_reach_fault` — why reaching a readable expression fails.
-/

namespace BooleanRules

/-! ### Values and arguments -/

namespace Node

mutual

/-- Data has a value; a predicate at any depth is the one reason to have none. -/
theorem toValue_cases : ∀ n : Node,
    (n.isData = true ∧ ∃ v, n.toValue = .ok v) ∨
      (n.isData = false ∧ n.toValue = .error (.unexpectedToken "[predicate]"))
  | .null => .inl ⟨rfl, _, rfl⟩
  | .bool _ => .inl ⟨rfl, _, rfl⟩
  | .number _ => .inl ⟨rfl, _, rfl⟩
  | .string _ => .inl ⟨rfl, _, rfl⟩
  | .predicate _ => .inr ⟨rfl, rfl⟩
  | .list items => by
    rcases toValues_cases items with ⟨hdata, vs, hvs⟩ | ⟨hdata, hvs⟩
    · exact .inl ⟨hdata, .array vs, by rw [toValue, hvs]; rfl⟩
    · exact .inr ⟨hdata, by rw [toValue, hvs]; rfl⟩
  | .map entries => by
    rcases toEntries_cases entries with ⟨hdata, vs, hvs⟩ | ⟨hdata, hvs⟩
    · exact .inl ⟨hdata, .ofEntries vs, by rw [toValue, hvs]; rfl⟩
    · exact .inr ⟨hdata, by rw [toValue, hvs]; rfl⟩

theorem toValues_cases : ∀ ns : List Node,
    (allData ns = true ∧ ∃ vs, toValues ns = .ok vs) ∨
      (allData ns = false ∧ toValues ns = .error (.unexpectedToken "[predicate]"))
  | [] => .inl ⟨rfl, _, rfl⟩
  | n :: ns => by
    rcases toValue_cases n with ⟨hn, v, hv⟩ | ⟨hn, hv⟩
    · rcases toValues_cases ns with ⟨hns, vs, hvs⟩ | ⟨hns, hvs⟩
      · exact .inl ⟨by rw [allData, hn, hns]; rfl, v :: vs, by rw [toValues, hv, hvs]; rfl⟩
      · exact .inr ⟨by rw [allData, hns, Bool.and_false], by rw [toValues, hv, hvs]; rfl⟩
    · exact .inr ⟨by rw [allData, hn, Bool.false_and], by rw [toValues, hv]; rfl⟩

theorem toEntries_cases : ∀ entries : List (String × Node),
    (entriesData entries = true ∧ ∃ vs, toEntries entries = .ok vs) ∨
      (entriesData entries = false ∧
        toEntries entries = .error (.unexpectedToken "[predicate]"))
  | [] => .inl ⟨rfl, _, rfl⟩
  | (k, n) :: rest => by
    rcases toValue_cases n with ⟨hn, v, hv⟩ | ⟨hn, hv⟩
    · rcases toEntries_cases rest with ⟨hrest, vs, hvs⟩ | ⟨hrest, hvs⟩
      · exact .inl ⟨by rw [entriesData, hn, hrest]; rfl, (k, v) :: vs,
          by rw [toEntries, hv, hvs]; rfl⟩
      · exact .inr ⟨by rw [entriesData, hrest, Bool.and_false],
          by rw [toEntries, hv, hvs]; rfl⟩
    · exact .inr ⟨by rw [entriesData, hn, Bool.false_and], by rw [toEntries, hv]; rfl⟩

end

/-- Data holds arguments; a node with a predicate in it holds none. -/
theorem arguments_cases (n : Node) :
    (n.isData = true ∧ ∃ vs, n.arguments = .ok vs) ∨
      (n.isData = false ∧ n.arguments = .error (.unexpectedToken "[predicate]")) := by
  have hsingle : ∀ m : Node, m.arguments = (do return [← m.toValue]) →
      (m.isData = true ∧ ∃ vs, m.arguments = .ok vs) ∨
        (m.isData = false ∧ m.arguments = .error (.unexpectedToken "[predicate]")) := by
    intro m hm
    rcases m.toValue_cases with ⟨hdata, v, hv⟩ | ⟨hdata, hv⟩
    · exact .inl ⟨hdata, [v], by rw [hm, hv]; rfl⟩
    · exact .inr ⟨hdata, by rw [hm, hv]; rfl⟩
  cases n with
  | list items => exact toValues_cases items
  | _ => exact hsingle _ rfl

end Node

/-! ### Expressions of nodes -/

/-- The errors that reading a node can give. -/
def EvalError.IsReading : EvalError → Prop
  | .unexpectedToken _ => True
  | .unrecognizedOperator _ => True
  | _ => False

namespace Expr

mutual

/-- The faults of an expression are errors of reading. -/
def Readable : Expr → Prop
  | .operator _ operands => AllReadable operands
  | .function _ args => ∀ error, args = .error error → error.IsReading
  | .invalid error => error.IsReading
  | _ => True

/-- The faults of some expressions are errors of reading. -/
def AllReadable : List Expr → Prop
  | [] => True
  | e :: es => e.Readable ∧ AllReadable es

end

mutual

/-- What a node means is readable. -/
theorem readable_ofNode : ∀ n : Node, (ofNode n).Readable
  | .null | .number _ | .string _ | .list _ | .map [] => trivial
  | .bool _ | .predicate _ => trivial
  | .map ((key, value) :: _) => by
    rw [ofNode]
    cases KeyRole.ofKey key with
    | operator op =>
      cases value with
      | list operands => exact readable_ofNodes operands
      | _ => trivial
    | unrecognized => trivial
    | function =>
      intro error herror
      rcases value.arguments_cases with ⟨-, vs, hvs⟩ | ⟨-, hvs⟩
      · rw [hvs] at herror; cases herror
      · rw [hvs] at herror; cases herror; trivial

theorem readable_ofNodes : ∀ ns : List Node, AllReadable (ofNodes ns)
  | [] => trivial
  | n :: ns => ⟨readable_ofNode n, readable_ofNodes ns⟩

end

end Expr

/-- Why reaching a readable expression fails. -/
theorem Callables.error_of_reach_fault {σ : Type} {env : Callables σ} {e : Expr}
    {error : EvalError} (he : e.Readable) (h : env.reach e = .fault error) :
    error.IsReading ∨ ∃ name, error = .undefinedFunction name := by
  rcases eq_of_reach_fault h with rfl | ⟨name, args, rfl, hname⟩ | ⟨name, g, rfl, -⟩
  · exact .inl he
  · refine .inr ⟨name, ?_⟩
    unfold Callables.function at hname
    split at hname
    · cases hname
    · cases hname; rfl
  · exact .inl (he error rfl)

end BooleanRules
