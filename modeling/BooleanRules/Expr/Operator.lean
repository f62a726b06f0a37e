/-!
# Operators

The two operators and the meaning of the keys of maps.  An operator is decided
by its first operand that has the deciding value; if none has it, the operator
falls through to the opposite.

* `Operator`, `Operator.decidingValue`, `Operator.fallthroughValue`.
* `KeyRole.ofKey` — what the first key of a map announces.
-/

namespace BooleanRules

/-- Conjunction and disjunction. -/
inductive Operator where
  /-- True if no operand is false. -/
  | and
  /-- True if some operand is true. -/
  | or
  deriving DecidableEq

namespace Operator

/-- The key that names an operator. -/
def key : Operator → String
  | and => "$and"
  | or => "$or"

/-- The operator that a key names. -/
def ofKey? (key : String) : Option Operator :=
  if key = "$and" then some .and
  else if key = "$or" then some .or
  else none

/-- The value of an operand that decides the operator. -/
def decidingValue : Operator → Bool
  | and => false
  | or => true

/-- The value of an operator that no operand decided. -/
def fallthroughValue (op : Operator) : Bool := !op.decidingValue

@[simp] theorem ofKey?_key (op : Operator) : ofKey? op.key = some op := by
  cases op <;> decide

/-- A key names one operator at most. -/
theorem ofKey?_eq_some_iff {k : String} {op : Operator} : ofKey? k = some op ↔ k = op.key := by
  constructor
  · unfold ofKey?
    split
    · rintro ⟨⟩; assumption
    · split
      · rintro ⟨⟩; assumption
      · simp
  · rintro rfl; exact ofKey?_key op

end Operator

/-- The character that sets the keys of operators apart from function names. -/
def operatorSigil : Char := '$'

/-- The key starts with the sigil of operators. -/
def hasSigil (key : String) : Bool := key.toList.head? == some operatorSigil

/-- What the first key of a map announces. -/
inductive KeyRole where
  /-- The operands of an operator. -/
  | operator (op : Operator)
  /-- An operator that does not exist. -/
  | unrecognized
  /-- The arguments of a function. -/
  | function
  deriving DecidableEq

/-- The role of a key: operators first, the rest of the sigil's keys name
nothing, and all others are function names. -/
def KeyRole.ofKey (key : String) : KeyRole :=
  match Operator.ofKey? key with
  | some op => .operator op
  | none => if hasSigil key then .unrecognized else .function

@[simp] theorem KeyRole.ofKey_key (op : Operator) : KeyRole.ofKey op.key = .operator op := by
  simp [KeyRole.ofKey]

end BooleanRules
