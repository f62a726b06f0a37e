import BooleanRules.Number.Basic

/-!
# Expression trees

The trees that rules are written as.  A node is JSON data or a predicate.  Maps
keep their entries as they were written, in order and with repetitions, because
the first entry decides what a map means.

A predicate is known by its name alone; what calling it does is the business of
the callables an evaluation runs with.
-/

namespace BooleanRules

/-- A node of an expression tree. -/
inductive Node where
  /-- The null node. -/
  | null
  /-- A truth value. -/
  | bool (b : Bool)
  /-- A number. -/
  | number (n : Number)
  /-- A text. -/
  | string (s : String)
  /-- Nodes in order. -/
  | list (items : List Node)
  /-- Entries as written. -/
  | map (entries : List (String × Node))
  /-- A callable without arguments. -/
  | predicate (name : String)

namespace Node

/-- A node that nobody chose is null. -/
instance : Inhabited Node := ⟨null⟩

/-- The map of one entry. -/
def entry (key : String) (value : Node) : Node := .map [(key, value)]

/-- The conjunction of some operands. -/
def and (operands : List Node) : Node := entry "$and" (.list operands)

/-- The disjunction of some operands. -/
def or (operands : List Node) : Node := entry "$or" (.list operands)

/-- The node that hands `args` to the function registered as `name`. -/
def call (name : String) (args : Node) : Node := entry name args

/-- The node is the null node. -/
def isNull : Node → Bool
  | .null => true
  | _ => false

/-- Only null is null. -/
@[simp] theorem isNull_iff {n : Node} : n.isNull = true ↔ n = .null := by
  cases n <;> simp [isNull]

mutual

/-- No predicate occurs in the node, at any depth. -/
def isData : Node → Bool
  | .list items => allData items
  | .map entries => entriesData entries
  | .predicate _ => false
  | _ => true

/-- No predicate occurs in a list of nodes. -/
def allData : List Node → Bool
  | [] => true
  | n :: ns => n.isData && allData ns

/-- No predicate occurs in the values of some entries. -/
def entriesData : List (String × Node) → Bool
  | [] => true
  | (_, n) :: rest => n.isData && entriesData rest

end

end Node

end BooleanRules
