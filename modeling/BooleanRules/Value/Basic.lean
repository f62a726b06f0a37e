import BooleanRules.Entries
import BooleanRules.Number.Basic

/-!
# Values

The data that callables receive and return: JSON values whose objects are finite
maps, so that neither the order nor the repetition of keys can be seen.

* `Value`, `ValueType` — the values, and the names of their kinds.
* `Value.WellFormed` — the keys of every object ascend strictly.
* `Value.ofEntries` — the object of a list of entries, the last one of a key
  winning.
* `Value.same` — the comparison that callables see: the two zeros are the same.
-/

namespace BooleanRules

/-- A JSON value. -/
inductive Value where
  /-- The null value. -/
  | null
  /-- A truth value. -/
  | bool (b : Bool)
  /-- A number. -/
  | number (n : Number)
  /-- A text. -/
  | string (s : String)
  /-- Values in order. -/
  | array (items : List Value)
  /-- A finite map, as its entries in key order. -/
  | object (entries : List (String × Value))
  deriving Inhabited

/-- The kind of a value. -/
inductive ValueType where
  /-- The kind of the null value. -/
  | null
  /-- The kind of truth values. -/
  | boolean
  /-- The kind of numbers. -/
  | number
  /-- The kind of texts. -/
  | string
  /-- The kind of values in order. -/
  | array
  /-- The kind of finite maps. -/
  | object
  deriving DecidableEq

/-- The word for a kind of value. -/
def ValueType.name : ValueType → String
  | null => "null"
  | boolean => "boolean"
  | number => "number"
  | string => "string"
  | array => "array"
  | object => "object"

namespace Value

/-- The kind of a value. -/
def type : Value → ValueType
  | .null => .null
  | .bool _ => .boolean
  | .number _ => .number
  | .string _ => .string
  | .array _ => .array
  | .object _ => .object

/-- The object of some entries; of a repeated key the last entry counts. -/
def ofEntries (entries : List (String × Value)) : Value :=
  .object (entries.foldl (fun done e => insertEntry e.1 e.2 done) [])

mutual

/-- The keys of every object ascend strictly. -/
def WellFormed : Value → Prop
  | .array items => AllWellFormed items
  | .object entries => Ascending entries ∧ EntriesWellFormed entries
  | _ => True

/-- Every value of a list is well formed. -/
def AllWellFormed : List Value → Prop
  | [] => True
  | v :: vs => v.WellFormed ∧ AllWellFormed vs

/-- Every value of some entries is well formed. -/
def EntriesWellFormed : List (String × Value) → Prop
  | [] => True
  | (_, v) :: rest => v.WellFormed ∧ EntriesWellFormed rest

end

mutual

/-- Equal values, where numbers compare as `Number.same`. -/
def same : Value → Value → Bool
  | .null, .null => true
  | .bool a, .bool b => a == b
  | .number a, .number b => a.same b
  | .string a, .string b => a == b
  | .array xs, .array ys => sameItems xs ys
  | .object xs, .object ys => sameEntries xs ys
  | _, _ => false

/-- Lists of the same values in the same order. -/
def sameItems : List Value → List Value → Bool
  | [], [] => true
  | x :: xs, y :: ys => x.same y && sameItems xs ys
  | _, _ => false

/-- Entries with equal keys and the same values. -/
def sameEntries : List (String × Value) → List (String × Value) → Bool
  | [], [] => true
  | (k, x) :: xs, (l, y) :: ys => k == l && x.same y && sameEntries xs ys
  | _, _ => false

end

/-- The value is among the items. -/
def isIn (v : Value) (items : List Value) : Bool := items.any v.same

end Value

end BooleanRules
