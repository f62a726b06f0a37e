import BooleanRules.Call.Output

/-!
# Bodies of scripted functions

The functions that rules can be tried out with, each a value computed from the
positional arguments.

* `Body`, `Body.value`.
-/

namespace BooleanRules

/-- A computed function. -/
inductive Body where
  /-- The first argument is an even integer of a signed word. -/
  | isEven
  /-- The first two arguments are the same; two missing ones are. -/
  | isEqual
  /-- The second argument is an array with the first one in it. -/
  | any
  /-- The first two arguments are arrays, and the second has all items of the
  first. -/
  | all
  /-- The first argument is one of two known names. -/
  | authenticated
  /-- The first argument, or null. -/
  | echo
  /-- All arguments as an array. -/
  | args
  /-- The number of arguments. -/
  | count
  /-- There are no arguments. -/
  | none
  deriving DecidableEq

namespace Body

/-- The body of a name. -/
def ofName? : String → Option Body
  | "isEven" => some .isEven
  | "isEqual" => some .isEqual
  | "any" => some .any
  | "all" => some .all
  | "authenticated" => some .authenticated
  | "echo" => some .echo
  | "args" => some .args
  | "count" => some .count
  | "none" => some .none
  | _ => Option.none

/-- The value is an even integer of a signed word. -/
def evenInteger : Value → Bool
  | .number (.int i) => Number.isSigned i && i % 2 == 0
  | _ => false

/-- The first two arguments are the same. -/
def firstTwoSame : List Value → Bool
  | [] => true
  | [_] => false
  | a :: b :: _ => a.same b

/-- The value is one of two known names. -/
def knownName : Value → Bool
  | .string s => s == "foo" || s == "bar"
  | _ => false

/-- The value that a function computes from its arguments. -/
def value : Body → List Value → Value
  | isEven, a => .bool (a.head?.any evenInteger)
  | isEqual, a => .bool (firstTwoSame a)
  | any, target :: .array items :: _ => .bool (target.isIn items)
  | any, _ => .bool false
  | all, .array targets :: .array items :: _ => .bool (targets.all (·.isIn items))
  | all, _ => .bool false
  | authenticated, a => .bool (a.head?.any knownName)
  | echo, a => a.head?.getD .null
  | args, a => .array a
  | count, a => .number (.int a.length)
  | none, a => .bool a.isEmpty

end Body

end BooleanRules
