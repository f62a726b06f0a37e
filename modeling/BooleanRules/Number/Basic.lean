import BooleanRules.Number.Layout

/-!
# Numbers

A number is an integer that fits a signed or an unsigned word of 64 bits, or a
double.  The two kinds never compare equal, so `1` and `1.0` are different
numbers, while the two zeros among the doubles are the same.

* `Number`, `Number.text` — the type and its text.
* `Number.same` — the comparison that callables see.
-/

namespace BooleanRules

/-- A number as rules hold it. -/
inductive Number where
  /-- An integer. -/
  | int (i : Int)
  /-- A double. -/
  | float (x : Binary64)
  deriving DecidableEq

namespace Number

/-- The range of the signed words. -/
def isSigned (i : Int) : Bool := decide (-(twoTo 63 : Int) ≤ i) && decide (i < twoTo 63)

/-- The integers that a number may be: those of a signed or an unsigned word. -/
def isInteger (i : Int) : Bool := decide (-(twoTo 63 : Int) ≤ i) && decide (i < twoTo 64)

/-- The text of a number. -/
def text : Number → String
  | .int i => i.repr
  | .float x => x.layOut .value

/-- Equal numbers of one kind. -/
def same : Number → Number → Bool
  | .int i, .int j => i == j
  | .float x, .float y => x.numericallyEq y
  | _, _ => false

/-- A number is the same as itself. -/
@[simp] theorem same_self (n : Number) : n.same n = true := by
  cases n <;> simp [same, Binary64.numericallyEq]

end Number

end BooleanRules
