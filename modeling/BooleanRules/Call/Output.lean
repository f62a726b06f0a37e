import BooleanRules.EvalError
import BooleanRules.Value.Text

/-!
# Results of calls

A call gives a value at once or a promise of one.  A promise is polled until it
gives its value, which happens after it has been found pending a fixed number of
times.
-/

namespace BooleanRules

/-- A promised value. -/
structure Promise where
  /-- The value that is given in the end. -/
  value : Value
  /-- How often a poll finds it pending before. -/
  yields : Nat

/-- The result of a call. -/
inductive Output where
  /-- A value at once. -/
  | ready (value : Value)
  /-- A promise of a value. -/
  | deferred (promise : Promise)

namespace Output

/-- The value that the result gives in the end. -/
def value : Output → Value
  | .ready v => v
  | .deferred p => p.value

/-- The result for people; a promise does not show its value. -/
def inspect : Output → String
  | .ready v => enclosed "Ready(" v.inspect ")"
  | .deferred _ => "Deferred"

end Output

end BooleanRules
