/-!
# Faults of JSON texts

A text that is no JSON has one fault that counts: the first from left to right.
-/

namespace BooleanRules.Json

/-- The first fault of a text. -/
inductive Fault where
  /-- The text breaks a rule of the grammar, or one of the limits. -/
  | malformed
  /-- The text ends where more was required. -/
  | unfinished
  deriving DecidableEq

/-- The fault of a text that goes on as `rest` where something was missing. -/
def Fault.missingBefore (rest : List Char) : Fault :=
  if rest.isEmpty then .unfinished else .malformed

@[simp] theorem Fault.missingBefore_nil : missingBefore [] = .unfinished := rfl

@[simp] theorem Fault.missingBefore_cons (c : Char) (rest : List Char) :
    missingBefore (c :: rest) = .malformed := rfl

end BooleanRules.Json
