import BooleanRules.EvalError
import BooleanRules.Node.Basic
import BooleanRules.Text.Quoted

/-!
# Configuration

The one thing that can be configured: what happens when there is no expression
to evaluate.

* `MissingRoot` — the two policies; `MissingRoot.root` applies one.
* `Config`, `Config.text` — the configuration, and its JSON text.
-/

namespace BooleanRules

/-- What becomes of an absent expression. -/
inductive MissingRoot where
  /-- An absent or null expression is false. -/
  | defaultFalse
  /-- An absent expression is an error; a null one is evaluated like any other. -/
  | error
  deriving DecidableEq, Inhabited

namespace MissingRoot

/-- The word for a policy in configuration texts. -/
def name : MissingRoot → String
  | defaultFalse => "default_false"
  | error => "error"

/-- The policy that a word names. -/
def ofName? (s : String) : Option MissingRoot :=
  if s = "default_false" then some .defaultFalse
  else if s = "error" then some .error
  else none

@[simp] theorem ofName?_name (m : MissingRoot) : ofName? m.name = some m := by
  cases m <;> decide

/-- The node to evaluate.  `none` means that the answer is false without looking
at any node. -/
def root : MissingRoot → Option Node → Except EvalError (Option Node)
  | .error, none => .error .expectedExpression
  | .defaultFalse, none => .ok none
  | .defaultFalse, some n => .ok (if n.isNull then none else some n)
  | .error, some n => .ok (some n)

end MissingRoot

/-- A configuration. -/
structure Config where
  /-- What becomes of an absent expression. -/
  missingRoot : MissingRoot := .defaultFalse
  deriving DecidableEq, Inhabited

namespace Config

/-- The configuration that demands an expression. -/
def strict : Config := ⟨.error⟩

/-- The JSON text of a configuration. -/
def text (c : Config) : String :=
  enclosed "\x7b" (quoted "missing_root" ++ ":" ++ quoted c.missingRoot.name) "\x7d"

end Config

end BooleanRules
