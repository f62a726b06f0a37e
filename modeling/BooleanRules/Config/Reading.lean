import BooleanRules.Config.Basic
import BooleanRules.Config.Fault
import BooleanRules.Json.Document

/-!
# Configuration texts

A configuration is a JSON object in which the field `missing_root` may occur
once and every other field is skipped, or an array of at most the one value of
that field.  The value is the name of a policy, as a string or as the key of an
object whose only value is null.

The text is read once from left to right and the first fault ends the reading,
whether it is one of the text or one of its meaning.  Values of other fields are
skipped without being understood, so limits on depth and size do not hold for
them.

* `readPolicy` — the value of the field.
* `readFields` — the entries of the object.
* `Config.read` — the configuration of a text.
-/

namespace BooleanRules

open Json

/-- Reading may end with a fault of the text. -/
def liftFault {α : Type} : Except Json.Fault α → Except ConfigFault α
  | .ok a => .ok a
  | .error f => .error (.text f)

/-! ### The policy -/

/-- The fault of a value of the wrong type: what is wrong with the value itself
comes first. -/
def intruderFault (wanted : Wanted) (cs : List Char) : ConfigFault :=
  match cs with
  | '[' :: _ => .wrongType .list wanted
  | '\x7b' :: _ => .wrongType .map wanted
  | _ => match readScalar cs with
    | .ok (s, _) => .wrongType (.scalar s) wanted
    | .error f => .text f

/-- The policy of a name. -/
def policyNamed (name : String) : Except ConfigFault MissingRoot :=
  (MissingRoot.ofName? name).elim (.error (.unknownPolicy name)) .ok

/-- The name of a policy as a key, and what follows it.  Anything but a string is
a fault of the text here, as keys are strings: a number or a literal in the place
of the key is malformed like any other character, and never a value of the wrong
type, as it would be in the place of the null. -/
def readPolicyKey (cs : List Char) : Except ConfigFault (MissingRoot × List Char) := do
  let (name, rest) ← liftFault (readKey cs)
  return (← policyNamed name, rest)

/-- What follows the null in front of a text. -/
def readUnit (cs : List Char) : Except ConfigFault (List Char) :=
  match dropBlanks cs with
  | 'n' :: rest => liftFault (scanWord ['u', 'l', 'l'] rest)
  | rest => .error (intruderFault .unit rest)

/-- The policy in front of a text, and what follows it. -/
def readPolicy (cs : List Char) : Except ConfigFault (MissingRoot × List Char) :=
  match dropBlanks cs with
  | '"' :: rest => do
    let (name, rest) ← liftFault (readString rest)
    return (← policyNamed name, rest)
  | '\x7b' :: rest => do
    let (policy, rest) ← readPolicyKey rest
    let rest ← readUnit (← liftFault (scanColon rest))
    match dropBlanks rest with
    | '\x7d' :: rest => return (policy, rest)
    | rest => .error (.text (.missingBefore rest))
  | rest => .error (.text (.missingBefore rest))

/-! ### The configuration around it -/

/-- The entries of the object up to its closing bracket, at least one; `found` is
the policy that has been read. -/
def readFields : (steps : Nat) → (found : Option MissingRoot) → List Char →
    Except ConfigFault (Option MissingRoot × List Char)
  | 0, _, _ => .error (.text .unfinished)
  | steps + 1, found, cs => do
    let (key, rest) ← liftFault (readKey cs)
    let (found, rest) ←
      if key = "missing_root" then
        -- the second occurrence is a fault before its value is looked at
        if found.isSome then .error (.duplicateField key)
        else do
          let (policy, rest) ← readPolicy (← liftFault (scanColon rest))
          pure (some policy, rest)
      else do
        let rest ← liftFault (scanColon rest)
        pure (found, ← liftFault (skipValue steps rest))
    match dropBlanks rest with
    | ',' :: rest => readFields steps found rest
    | '\x7d' :: rest => return (found, rest)
    | rest => .error (.text (.missingBefore rest))

/-- The array of at most one policy, after its opening bracket. -/
def readPolicyList (cs : List Char) : Except ConfigFault (Option MissingRoot × List Char) :=
  match dropBlanks cs with
  | [] => .error (.text .unfinished)
  | ']' :: rest => .ok (none, rest)
  | rest => do
    let (policy, rest) ← readPolicy rest
    match dropBlanks rest with
    | ']' :: rest => return (some policy, rest)
    | rest => .error (.text (.missingBefore rest))

/-- The policy that a configuration sets, if it sets one, and what follows the
configuration. -/
def readConfig (cs : List Char) : Except ConfigFault (Option MissingRoot × List Char) :=
  match dropBlanks cs with
  | '[' :: rest => readPolicyList rest
  | '\x7b' :: rest =>
    match dropBlanks rest with
    | '\x7d' :: rest => .ok (none, rest)
    -- one step has been made, over the opening bracket
    | rest' => readFields (stepBound cs - 1) none rest'
  | rest => .error (intruderFault .config rest)

/-- The configuration of a text. -/
def Config.read (text : String) : Except ConfigFault Config := do
  let (policy, rest) ← readConfig text.toList
  liftFault (expectEnd rest)
  return ⟨policy.getD .defaultFalse⟩

end BooleanRules
