import BooleanRules.Json.Fault
import BooleanRules.Number.Basic
import BooleanRules.Number.Reading

/-!
# Numbers of JSON texts

A numeral is an optional minus, digits without a superfluous zero in front, and
optionally a fraction and an exponent.  Without fraction and exponent it is an
integer, if it fits a word of 64 bits and is not a negative zero; every other
numeral is a double.

The double is not the nearest one in every case.  Digits enter the significand
while it fits an unsigned word of 64 bits; digits of the whole part that find no
room raise the exponent, and those of the fraction are dropped.  The significand
is rounded first, and then multiplied by, or divided by, a rounded power of ten.

* `Numeral`, `scanNumeral` — the grammar.
* `Numeral.number?` — the number, unless it is too large for a double.
-/

namespace BooleanRules.Json

/-! ### The grammar -/

/-- The parts of a numeral. -/
structure Numeral where
  /-- It starts with a minus. -/
  negative : Bool
  /-- The digits before the point. -/
  whole : List Char
  /-- The digits after the point, if there is one. -/
  fraction : List Char
  /-- The exponent, if it is written. -/
  exponent : Option Int

/-- The digits in front of a text, at least one; `missing` is the fault if there
is none. -/
def scanDigits (missing : List Char → Fault) (cs : List Char) :
    Except Fault (List Char × List Char) :=
  match spanDigits cs with
  | ([], rest) => .error (missing rest)
  | r => .ok r

/-- The digits before the point: a zero stands alone. -/
def scanWhole (missing : List Char → Fault) (cs : List Char) :
    Except Fault (List Char × List Char) := do
  let (ds, rest) ← scanDigits missing cs
  match ds with
  -- a zero in front of other digits
  | '0' :: _ :: _ => .error .malformed
  | _ => return (ds, rest)

/-- The fraction, if a point follows. -/
def scanFraction (missing : List Char → Fault) :
    List Char → Except Fault (List Char × List Char)
  | '.' :: rest => scanDigits missing rest
  | rest => .ok ([], rest)

/-- The exponent, if its letter follows. -/
def scanExponent (missing : List Char → Fault) :
    List Char → Except Fault (Option Int × List Char)
  | [] => .ok (none, [])
  | c :: rest =>
    if c = 'e' ∨ c = 'E' then do
      let (negative, rest) := DecimalText.splitSign rest
      let (ds, rest) ← scanDigits missing rest
      let n : Int := digitsValue ds
      return (some (if negative then -n else n), rest)
    else .ok (none, c :: rest)

/-- The numeral in front of a text, and what follows it; `missing` is the fault
of a text that goes on in a given way where a digit was required. -/
def scanNumeral (missing : List Char → Fault) (cs : List Char) :
    Except Fault (Numeral × List Char) := do
  let (negative, cs) : Bool × List Char := match cs with
    | '-' :: rest => (true, rest)
    | rest => (false, rest)
  let (whole, cs) ← scanWhole missing cs
  let (fraction, cs) ← scanFraction missing cs
  let (exponent, cs) ← scanExponent missing cs
  return (⟨negative, whole, fraction, exponent⟩, cs)

/-! ### The number of a numeral -/

namespace Numeral

/-- Digits added to a significand as long as it stays below `2 ^ 64`, and the
digits that found no room. -/
def fill (significand : Nat) : List Char → Nat × List Char
  | [] => (significand, [])
  | d :: ds =>
    let more := 10 * significand + digitValue d
    if more < twoTo 64 then fill more ds else (significand, d :: ds)

/-- Neither a point nor an exponent is written. -/
def isInteger (n : Numeral) : Bool := n.fraction.isEmpty && n.exponent.isNone

/-- The greatest power of ten that is a double. -/
def maxPower : Nat := 308

/-- A double divided by `10 ^ k`, in steps as large as a double allows. -/
def divideByPower (x : Binary64) (k : Nat) : Option Binary64 :=
  if x.isZero then some x
  else if _ : k ≤ maxPower then do x.div? (← Binary64.ofNat? false (tenTo k))
  else do
    let y ← x.div? (← Binary64.ofNat? false (tenTo maxPower))
    divideByPower y (k - maxPower)
termination_by k
decreasing_by simp only [maxPower] at *; omega

/-- A significand times a power of ten; `none` if that is too large. -/
def scale (negative : Bool) (significand : Nat) (exponent : Int) : Option Binary64 := do
  let x ← Binary64.ofNat? negative significand
  if x.isZero then return x
  else if exponent < 0 then divideByPower x exponent.natAbs
  else if exponent ≤ maxPower then x.mul? (← Binary64.ofNat? false (tenTo exponent.toNat))
  else none

/-- The double that a numeral denotes; `none` if that is too large. -/
def float? (n : Numeral) : Option Binary64 :=
  let (significand, wholeLeft) := fill 0 n.whole
  let (significand, fractionLeft) := fill significand n.fraction
  let placed : Int := n.fraction.length - fractionLeft.length
  scale n.negative significand (n.exponent.getD 0 + wholeLeft.length - placed)

/-- The integer that a numeral denotes, if it is written as one, fits, and is not
a negative zero. -/
def int? (n : Numeral) : Option Int :=
  let i : Int := digitsValue n.whole
  let i := if n.negative then -i else i
  if n.isInteger && Number.isInteger i && !(n.negative && i == 0) then some i else none

/-- The number that a numeral denotes; `none` if it is too large for a double. -/
def number? (n : Numeral) : Option Number :=
  match n.int? with
  | some i => some (.int i)
  | none => n.float?.map .float

end Numeral

/-! ### Numbers kept and skipped -/

/-- The number in front of a text, and what follows it. -/
def readNumber (cs : List Char) : Except Fault (Number × List Char) := do
  let (numeral, rest) ← scanNumeral .missingBefore cs
  match numeral.number? with
  | some n => return (n, rest)
  | none => .error .malformed

/-- What follows the number in front of a text.  A number that is skipped and
breaks off is malformed wherever it does. -/
def skipNumber (cs : List Char) : Except Fault (List Char) := do
  let (_, rest) ← scanNumeral (fun _ => .malformed) cs
  return rest

end BooleanRules.Json
