import BooleanRules.Number.Rounding

/-!
# Double precision numbers

The finite doubles, each held as a sign, a significand and an exponent in the
one canonical spelling, so that equality of the structure is equality of the
bits.  Every operation computes its exact result and rounds once.

Two zeros exist and differ as values of the type; `Binary64.numericallyEq` is
the comparison that identifies them.

* `Binary64.ofRatio?` is the double nearest to a quotient, and none when the
  quotient is too large.
* `Binary64.mul?`, `Binary64.div?` are product and quotient, correctly rounded.
* `Extended` adds the infinities and the value that is not a number, which texts
  and foreign data can carry but no rule can.
-/

namespace BooleanRules

/-- A finite double: `significand * 2 ^ exponent`, negated if `negative`. -/
structure Binary64 where
  /-- The sign, which also zero has. -/
  negative : Bool
  /-- The digits, as a natural below `2 ^ 53`. -/
  significand : Nat
  /-- The exponent of the unit. -/
  exponent : Int
  /-- The spelling is the canonical one. -/
  canonical : binary64.Canonical significand exponent
  deriving DecidableEq

namespace Binary64

/-- The zero of a given sign. -/
def zero (negative : Bool) : Binary64 := ⟨negative, 0, -1074, by decide⟩

instance : Inhabited Binary64 := ⟨zero false⟩

/-- The double with these parts, if they are the canonical spelling of one. -/
def ofParts? (negative : Bool) (m : Nat) (q : Int) : Option Binary64 :=
  if h : binary64.Canonical m q then some ⟨negative, m, q, h⟩ else none

/-- The double nearest to `num / den` with the given sign, or `none` if the
quotient is too large for one. -/
def ofRatio? (negative : Bool) (num den : Nat) : Option Binary64 :=
  let (m, q) := binary64.round num den
  ofParts? negative m q

/-- The double nearest to a natural. -/
def ofNat? (negative : Bool) (n : Nat) : Option Binary64 := ofRatio? negative n 1

/-- Zero of either sign. -/
def isZero (x : Binary64) : Bool := x.significand == 0

/-- The magnitude as a quotient of naturals. -/
def ratio (x : Binary64) : Nat × Nat :=
  (x.significand * twoTo x.exponent.toNat, twoTo (-x.exponent).toNat)

/-- The correctly rounded product, or `none` if it is too large. -/
def mul? (x y : Binary64) : Option Binary64 :=
  let (a, b) := x.ratio
  let (c, d) := y.ratio
  ofRatio? (x.negative != y.negative) (a * c) (b * d)

/-- The correctly rounded quotient, or `none` if it is too large or the divisor
is zero. -/
def div? (x y : Binary64) : Option Binary64 :=
  if y.isZero then none
  else
    let (a, b) := x.ratio
    let (c, d) := y.ratio
    ofRatio? (x.negative != y.negative) (a * d) (b * c)

/-- Equality of the numbers, for which the sign of zero does not count. -/
def numericallyEq (x y : Binary64) : Bool :=
  x == y || (x.isZero && y.isZero)

end Binary64

/-- A double, an infinity, or the value that is not a number. -/
inductive Extended where
  /-- A finite double. -/
  | finite (x : Binary64)
  /-- An infinity of the given sign. -/
  | infinite (negative : Bool)
  /-- The result of no operation. -/
  | notANumber
  deriving DecidableEq

/-- The double nearest to a quotient, beyond the greatest one an infinity. -/
def Extended.ofRatio (negative : Bool) (num den : Nat) : Extended :=
  match Binary64.ofRatio? negative num den with
  | some x => .finite x
  | none => .infinite negative

/-- The single precision number nearest to a quotient, held as the double of the
same value. -/
def Extended.ofRatioSingle (negative : Bool) (num den : Nat) : Extended :=
  match binary32.round? num den with
  | some (m, q) => .ofRatio negative (m * twoTo q.toNat) (twoTo (-q).toNat)
  | none => .infinite negative

end BooleanRules
