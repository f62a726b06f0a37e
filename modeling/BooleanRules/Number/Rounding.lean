/-!
# Rounding a quotient to a binary format

A binary floating point format with `precision` bits holds the numbers
`m * 2 ^ q` with `m < 2 ^ precision` and `q` in a fixed range of exponents.  The
number of the format nearest to a quotient `num / den` is found in exact
arithmetic: the size of the quotient fixes the exponent, and the significand is
then one rounded division of naturals.

* `roundHalfEven num den` is the natural nearest to `num / den`, a half going to
  the even neighbour.
* `BinaryFormat.round? f num den` is the significand and exponent nearest to the
  quotient, or `none` when the quotient is too large for the format.
* `binary64` and `binary32` are the two formats in use.
-/

namespace BooleanRules

/-- A power of two. -/
def twoTo (n : Nat) : Nat := Nat.pow 2 n

/-- A power of ten. -/
def tenTo (n : Nat) : Nat := Nat.pow 10 n

/-- The natural nearest to `num / den`; a half goes to the even neighbour. -/
def roundHalfEven (num den : Nat) : Nat :=
  let quotient := num / den
  let twice := 2 * (num % den)
  if twice < den ∨ (twice = den ∧ quotient % 2 = 0) then quotient else quotient + 1

/-- The numerator and the denominator of `num / den / 2 ^ q`. -/
def scaleByTwo (num den : Nat) (q : Int) : Nat × Nat :=
  (num * twoTo (-q).toNat, den * twoTo q.toNat)

/-- The exponent of the greatest power of two that is at most `num / den`, for a
positive quotient. -/
def floorLogTwo (num den : Nat) : Int :=
  let guess : Int := (num.log2 : Int) - (den.log2 : Int)
  let (n, d) := scaleByTwo num den guess
  if d ≤ n then guess else guess - 1

/-- A binary format: how many bits a significand has, and which exponents of two
its unit may have. -/
structure BinaryFormat where
  /-- The number of bits of a significand. -/
  precision : Nat
  /-- The least exponent of the unit, at which significands may be short. -/
  minExponent : Int
  /-- The greatest exponent of the unit. -/
  maxExponent : Int

/-- Double precision. -/
def binary64 : BinaryFormat := ⟨53, -1074, 971⟩

/-- Single precision. -/
def binary32 : BinaryFormat := ⟨24, -149, 104⟩

namespace BinaryFormat

/-- Significand `m` and exponent `q` are a number of the format in its only
spelling: short significands occur at the least exponent alone. -/
def Canonical (f : BinaryFormat) (m : Nat) (q : Int) : Prop :=
  m < twoTo f.precision ∧ f.minExponent ≤ q ∧ q ≤ f.maxExponent ∧
    (twoTo (f.precision - 1) ≤ m ∨ q = f.minExponent)

instance (f : BinaryFormat) (m : Nat) (q : Int) : Decidable (f.Canonical m q) :=
  inferInstanceAs (Decidable (_ ∧ _))

/-- The significand and exponent nearest to `num / den`, before the greatest
exponent is looked at.  A significand that rounds up to one bit too many is a
power of two and moves to the next exponent. -/
def round (f : BinaryFormat) (num den : Nat) : Nat × Int :=
  if num = 0 then (0, f.minExponent)
  else
    let q := max f.minExponent (floorLogTwo num den - (f.precision - 1 : Nat))
    let (n, d) := scaleByTwo num den q
    let m := roundHalfEven n d
    -- rounding up may carry into a new bit, and then all other bits are zero
    if m = twoTo f.precision then (twoTo (f.precision - 1), q + 1) else (m, q)

/-- The number of the format nearest to `num / den`, unless that is too large. -/
def round? (f : BinaryFormat) (num den : Nat) : Option (Nat × Int) :=
  let r := f.round num den
  if r.2 ≤ f.maxExponent then some r else none

end BinaryFormat

end BooleanRules
