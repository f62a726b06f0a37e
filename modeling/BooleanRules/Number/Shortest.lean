import BooleanRules.Number.Binary64

/-!
# The shortest decimal that reads back

A double is the rounding of every real in an interval around it; the ends belong
to the interval exactly when the significand is even.  Among the decimals with
`1, 2, 3, …` digits the first count that has a member in the interval is taken,
and of the at most two members next to the double the nearer one.  Seventeen
digits always suffice.

All comparisons are between naturals: with `unit / step` the length of the
double's unit measured on the decimal grid, a decimal `n` lies below the upper
end exactly if `n * step ≤ high * unit`.

* `Decimal` is a natural times a power of ten.
* `Binary64.shortest` is the decimal of the fewest digits that reads back, with
  a `TieRule` for two decimals that are equally near.
-/

namespace BooleanRules

/-- The number `digits * 10 ^ exponent`. -/
structure Decimal where
  /-- The digits, read as a natural. -/
  digits : Nat
  /-- The power of ten of the last digit. -/
  exponent : Int
  deriving DecidableEq

/-- Which of two equally near decimals is chosen. -/
inductive TieRule where
  /-- The one whose last digit is even. -/
  | toEven
  /-- The greater one. -/
  | up
  deriving DecidableEq

/-! ### The size of a number in decimal digits -/

/-- How many decimal digits a natural has; zero has none. -/
def countDigits (n : Nat) : Nat :=
  if n = 0 then 0 else (Nat.toDigits 10 n).length

/-- The exponent of the greatest power of ten that is at most `num / den`, for a
positive quotient. -/
def floorLogTen (num den : Nat) : Int :=
  if den ≤ num then (countDigits (num / den) : Int) - 1
  else -(countDigits ((den - 1) / num) : Int)

/-! ### Grids of decimals -/

/-- A grid of decimals seen from a double: the double is `value * unit / step`,
and the reals that round to it reach from `low * unit / step` to
`high * unit / step`, ends included if `closed`. -/
structure DecimalGrid where
  /-- The double. -/
  value : Nat
  /-- The lower end. -/
  low : Nat
  /-- The upper end. -/
  high : Nat
  /-- Whether the ends round to the double too. -/
  closed : Bool
  /-- The numerator of the scale. -/
  unit : Nat
  /-- The denominator of the scale. -/
  step : Nat

namespace DecimalGrid

/-- The grid of the multiples of `10 ^ k` seen from a positive double.  Quarters
of the double's unit are counted, because below a power of two the neighbour is
only half a unit away. -/
def ofBinary64 (x : Binary64) (k : Int) : DecimalGrid :=
  let m := x.significand
  -- two binary places below the unit, where all ends of intervals are whole
  let q := x.exponent - 2
  let atPowerOfTwo := m == twoTo 52 && x.exponent != -1074
  { value := 4 * m
    low := 4 * m - (if atPowerOfTwo then 1 else 2)
    high := 4 * m + 2
    closed := m % 2 == 0
    unit := twoTo q.toNat * tenTo (-k).toNat
    step := twoTo (-q).toNat * tenTo k.toNat }

/-- The grid point `n` rounds to the double. -/
def reads (g : DecimalGrid) (n : Nat) : Bool :=
  if g.closed then
    decide (g.low * g.unit ≤ n * g.step) && decide (n * g.step ≤ g.high * g.unit)
  else
    decide (g.low * g.unit < n * g.step) && decide (n * g.step < g.high * g.unit)

/-- The grid point below the double, or the double itself. -/
def below (g : DecimalGrid) : Nat := g.value * g.unit / g.step

/-- The neighbour of the double that reads back to it, the nearer of two. -/
def pick? (g : DecimalGrid) (tie : TieRule) : Option Nat :=
  let lo := g.below
  let hi := lo + 1
  match g.reads lo, g.reads hi with
  | true, false => some lo
  | false, true => some hi
  | false, false => none
  | true, true =>
    let toLo := g.value * g.unit - lo * g.step
    let toHi := hi * g.step - g.value * g.unit
    if toLo < toHi then some lo
    else if toHi < toLo then some hi
    else match tie with
      | .toEven => if lo % 2 = 0 then some lo else some hi
      | .up => some hi

end DecimalGrid

/-! ### The first grid with a hit -/

/-- A decimal without the zeros at its end; `fuel` bounds their number. -/
def Decimal.trim : Nat → Decimal → Decimal
  | 0, d => d
  | fuel + 1, d =>
    if d.digits % 10 = 0 then trim fuel ⟨d.digits / 10, d.exponent + 1⟩ else d

/-- The first of the grids from `10 ^ k` downwards that has a decimal reading
back; `more` grids are tried, and the last one is answered from below. -/
def Binary64.shortestFrom (x : Binary64) (tie : TieRule) : (more : Nat) → (k : Int) → Decimal
  -- seventeen digits always read back, so this line is not reached
  | 0, k => ⟨(DecimalGrid.ofBinary64 x k).below, k⟩
  | more + 1, k =>
    match (DecimalGrid.ofBinary64 x k).pick? tie with
    | some n => ⟨n, k⟩
    | none => shortestFrom x tie more (k - 1)

/-- The decimal of the fewest digits that reads back to the magnitude of `x`,
without zeros at its end. -/
def Binary64.shortest (x : Binary64) (tie : TieRule) : Decimal :=
  if x.isZero then ⟨0, 0⟩
  else
    let (num, den) := x.ratio
    (x.shortestFrom tie 17 (floorLogTen num den)).trim 18

end BooleanRules
