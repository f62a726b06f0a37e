import BooleanRules.Number.Shortest

/-!
# Layout of decimals

Which digits a double has is settled by `Binary64.shortest`; how they are laid
out is a matter of the output.  A decimal `d.ddd * 10 ^ e` is written
positionally while `e` lies in a window, always with a digit after the point,
and otherwise with one digit before the point and a signed exponent.

* `FloatLayout` is the record of the decisions.
* `Binary64.layOut` writes a double by such a record.
* `FloatLayout.value` is the layout of values and nodes, `FloatLayout.positional`
  the one that never uses an exponent.
-/

namespace BooleanRules

/-- The decisions that fix the text of a double. -/
structure FloatLayout where
  /-- The exponents that are written positionally; `none` means all of them. -/
  window : Option (Int × Int)
  /-- Which of two equally near decimals is written. -/
  tie : TieRule

namespace FloatLayout

/-- Values and nodes are written positionally from `0.00001` to below
`10 ^ 16`. -/
def value : FloatLayout := ⟨some (-5, 15), .toEven⟩

/-- All digits are written out, whatever their number. -/
def positional : FloatLayout := ⟨none, .up⟩

/-- Whether a decimal with this exponent of its first digit has no exponent
part. -/
def isPositional (l : FloatLayout) (e : Int) : Bool :=
  match l.window with
  | none => true
  | some (lo, hi) => decide (lo ≤ e) && decide (e ≤ hi)

end FloatLayout

/-- A run of zeros. -/
def zeros (n : Nat) : List Char := List.replicate n '0'

/-- The digits `ds` of a number whose first digit counts `10 ^ e`, written
positionally with at least one digit after the point. -/
def positionalText (ds : List Char) (e : Int) : List Char :=
  if e < 0 then ['0', '.'] ++ zeros (-e - 1).toNat ++ ds
  else
    let whole := e.toNat + 1
    let front := ds.take whole ++ zeros (whole - ds.length)
    let back := ds.drop whole
    front ++ '.' :: (if back.isEmpty then ['0'] else back)

/-- The digits `ds` with one digit before the point, and the exponent with its
sign. -/
def exponentText (ds : List Char) (e : Int) : List Char :=
  let mantissa := match ds with
    | d :: d' :: more => d :: '.' :: d' :: more
    | short => short
  mantissa ++ 'e' :: (if e < 0 then '-' else '+') :: (Nat.toDigits 10 e.natAbs)

/-- The text of a double. -/
def Binary64.layOut (l : FloatLayout) (x : Binary64) : String :=
  let d := x.shortest l.tie
  let ds := Nat.toDigits 10 d.digits
  let e := d.exponent + (ds.length : Int) - 1
  let body := if l.isPositional e then positionalText ds e else exponentText ds e
  String.ofList (if x.negative then '-' :: body else body)

end BooleanRules
