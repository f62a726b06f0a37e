import BooleanRules.Number.Binary64

/-!
# Reading decimal texts

A decimal text is an optional sign and either digits with an optional point and
an optional exponent, or one of the words `inf`, `infinity` and `nan` in any
case.  At least one digit stands before or after the point.  Its value is the
nearest double, however many digits it has.

* `DecimalText.read?` splits a text into its parts.
* `Extended.read?` and `Extended.readSingle?` are the nearest double and the
  nearest single precision number.
-/

namespace BooleanRules

/-- The value of a decimal digit. -/
def digitValue (c : Char) : Nat := c.toNat - '0'.toNat

/-- The natural that a run of digits spells. -/
def digitsValue (ds : List Char) : Nat :=
  ds.foldl (fun n c => 10 * n + digitValue c) 0

/-- The leading digits of a text, and what follows them. -/
def spanDigits (cs : List Char) : List Char × List Char :=
  (cs.takeWhile Char.isDigit, cs.dropWhile Char.isDigit)

/-- The unsigned part of a decimal text. -/
inductive DecimalText where
  /-- A number `digits * 10 ^ exponent`. -/
  | number (digits : Nat) (exponent : Int)
  /-- The word for an infinity. -/
  | infinity
  /-- The word for what is not a number. -/
  | notANumber

namespace DecimalText

/-- The sign in front of a text, and the rest. -/
def splitSign : List Char → Bool × List Char
  | '-' :: cs => (true, cs)
  | '+' :: cs => (false, cs)
  | cs => (false, cs)

/-- The exponent part that ends a text: nothing, or `e` and a signed integer. -/
def readExponent? : List Char → Option Int
  | [] => some 0
  | c :: cs =>
    if c = 'e' ∨ c = 'E' then
      let (negative, ds) := splitSign cs
      if ds.isEmpty || !ds.all Char.isDigit then none
      else
        let n : Int := digitsValue ds
        some (if negative then -n else n)
    else none

/-- The unsigned digits, point and exponent of a text. -/
def readNumber? (cs : List Char) : Option DecimalText :=
  let (whole, rest) := spanDigits cs
  let (fraction, rest) := match rest with
    | '.' :: more => spanDigits more
    | other => ([], other)
  if whole.isEmpty && fraction.isEmpty then none
  else (readExponent? rest).map fun e =>
    .number (digitsValue (whole ++ fraction)) (e - fraction.length)

/-- An unsigned decimal text, or `none` if it is not one. -/
def read? (cs : List Char) : Option DecimalText :=
  let word := String.ofList (cs.map Char.toLower)
  if word = "inf" ∨ word = "infinity" then some .infinity
  else if word = "nan" then some .notANumber
  else readNumber? cs

/-- The number as a quotient of naturals.  Exponents far outside the range of
doubles are brought nearer first, which does not change the rounding. -/
def ratio (digits : Nat) (exponent : Int) : Nat × Nat :=
  let bound : Int := 400 + Nat.log2 (digits + 1)
  let e := max (-bound) (min bound exponent)
  (digits * tenTo e.toNat, tenTo (-e).toNat)

end DecimalText

/-- The value of a decimal text, rounded by `ofRatio`. -/
def Extended.readWith (ofRatio : Bool → Nat → Nat → Extended) (text : String) :
    Option Extended :=
  let (negative, cs) := DecimalText.splitSign text.toList
  (DecimalText.read? cs).map fun
    | .number digits exponent =>
      let (num, den) := DecimalText.ratio digits exponent
      ofRatio negative num den
    | .infinity => .infinite negative
    | .notANumber => .notANumber

/-- The double nearest to a decimal text. -/
def Extended.read? : String → Option Extended := readWith .ofRatio

/-- The single precision number nearest to a decimal text, as a double. -/
def Extended.readSingle? : String → Option Extended := readWith .ofRatioSingle

end BooleanRules
