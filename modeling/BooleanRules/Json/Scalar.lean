import BooleanRules.Json.Numeral
import BooleanRules.Json.Quotation

/-!
# Scalars of JSON texts

Blanks, the three words, numbers and strings: what a JSON text holds besides
brackets.

* `dropBlanks`, `scanWord` — blanks and the letters of a word.
* `Scalar`, `readScalar`, `skipScalar` — a scalar kept, and a scalar skipped.
-/

namespace BooleanRules.Json

/-- The four characters that may stand between the parts of a text. -/
def isBlank (c : Char) : Bool := c == ' ' || c == '\t' || c == '\n' || c == '\r'

/-- A text without the blanks in front. -/
def dropBlanks (cs : List Char) : List Char := cs.dropWhile isBlank

/-- What follows the letters of a word. -/
def scanWord : (word : List Char) → List Char → Except Fault (List Char)
  | [], cs => .ok cs
  | _ :: _, [] => .error .unfinished
  | w :: ws, c :: cs => if c = w then scanWord ws cs else .error .malformed

/-- A JSON value that is neither an array nor an object. -/
inductive Scalar where
  /-- The null value. -/
  | null
  /-- A truth value. -/
  | bool (b : Bool)
  /-- A number. -/
  | number (n : Number)
  /-- A text. -/
  | string (s : String)
  deriving DecidableEq

/-- The scalar in front of a text, and what follows it.  What starts no scalar
is malformed. -/
def readScalar : List Char → Except Fault (Scalar × List Char)
  | [] => .error .unfinished
  | 'n' :: cs => return (.null, ← scanWord ['u', 'l', 'l'] cs)
  | 't' :: cs => return (.bool true, ← scanWord ['r', 'u', 'e'] cs)
  | 'f' :: cs => return (.bool false, ← scanWord ['a', 'l', 's', 'e'] cs)
  | '"' :: cs => do
    let (s, rest) ← readString cs
    return (.string s, rest)
  | c :: cs =>
    if c = '-' ∨ c.isDigit then do
      let (n, rest) ← readNumber (c :: cs)
      return (.number n, rest)
    else .error .malformed

/-- What follows the scalar in front of a text. -/
def skipScalar : List Char → Except Fault (List Char)
  | [] => .error .unfinished
  | 'n' :: cs => scanWord ['u', 'l', 'l'] cs
  | 't' :: cs => scanWord ['r', 'u', 'e'] cs
  | 'f' :: cs => scanWord ['a', 'l', 's', 'e'] cs
  | '"' :: cs => skipString cs
  | c :: cs => if c = '-' ∨ c.isDigit then skipNumber (c :: cs) else .error .malformed

end BooleanRules.Json
