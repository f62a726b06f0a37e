import BooleanRules.Text.Printable

/-!
# Quoted texts

Two ways to write a text between double quotes.  The compact form escapes the
quote, the backslash and the controls below U+0020 and leaves every other
character as it is.  The inspected form is for people: it writes what is not
printable by its code point.

* `hexText` — a natural in lower-case hexadecimal digits.
* `quoted` — the compact form; `inspected` — the inspected form.
* `enclosed`, `commaSeparated` — brackets and separators of the texts of trees.
-/

namespace BooleanRules

/-- A natural in lower-case hexadecimal digits, at least `width` of them. -/
def hexText (width n : Nat) : List Char :=
  let ds := Nat.toDigits 16 n
  List.replicate (width - ds.length) '0' ++ ds

/-- How a character is written in the compact form. -/
def quotedChar (c : Char) : List Char :=
  if c = '"' then ['\\', '"']
  else if c = '\\' then ['\\', '\\']
  else if c = '\x08' then ['\\', 'b']
  else if c = '\x0c' then ['\\', 'f']
  else if c = '\n' then ['\\', 'n']
  else if c = '\r' then ['\\', 'r']
  else if c = '\t' then ['\\', 't']
  else if c.toNat < 0x20 then ['\\', 'u'] ++ hexText 4 c.toNat
  else [c]

/-- A text in the compact form. -/
def quoted (s : String) : String :=
  String.ofList ('"' :: s.toList.flatMap quotedChar ++ ['"'])

/-- How a character is written in the inspected form. -/
def inspectedChar (c : Char) : List Char :=
  if c = '"' then ['\\', '"']
  else if c = '\\' then ['\\', '\\']
  else if c = '\n' then ['\\', 'n']
  else if c = '\r' then ['\\', 'r']
  else if c = '\t' then ['\\', 't']
  else if c.toNat = 0 then ['\\', '0']
  else if isPrintable c then [c]
  else ['\\', 'u', '\x7b'] ++ hexText 1 c.toNat ++ ['\x7d']

/-- A text in the inspected form. -/
def inspected (s : String) : String :=
  String.ofList ('"' :: s.toList.flatMap inspectedChar ++ ['"'])

/-- A text between an opening and a closing one. -/
def enclosed (left body right : String) : String := left ++ body ++ right

/-- Texts with a comma and a blank between them. -/
def commaSeparated (parts : List String) : String := ", ".intercalate parts

end BooleanRules
