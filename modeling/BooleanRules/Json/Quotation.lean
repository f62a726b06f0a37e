import BooleanRules.Json.Fault

/-!
# Strings of JSON texts

The text after an opening quote is cut into pieces, each a character or a code
unit written in four hexadecimal digits, up to the closing quote or the first
fault.  Who only skips a string needs no more.  Who keeps it joins the pieces,
and then the code units of a surrogate pair have to stand next to each other.

* `Piece`, `scanPieces` — the pieces, and how they ended.
* `joinPieces` — the characters of the pieces.
* `readString`, `skipString` — a string kept, and a string skipped.
* `skipString_of_readString` — what can be kept can be skipped.
-/

namespace BooleanRules.Json

/-! ### Pieces -/

/-- A part of a string. -/
inductive Piece where
  /-- A character, raw or after a backslash. -/
  | char (c : Char)
  /-- A code unit of sixteen bits. -/
  | codeUnit (n : Nat)
  deriving DecidableEq

/-- The value of a hexadecimal digit. -/
def hexDigit? (c : Char) : Option Nat :=
  if '0' ≤ c ∧ c ≤ '9' then some (c.toNat - '0'.toNat)
  else if 'a' ≤ c ∧ c ≤ 'f' then some (c.toNat - 'a'.toNat + 10)
  else if 'A' ≤ c ∧ c ≤ 'F' then some (c.toNat - 'A'.toNat + 10)
  else none

/-- The code unit that four hexadecimal digits spell. -/
def codeUnit? (a b c d : Char) : Option Nat := do
  let a ← hexDigit? a
  let b ← hexDigit? b
  let c ← hexDigit? c
  let d ← hexDigit? d
  return ((a * 16 + b) * 16 + c) * 16 + d

/-- The fault of a text that goes on as `rest` where four hexadecimal digits were
required.  It has ended too early if less than four bytes are left. -/
def codeUnitFault (rest : List Char) : Fault :=
  if (String.ofList rest).utf8ByteSize < 4 then .unfinished else .malformed

/-- The character that a letter after a backslash stands for. -/
def escaped? (c : Char) : Option Char :=
  if c = '"' ∨ c = '\\' ∨ c = '/' then some c
  else if c = 'b' then some '\x08'
  else if c = 'f' then some '\x0c'
  else if c = 'n' then some '\n'
  else if c = 'r' then some '\r'
  else if c = 't' then some '\t'
  else none

/-- A piece in front of others. -/
def consPiece (p : Piece) (more : List Piece × Except Fault (List Char)) :
    List Piece × Except Fault (List Char) :=
  (p :: more.1, more.2)

/-- The pieces of a text after an opening quote, and either what follows the
closing quote or the fault that ended them. -/
def scanPieces : List Char → List Piece × Except Fault (List Char)
  | [] => ([], .error .unfinished)
  | '"' :: rest => ([], .ok rest)
  | ['\\'] => ([], .error .unfinished)
  | '\\' :: 'u' :: a :: b :: c :: d :: rest =>
    match codeUnit? a b c d with
    | some n => consPiece (.codeUnit n) (scanPieces rest)
    | none => ([], .error (codeUnitFault (a :: b :: c :: d :: rest)))
  -- less than four characters are left, though they may be four bytes
  | '\\' :: 'u' :: short => ([], .error (codeUnitFault short))
  | '\\' :: c :: rest =>
    match escaped? c with
    | some c => consPiece (.char c) (scanPieces rest)
    | none => ([], .error .malformed)
  | c :: rest =>
    if c.toNat < 0x20 then ([], .error .malformed)
    else consPiece (.char c) (scanPieces rest)

/-! ### Joining pieces -/

/-- A code unit that opens a surrogate pair. -/
def isLeading (n : Nat) : Bool := decide (0xd800 ≤ n) && decide (n ≤ 0xdbff)

/-- A code unit that closes a surrogate pair. -/
def isTrailing (n : Nat) : Bool := decide (0xdc00 ≤ n) && decide (n ≤ 0xdfff)

/-- The character of a surrogate pair. -/
def pairedChar (leading trailing : Nat) : Char :=
  Char.ofNat (0x10000 + (leading - 0xd800) * 0x400 + (trailing - 0xdc00))

/-- A character in front of others. -/
def consChar (c : Char) (r : List Char × List Char) : List Char × List Char := (c :: r.1, r.2)

/-- The characters of pieces that ended as `ending`, and what follows them.  A
leading code unit at the end was waiting for its other half: a closing quote is
then a fault of its own. -/
def joinPieces (ending : Except Fault (List Char)) :
    List Piece → Except Fault (List Char × List Char)
  | [] => ending.map fun rest => ([], rest)
  | .char c :: more => (joinPieces ending more).map (consChar c)
  | .codeUnit n :: more =>
    if isTrailing n then .error .malformed
    else if isLeading n then
      match more with
      | .codeUnit m :: more =>
        if isTrailing m then (joinPieces ending more).map (consChar (pairedChar n m))
        else .error .malformed
      | .char _ :: _ => .error .malformed
      -- a fault of the text came before the other half
      | [] => match ending with
        | .ok _ => .error .malformed
        | .error f => .error f
    else (joinPieces ending more).map (consChar (Char.ofNat n))

/-! ### Strings kept and skipped -/

/-- The string after an opening quote, and what follows it. -/
def readString (cs : List Char) : Except Fault (String × List Char) :=
  let (pieces, ending) := scanPieces cs
  (joinPieces ending pieces).map fun r => (String.ofList r.1, r.2)

/-- What follows the string after an opening quote. -/
def skipString (cs : List Char) : Except Fault (List Char) := (scanPieces cs).2

/-- What follows is the same with a character in front. -/
theorem rest_of_map_consChar {x : Except Fault (List Char × List Char)} {c : Char}
    {r : List Char × List Char} (h : x.map (consChar c) = .ok r) :
    ∃ r', x = .ok r' ∧ r'.2 = r.2 := by
  cases x with
  | error f => simp [Except.map] at h
  | ok r' => exact ⟨r', rfl, by cases h; rfl⟩

/-- Pieces can be joined only if they ended with a closing quote. -/
theorem ending_of_joinPieces {ending : Except Fault (List Char)} {pieces : List Piece}
    {r : List Char × List Char} (h : joinPieces ending pieces = .ok r) : ending = .ok r.2 := by
  fun_induction joinPieces ending pieces generalizing r with
  | case1 => cases ending with
    | error f => simp [Except.map] at h
    | ok rest => cases h; rfl
  | case2 c more ih | case9 n more _ _ ih | case4 n _ _ m more _ ih =>
    obtain ⟨r', hr', hrest⟩ := rest_of_map_consChar h
    rw [← hrest, ih hr']
  | _ => simp at h

/-- A string that can be kept can be skipped, and the same text follows. -/
theorem skipString_of_readString {cs rest : List Char} {s : String}
    (h : readString cs = .ok (s, rest)) : skipString cs = .ok rest := by
  unfold readString at h
  cases hj : joinPieces (scanPieces cs).2 (scanPieces cs).1 with
  | error f => simp [hj, Except.map] at h
  | ok r =>
    simp only [hj, Except.map, Except.ok.injEq, Prod.mk.injEq] at h
    rw [skipString, ending_of_joinPieces hj, h.2]

end BooleanRules.Json
