import BooleanRules.Json.Scalar

/-!
# JSON documents

A document is a JSON text read with nothing lost: objects keep their entries in
order and with repeated keys.  Reading stops at the first fault.  At most 127
brackets may be open at a time when a document is kept; skipping one does not
look at the depth.

The readers take what is left of the text and give back what follows.  Their
first argument bounds the number of steps.  `stepBound` is never reached: of any
two steps in a row one takes a character away.

Braces are written by their codes, as `\x7b` and `\x7d`, in characters as in texts.

* `Document`, `Document.read` — documents, and the document of a text.
* `readValue`, `skipValue` — a value in front of a text, kept and skipped.
-/

namespace BooleanRules.Json

/-- A JSON value as written. -/
inductive Document where
  /-- A scalar. -/
  | scalar (s : Scalar)
  /-- Values in order. -/
  | list (items : List Document)
  /-- Entries as written. -/
  | map (entries : List (String × Document))
  deriving Inhabited

/-! ### Limits -/

/-- How many brackets may be open at a time. -/
def maxNesting : Nat := 127

/-- How many steps suffice for a text. -/
def stepBound (cs : List Char) : Nat := 2 * cs.length + 2

/-! ### Keys -/

/-- What follows the colon after a key. -/
def scanColon (cs : List Char) : Except Fault (List Char) :=
  match dropBlanks cs with
  | ':' :: rest => .ok rest
  | rest => .error (.missingBefore rest)

/-- The key in front of a text, without its colon, and what follows it. -/
def readKey (cs : List Char) : Except Fault (String × List Char) :=
  match dropBlanks cs with
  | '"' :: rest => readString rest
  | rest => .error (.missingBefore rest)

/-- What follows the key in front of a text. -/
def skipKey (cs : List Char) : Except Fault (List Char) :=
  match dropBlanks cs with
  | '"' :: rest => skipString rest
  | rest => .error (.missingBefore rest)

/-! ### Keeping values -/

mutual

/-- The value in front of a text, and what follows it; `room` brackets may still
be opened. -/
def readValue : (steps room : Nat) → List Char → Except Fault (Document × List Char)
  | 0, _, _ => .error .unfinished
  | steps + 1, room, cs =>
    match dropBlanks cs with
    | '[' :: rest =>
      match room with
      -- too deep, whatever follows the bracket
      | 0 => .error .malformed
      | room + 1 =>
        match dropBlanks rest with
        | ']' :: rest => .ok (.list [], rest)
        | rest => do
          let (items, rest) ← readItems steps room rest
          return (.list items, rest)
    | '\x7b' :: rest =>
      match room with
      | 0 => .error .malformed
      | room + 1 =>
        match dropBlanks rest with
        | '\x7d' :: rest => .ok (.map [], rest)
        | rest => do
          let (entries, rest) ← readEntries steps room rest
          return (.map entries, rest)
    | rest => do
      let (s, rest) ← readScalar rest
      return (.scalar s, rest)

/-- The items of an array up to its closing bracket, at least one. -/
def readItems : (steps room : Nat) → List Char → Except Fault (List Document × List Char)
  | 0, _, _ => .error .unfinished
  | steps + 1, room, cs => do
    let (item, rest) ← readValue steps room cs
    match dropBlanks rest with
    | ',' :: rest => do
      let (items, rest) ← readItems steps room rest
      return (item :: items, rest)
    | ']' :: rest => return ([item], rest)
    | rest => .error (.missingBefore rest)

/-- The entries of an object up to its closing bracket, at least one. -/
def readEntries : (steps room : Nat) → List Char →
    Except Fault (List (String × Document) × List Char)
  | 0, _, _ => .error .unfinished
  | steps + 1, room, cs => do
    let (key, rest) ← readKey cs
    let (value, rest) ← readValue steps room (← scanColon rest)
    match dropBlanks rest with
    | ',' :: rest => do
      let (entries, rest) ← readEntries steps room rest
      return ((key, value) :: entries, rest)
    | '\x7d' :: rest => return ([(key, value)], rest)
    | rest => .error (.missingBefore rest)

end

/-! ### Skipping values -/

mutual

/-- What follows the value in front of a text. -/
def skipValue : (steps : Nat) → List Char → Except Fault (List Char)
  | 0, _ => .error .unfinished
  | steps + 1, cs =>
    match dropBlanks cs with
    | '[' :: rest =>
      match dropBlanks rest with
      | ']' :: rest => .ok rest
      | rest => skipItems steps rest
    | '\x7b' :: rest =>
      match dropBlanks rest with
      | '\x7d' :: rest => .ok rest
      | rest => skipEntries steps rest
    | rest => skipScalar rest

/-- What follows the items of an array and its closing bracket. -/
def skipItems : (steps : Nat) → List Char → Except Fault (List Char)
  | 0, _ => .error .unfinished
  | steps + 1, cs => do
    let rest ← skipValue steps cs
    match dropBlanks rest with
    | ',' :: rest => skipItems steps rest
    | ']' :: rest => return rest
    | rest => .error (.missingBefore rest)

/-- What follows the entries of an object and its closing bracket. -/
def skipEntries : (steps : Nat) → List Char → Except Fault (List Char)
  | 0, _ => .error .unfinished
  | steps + 1, cs => do
    let rest ← skipKey cs
    let rest ← skipValue steps (← scanColon rest)
    match dropBlanks rest with
    | ',' :: rest => skipEntries steps rest
    | '\x7d' :: rest => return rest
    | rest => .error (.missingBefore rest)

end

/-! ### Whole texts -/

/-- Nothing but blanks may follow the value of a text. -/
def expectEnd (cs : List Char) : Except Fault Unit :=
  if (dropBlanks cs).isEmpty then .ok () else .error .malformed

/-- The document of a text. -/
def Document.read (text : String) : Except Fault Document := do
  let cs := text.toList
  let (d, rest) ← readValue (stepBound cs) maxNesting cs
  expectEnd rest
  return d

end BooleanRules.Json
