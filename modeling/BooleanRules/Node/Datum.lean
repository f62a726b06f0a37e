import BooleanRules.EvalError
import BooleanRules.Node.Basic
import BooleanRules.Number.Binary64
import BooleanRules.Text.Quoted

/-!
# Nodes from foreign data

Data formats differ in what they can say.  `Datum` is their common speech: more
kinds of values than nodes have, and maps whose keys may be anything.  A datum
becomes a node if every part of it has a place in a node; otherwise the first
part that has none, in reading order with a key before its value, is the fault.

* `Datum` — data of any format.
* `DatumFault`, `DatumFault.message` — why a datum is no node.
* `Datum.key`, `Node.ofDatum` — the key and the node that a datum stands for.
* `Node.toDatum` — the datum of a node without predicates.
-/

namespace BooleanRules

/-- A value of some data format. -/
inductive Datum where
  /-- The value without content. -/
  | unit
  /-- An absent value. -/
  | none
  /-- A present value. -/
  | some (inner : Datum)
  /-- A value in a wrapper of its own type. -/
  | wrapped (inner : Datum)
  /-- A truth value. -/
  | bool (b : Bool)
  /-- An integer of at most 64 bits. -/
  | int (i : Int)
  /-- An integer of 128 bits. -/
  | wideInt (signed : Bool) (i : Int)
  /-- A floating point number. -/
  | float (x : Extended)
  /-- A character. -/
  | char (c : Char)
  /-- A text. -/
  | string (s : String)
  /-- Bytes. -/
  | bytes (b : ByteArray)
  /-- Values in order. -/
  | list (items : List Datum)
  /-- Entries in order. -/
  | map (entries : List (Datum × Datum))

/-! ### Faults -/

/-- What is found in a place where it does not belong. -/
inductive Misfit where
  /-- The value without content. -/
  | unit
  /-- An absent or a present value. -/
  | option
  /-- A value in a wrapper of its own type. -/
  | wrapped
  /-- A truth value. -/
  | bool (b : Bool)
  /-- An integer of at most 64 bits. -/
  | int (i : Int)
  /-- An integer of 128 bits. -/
  | wideInt (signed : Bool) (i : Int)
  /-- A floating point number. -/
  | float (x : Extended)
  /-- Bytes. -/
  | bytes
  /-- Values in order. -/
  | list
  /-- Entries in order. -/
  | map

/-- The text of a floating point number as messages quote it: all digits, and a
point also in whole numbers. -/
def Extended.quotedText : Extended → String
  | .finite x => x.layOut .positional
  | .infinite negative => if negative then "-inf" else "inf"
  | .notANumber => "NaN"

/-- The words of a message for what was found. -/
def Misfit.words : Misfit → String
  | unit => "unit value"
  | option => "Option value"
  | wrapped => "newtype struct"
  | bool b => "boolean `" ++ toString b ++ "`"
  | int i => "integer `" ++ i.repr ++ "`"
  | wideInt signed i => "integer `" ++ i.repr ++ "` as " ++ (if signed then "i128" else "u128")
  | float x => "floating point `" ++ x.quotedText ++ "`"
  | bytes => "byte array"
  | list => "sequence"
  | map => "map"

/-- Why a datum is no node. -/
inductive DatumFault where
  /-- A number is infinite, or no number. -/
  | nonFinite (x : Extended)
  /-- A value has no place in nodes. -/
  | noNode (found : Misfit)
  /-- A key is no text. -/
  | noKey (found : Misfit)
  /-- A key of bytes does not encode a text. -/
  | noText

/-- The wording of a fault. -/
def DatumFault.message : DatumFault → String
  | nonFinite x => "non-finite number " ++ x.quotedText
  | noNode found => "invalid type: " ++ found.words ++ ", expected an expression node"
  | noKey found => "invalid type: " ++ found.words ++ ", expected a string"
  | noText => "invalid value: byte array, expected a string"

/-! ### Keys and nodes -/

/-- The key that a datum stands for: a text, a character, or the bytes of a
text. -/
def Datum.key : Datum → Except DatumFault String
  | .string s => .ok s
  | .char c => .ok c.toString
  | .bytes b => (String.fromUTF8? b).elim (.error .noText) .ok
  | .unit => .error (.noKey .unit)
  | .none => .error (.noKey .option)
  | .some _ => .error (.noKey .option)
  | .wrapped _ => .error (.noKey .wrapped)
  | .bool b => .error (.noKey (.bool b))
  | .int i => .error (.noKey (.int i))
  | .wideInt signed i => .error (.noKey (.wideInt signed i))
  | .float x => .error (.noKey (.float x))
  | .list _ => .error (.noKey .list)
  | .map _ => .error (.noKey .map)

namespace Node

mutual

/-- The node that a datum stands for, or its first fault. -/
def ofDatum : Datum → Except DatumFault Node
  | .unit => .ok .null
  | .none => .ok .null
  | .some inner => ofDatum inner
  | .wrapped _ => .error (.noNode .wrapped)
  | .bool b => .ok (.bool b)
  | .int i => .ok (.number (.int i))
  | .wideInt signed i => .error (.noNode (.wideInt signed i))
  | .float (.finite x) => .ok (.number (.float x))
  | .float x => .error (.nonFinite x)
  | .char c => .ok (.string c.toString)
  | .string s => .ok (.string s)
  | .bytes _ => .error (.noNode .bytes)
  | .list items => return .list (← ofData items)
  | .map entries => return .map (← ofDatumEntries entries)

/-- The nodes of some data, in order. -/
def ofData : List Datum → Except DatumFault (List Node)
  | [] => .ok []
  | d :: ds => return (← ofDatum d) :: (← ofData ds)

/-- The entries of a map, each key before its value. -/
def ofDatumEntries : List (Datum × Datum) → Except DatumFault (List (String × Node))
  | [] => .ok []
  | (k, d) :: rest => return (← k.key, ← ofDatum d) :: (← ofDatumEntries rest)

end

mutual

/-- The datum of a node; a predicate, which no format can say, is the value
without content. -/
def toDatum : Node → Datum
  | .null => .unit
  | .bool b => .bool b
  | .number (.int i) => .int i
  | .number (.float x) => .float (.finite x)
  | .string s => .string s
  | .list items => .list (toData items)
  | .map entries => .map (toDatumEntries entries)
  | .predicate _ => .unit

/-- The data of some nodes, in order. -/
def toData : List Node → List Datum
  | [] => []
  | n :: ns => toDatum n :: toData ns

/-- The data of some entries, in order. -/
def toDatumEntries : List (String × Node) → List (Datum × Datum)
  | [] => []
  | (k, n) :: rest => (.string k, toDatum n) :: toDatumEntries rest

end

end Node

end BooleanRules
