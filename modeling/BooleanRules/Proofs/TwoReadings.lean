import BooleanRules.Evaluator
import BooleanRules.Node.Datum
import BooleanRules.Proofs.Canonical
import BooleanRules.Proofs.Evidence
import BooleanRules.Proofs.Spelling
import BooleanRules.Proofs.Trimming

/-!
# The two readings of a text

A rule comes from its text in two ways: at once as a node, which keeps the entries of every map
as they are written, or first as a value, which is then made a node.  Both accept the same texts
and find the same faults in the others.  What they make of a text differs in the maps only: the
second way gives the canonical form of what the first one gives.

So the two trees may be evaluated differently, as the first entry of a map need not be the one
with the first key.  But if no map has more than one entry there is nothing to tell apart, and the
maps in the arguments of functions do not matter, because functions receive values.

## Main definitions

* `Document.datum` — what the reader of a text hands to the visitor that builds a node.
* `ReadAlike` — how the node and the value of a text are related.
* `Node.single`, `Node.singleEvaluated` — maps have one entry at most, everywhere or outside of
  arguments.

## Main results

* `Node.ofDatum_datum` — the visitor accepts every document.
* `Node.toValue_ofDocument` — the value of the node of a document is the value of the document.
* `node_and_value_read_alike` — **the two readings agree.**
* `Expr.ofNode_canonical` — what the canonical form of a tree means.
* `evaluation_of_readings` — **the two readings are evaluated alike.**
-/

namespace BooleanRules

variable {σ : Type}

/-! ### Visiting documents -/

namespace Json

/-- The datum of a scalar: no text has numbers of 128 bits, nor any that is not finite. -/
def Scalar.datum : Scalar → Datum
  | .null => .unit
  | .bool b => .bool b
  | .number (.int i) => .int i
  | .number (.float x) => .float (.finite x)
  | .string s => .string s

namespace Document

mutual

/-- What the reader of a text hands to a visitor. -/
def datum : Document → Datum
  | .scalar s => s.datum
  | .list items => .list (data items)
  | .map entries => .map (dataEntries entries)

/-- What is handed over of the items of an array, one by one. -/
def data : List Document → List Datum
  | [] => []
  | d :: ds => d.datum :: data ds

/-- What is handed over of the entries of an object, as they are written. -/
def dataEntries : List (String × Document) → List (Datum × Datum)
  | [] => []
  | (k, d) :: rest => (.string k, d.datum) :: dataEntries rest

end

end Document

end Json

open Json

namespace Node

theorem ofDatum_scalar (s : Scalar) : ofDatum s.datum = .ok (ofScalar s) := by
  match s with
  | .null | .bool _ | .number (.int _) | .number (.float _) | .string _ => rfl

mutual

/-- **The visitor accepts every document**, and builds the node that keeps all of it. -/
theorem ofDatum_datum : ∀ d : Document, ofDatum d.datum = .ok (ofDocument d)
  | .scalar s => ofDatum_scalar s
  | .list items => by
    rw [Document.datum, ofDatum, ofData_data items]
    rfl
  | .map entries => by
    rw [Document.datum, ofDatum, ofDatumEntries_dataEntries entries]
    rfl

theorem ofData_data : ∀ ds : List Document, ofData (Document.data ds) = .ok (ofItems ds)
  | [] => rfl
  | d :: ds => by
    rw [Document.data, ofData, ofDatum_datum d, ofData_data ds]
    rfl

theorem ofDatumEntries_dataEntries : ∀ entries : List (String × Document),
    ofDatumEntries (Document.dataEntries entries) = .ok (ofFields entries)
  | [] => rfl
  | (k, d) :: rest => by
    rw [Document.dataEntries, ofDatumEntries, ofDatum_datum d, ofDatumEntries_dataEntries rest]
    rfl

end

/-! ### The value of a document -/

theorem toValue_ofScalar (s : Scalar) : (ofScalar s).toValue = .ok (.ofScalar s) := by
  cases s <;> rfl

mutual

/-- **The value of the node of a document is the value of the document.** -/
theorem toValue_ofDocument : ∀ d : Document, (ofDocument d).toValue = .ok (.ofDocument d)
  | .scalar s => toValue_ofScalar s
  | .list items => by
    rw [ofDocument, toValue, toValues_ofItems items]
    rfl
  | .map entries => by
    rw [ofDocument, toValue, toEntries_ofFields entries]
    rfl

theorem toValues_ofItems : ∀ ds : List Document, toValues (ofItems ds) = .ok (Value.ofItems ds)
  | [] => rfl
  | d :: ds => by
    rw [ofItems, toValues, toValue_ofDocument d, toValues_ofItems ds]
    rfl

theorem toEntries_ofFields : ∀ entries : List (String × Document),
    toEntries (ofFields entries) = .ok (Value.ofFields entries)
  | [] => rfl
  | (k, d) :: rest => by
    rw [ofFields, toEntries, toValue_ofDocument d, toEntries_ofFields rest]
    rfl

end

end Node

/-! ### The two readings -/

theorem load_of_read {text : String} {d : Document} (h : Document.read text = .ok d) :
    Node.load text = .ok (.ofDocument d) ∧ Value.read text = .ok (.ofDocument d) := by
  rw [Node.load, Node.read, Value.read, h]
  exact ⟨rfl, rfl⟩

theorem load_of_read_error {text : String} {f : Fault} (h : Document.read text = .error f) :
    Node.load text = .error (.config (.text f)) ∧ Value.read text = .error f := by
  rw [Node.load, Node.read, Value.read, h]
  exact ⟨rfl, rfl⟩

theorem load_eq_ok_iff {text : String} {n : Node} :
    Node.load text = .ok n ↔ Node.read text = .ok n := by
  rw [Node.load]
  cases Node.read text <;> simp

theorem exists_of_load {text : String} {n : Node} (h : Node.load text = .ok n) :
    ∃ d, Document.read text = .ok d ∧ .ofDocument d = n :=
  Node.read_eq_ok_iff_of_document.mp (load_eq_ok_iff.mp h)

/-- What the two readings make of a text that they accept. -/
structure ReadAlike (text : String) (n : Node) (v : Value) : Prop where
  /-- The node is built by the visitor, from what is handed over of the text. -/
  visited : ∃ d, Document.read text = .ok d ∧ Node.ofDatum d.datum = .ok n
  /-- The text spells this node and no other, with the entries of its maps as they are written. -/
  spelled : ∀ n', Node.SpelledBy text n' ↔ n' = n
  /-- There is no predicate in the node. -/
  isData : n.isData = true
  /-- The value stands for the node. -/
  toValue_eq : n.toValue = .ok v
  /-- The node of the value is the node with its maps sorted and the last entries kept. -/
  canonical_eq : n.canonical = .ofValue v

theorem readAlike_of_read {text : String} {d : Document} (h : Document.read text = .ok d) :
    ReadAlike text (.ofDocument d) (.ofDocument d) where
  visited := ⟨d, h, Node.ofDatum_datum d⟩
  spelled n' := by
    have hspelled := Node.spelledBy_of_read (Node.read_eq_ok_iff_of_document.mpr ⟨d, h, rfl⟩)
    exact ⟨fun h' => h'.unique hspelled, fun h' => h' ▸ hspelled⟩
  isData := Node.isData_of_toValue (Node.toValue_ofDocument d)
  toValue_eq := Node.toValue_ofDocument d
  canonical_eq := (Node.ofValue_eq_canonical (Node.toValue_ofDocument d)).symm

/-- **The two readings of a text agree.**  They accept the same texts, those that spell a node with
not too many brackets open at a time.  Of a text that is not accepted both report the same fault,
which has one category.  The node that the one reading gives keeps all entries as they are written,
and it becomes the node of the value that the other one gives by sorting the entries of its maps, of
a repeated key only the last one. -/
theorem node_and_value_read_alike (text : String) :
    (∀ n, Node.load text = .ok n ↔ n.SpelledBy text ∧ n.nesting ≤ maxNesting) ∧
      ((∃ n, Node.load text = .ok n) ↔ ∃ v, Value.read text = .ok v) ∧
      (∀ failure, Node.load text = .error failure ↔
        ∃ f, Value.read text = .error f ∧ failure = .config (.text f)) ∧
      ∀ n v, Node.load text = .ok n → Value.read text = .ok v → ReadAlike text n v := by
  refine ⟨fun n => load_eq_ok_iff.trans Node.read_eq_ok_iff, ?_⟩
  cases hread : Document.read text with
  | error f =>
    obtain ⟨hload, hvalue⟩ := load_of_read_error hread
    rw [hload, hvalue]
    refine ⟨by simp, ?_, by simp⟩
    intro failure
    simp [eq_comm]
  | ok d =>
    obtain ⟨hload, hvalue⟩ := load_of_read hread
    rw [hload, hvalue]
    refine ⟨by simp, by simp, ?_⟩
    intro n v hn hv
    cases hn
    cases hv
    exact readAlike_of_read hread

/-! ### Maps with one entry -/

namespace Node

mutual

/-- Every map in the node, at any depth, has at most one entry. -/
def single : Node → Bool
  | .list items => allSingle items
  | .map [] => true
  | .map [(_, n)] => n.single
  | .map (_ :: _ :: _) => false
  | _ => true

/-- Every map in the nodes of a list has at most one entry. -/
def allSingle : List Node → Bool
  | [] => true
  | n :: ns => n.single && allSingle ns

end

mutual

/-- Every map in a node at an evaluated position has at most one entry, except in the arguments of
functions at evaluated positions. -/
def singleEvaluated : Node → Bool
  | .map [(key, value)] =>
    match KeyRole.ofKey key with
    | .operator _ => value.singleOperands
    | .unrecognized => value.single
    | .function => true
  | n => n.single

/-- The same for the items of a list of operands; anything else is not evaluated. -/
def singleOperands : Node → Bool
  | .list items => allSingleEvaluated items
  | n => n.single

/-- The same for the nodes of a list. -/
def allSingleEvaluated : List Node → Bool
  | [] => true
  | n :: ns => n.singleEvaluated && allSingleEvaluated ns

end

mutual

/-- Without repeated keys, and without anything to sort, a node is canonical. -/
theorem canonical_of_single : ∀ n : Node, n.single = true → n.canonical = n
  | .null, _ | .bool _, _ | .number _, _ | .string _, _ | .predicate _, _ | .map [], _ => rfl
  | .list items, h => by rw [canonical, canonicalItems_of_single items h]
  | .map [(k, n)], h => by
    rw [single] at h
    rw [canonical, canonicalEntries, canonical_of_single n h]
    rfl
  | .map (_ :: _ :: _), h => by cases h

theorem canonicalItems_of_single : ∀ ns : List Node, allSingle ns = true → canonicalItems ns = ns
  | [], _ => rfl
  | n :: ns, h => by
    rw [allSingle, Bool.and_eq_true] at h
    rw [canonicalItems, canonical_of_single n h.1, canonicalItems_of_single ns h.2]

end

end Node

namespace Expr

mutual

/-- **The canonical form of a tree means the same**, if only the arguments of functions have maps
with several entries. -/
theorem ofNode_canonical : ∀ n : Node, n.isData = true → n.singleEvaluated = true →
    ofNode n.canonical = ofNode n
  | .null, _, _ | .bool _, _, _ | .number _, _, _ | .string _, _, _ | .predicate _, _, _
  | .map [], _, _ => rfl
  -- the error of a node that is no expression shows all of it, so nothing may change in it
  | .list items, _, h => by rw [Node.canonical_of_single _ h]
  | .map (_ :: _ :: _), _, h => by cases h
  | .map [(key, value)], hdata, h => by
    have hentry : (Node.map [(key, value)]).canonical = .map [(key, value.canonical)] := rfl
    have hvalue : value.isData = true := by
      rw [Node.isData, Node.entriesData, Bool.and_eq_true] at hdata
      exact hdata.1
    rw [hentry, ofNode, ofNode]
    rw [Node.singleEvaluated] at h
    cases hrole : KeyRole.ofKey key with
    | unrecognized => rfl
    -- the one place where the two trees may differ
    | function => rw [Node.arguments_canonical hvalue]
    | operator op =>
      rw [hrole] at h
      cases value with
      | list operands =>
        have hoperands := ofNodes_canonicalItems operands hvalue h
        simp only [Node.canonical, hoperands]
      | _ => rw [Node.canonical_of_single _ h]

theorem ofNodes_canonicalItems : ∀ ns : List Node, Node.allData ns = true →
    Node.allSingleEvaluated ns = true → ofNodes (Node.canonicalItems ns) = ofNodes ns
  | [], _, _ => rfl
  | n :: ns, hdata, h => by
    rw [Node.allData, Bool.and_eq_true] at hdata
    rw [Node.allSingleEvaluated, Bool.and_eq_true] at h
    rw [Node.canonicalItems, ofNodes, ofNodes, ofNode_canonical n hdata.1 h.1,
      ofNodes_canonicalItems ns hdata.2 h.2]

end

-- a second entry at an evaluated position, and another function is called
example :
    let n : Node := .map [("owns", .null), ("guest", .null)]
    ofNode n = .function "owns" (.ok [.null]) ∧
      ofNode n.canonical = .function "guest" (.ok [.null]) := ⟨rfl, rfl⟩

end Expr

theorem Node.isNull_canonical (n : Node) : n.canonical.isNull = n.isNull := by
  cases n <;> rfl

/-- **The two readings of a text are evaluated alike**, if every object of the text has at most one
entry, except for the objects in the arguments of functions: in all that can be observed, from
whatever state and with whatever callables. -/
theorem evaluation_of_readings (policy : MissingRoot) (env : Callables σ) {text : String} {n : Node}
    (hload : Node.load text = .ok n) (hsingle : n.singleEvaluated = true) :
    ∃ v, Value.read text = .ok v ∧
      evaluateSync policy env (some n) = evaluateSync policy env (some (.ofValue v)) ∧
      evaluateAsync policy env (some n) = evaluateAsync policy env (some (.ofValue v)) := by
  obtain ⟨d, hread, rfl⟩ := exists_of_load hload
  refine ⟨.ofDocument d, (load_of_read hread).2, ?_⟩
  have hvalue := Node.toValue_ofDocument d
  have hmeans := Expr.ofNode_canonical _ (Node.isData_of_toValue hvalue) hsingle
  have hnull := (Node.ofDocument d).isNull_canonical
  rw [Node.ofValue_eq_canonical hvalue]
  exact ⟨evaluateSync_congr hnull.symm hmeans.symm, evaluateAsync_congr hnull.symm hmeans.symm⟩

/-- A rule whose arguments are out of order and have keys that come twice, at two depths. -/
theorem unordered_arguments_read_twice :
    let args := "\x7b\"b\":[],\"a\":\x7b\"y\":[],\"y\":true\x7d,\"b\":null\x7d"
    let text := "\x7b\"$or\":[\x7b\"owns\":" ++ args ++ "\x7d]\x7d"
    let n : Node := .or [.call "owns" (.map [("b", .list []),
      ("a", .map [("y", .list []), ("y", .bool true)]), ("b", .null)])]
    let n' : Node := .or [.call "owns" (.map [("a", .map [("y", .bool true)]), ("b", .null)])]
    let env := admitting true
    n ≠ n' ∧ Node.load text = .ok n ∧ n.singleEvaluated = true ∧
      ∃ v, Value.read text = .ok v ∧ .ofValue v = n' ∧
        evaluateSync .error env (some n) = evaluateSync .error env (some n') ∧
        evaluateAsync .error env (some n) = evaluateAsync .error env (some n') ∧
        answerSync .error env (some n') 0 = .ok true := by
  intro args text n n' env
  let d : Document := .map [("$or", .list [.map [("owns", .map [("b", .list []),
    ("a", .map [("y", .list []), ("y", .scalar (.bool true))]), ("b", .scalar .null)])]])]
  have hdocument : Document.read text = .ok d := by
    simp only [Document.read, text, args, String.toList_append, String.reduceToList]
    rfl
  obtain ⟨hload, hvalue⟩ := load_of_read hdocument
  have hsingle : n.singleEvaluated = true := by decide
  obtain ⟨v, hread, hsync, hasync⟩ := evaluation_of_readings .error env hload hsingle
  cases hread.symm.trans hvalue
  refine ⟨?_, hload, hsingle, _, hread, rfl, hsync, hasync, rfl⟩
  intro h
  simp [n, n', Node.or, Node.entry, Node.call] at h

end BooleanRules
