import BooleanRules.Proofs.Canonical

/-!
# Nodes and values, there and back

Every value comes back from its node.  A node has a value unless a predicate occurs in it, be it
under an entry that a later one takes the place of, and the value is the only one that holds all
that the node holds.  The way back leads to the canonical form of the node, so on nodes whose maps
are sorted already the two conversions undo each other.

## Main definitions

* `Node.HoldsPredicate` — a predicate occurs in a node.
* `Node.Sorted` — the keys of every map ascend.
* `Node.Converted` — what becomes of a node and its value on the way back.

## Main results

* `Node.holdsPredicate_iff` — without a predicate a node is data.
* `Node.toValue_eq_ok_iff` — the value of a node holds what the node holds, and no other one does.
* `Node.canonical_eq_self_iff` — the sorted nodes are the canonical ones.
* `conversion_retracts` — **from values to nodes and back nothing changes, and from nodes to values
  and back only what no value can say.**
-/

namespace BooleanRules

namespace Node

/-! ### Predicates in nodes -/

/-- A predicate occurs in the node, at any depth.  Every entry of a map counts, whether or not a
later one has the same key. -/
inductive HoldsPredicate : Node → Prop where
  | here (name : String) : HoldsPredicate (.predicate name)
  | item {items : List Node} {n : Node} (mem : n ∈ items) (inside : HoldsPredicate n) :
    HoldsPredicate (.list items)
  | entry {entries : List (String × Node)} {k : String} {n : Node} (mem : (k, n) ∈ entries)
    (inside : HoldsPredicate n) : HoldsPredicate (.map entries)

theorem allData_iff {ns : List Node} : allData ns = true ↔ ∀ n ∈ ns, n.isData = true := by
  induction ns with
  | nil => simp [allData]
  | cons n ns ih => rw [allData, Bool.and_eq_true, ih, List.forall_mem_cons]

theorem entriesData_iff {entries : List (String × Node)} :
    entriesData entries = true ↔ ∀ e ∈ entries, e.2.isData = true := by
  induction entries with
  | nil => simp [entriesData]
  | cons e rest ih => rw [entriesData, Bool.and_eq_true, ih, List.forall_mem_cons]

theorem HoldsPredicate.isData_eq {n : Node} (h : n.HoldsPredicate) : n.isData = false := by
  rw [← Bool.not_eq_true]
  induction h with
  | here name => exact Bool.false_ne_true
  | item mem inside ih => exact fun hdata => ih (allData_iff.mp hdata _ mem)
  | entry mem inside ih => exact fun hdata => ih (entriesData_iff.mp hdata _ mem)

mutual

theorem holdsPredicate_or_isData : ∀ n : Node, n.HoldsPredicate ∨ n.isData = true
  | .null | .bool _ | .number _ | .string _ => .inr rfl
  | .predicate name => .inl (.here name)
  | .list items => by
    rcases exists_or_allData items with ⟨n, hn, h⟩ | h
    · exact .inl (.item hn h)
    · exact .inr h
  | .map entries => by
    rcases exists_or_entriesData entries with ⟨e, he, h⟩ | h
    · exact .inl (.entry he h)
    · exact .inr h

theorem exists_or_allData : ∀ ns : List Node,
    (∃ n ∈ ns, n.HoldsPredicate) ∨ allData ns = true
  | [] => .inr rfl
  | n :: ns => by
    rw [List.exists_mem_cons_iff, allData, Bool.and_eq_true]
    rcases holdsPredicate_or_isData n with hn | hn
    · exact .inl (.inl hn)
    · exact (exists_or_allData ns).imp .inr (⟨hn, ·⟩)

theorem exists_or_entriesData : ∀ entries : List (String × Node),
    (∃ e ∈ entries, e.2.HoldsPredicate) ∨ entriesData entries = true
  | [] => .inr rfl
  | (_, n) :: rest => by
    rw [List.exists_mem_cons_iff, entriesData, Bool.and_eq_true]
    rcases holdsPredicate_or_isData n with hn | hn
    · exact .inl (.inl hn)
    · exact (exists_or_entriesData rest).imp .inr (⟨hn, ·⟩)

end

/-- **Without a predicate a node is data.** -/
theorem holdsPredicate_iff {n : Node} : n.HoldsPredicate ↔ n.isData = false := by
  refine ⟨HoldsPredicate.isData_eq, fun h => ?_⟩
  rcases n.holdsPredicate_or_isData with hn | hn
  · exact hn
  · cases h.symm.trans hn

theorem not_holdsPredicate_iff {n : Node} : ¬ n.HoldsPredicate ↔ n.isData = true := by
  rw [holdsPredicate_iff, Bool.not_eq_false]

/-! ### The value of a node -/

/-- Conversion fails for a predicate alone, and always in the same way. -/
theorem toValue_eq_error_iff {n : Node} {error : EvalError} :
    n.toValue = .error error ↔ n.HoldsPredicate ∧ error = .unexpectedToken "[predicate]" := by
  rw [holdsPredicate_iff]
  rcases n.toValue_cases with ⟨hdata, v, hv⟩ | ⟨hdata, herror⟩
  · simp [hdata, hv]
  · simp [hdata, herror, eq_comm]

/-- What one value binds a key to the other one does, if the entries leave no choice. -/
theorem mem_object_of_conveys {entries : List (String × Node)} {vs vs' : List (String × Value)}
    (hunique : ∀ e ∈ entries, ∀ v v', Conveys e.2 v → Conveys e.2 v' → v = v')
    (h : Conveys (.map entries) (.object vs)) (h' : Conveys (.map entries) (.object vs'))
    {k : String} {v : Value} (hv : (k, v) ∈ vs) : (k, v) ∈ vs' := by
  cases h with
  | map hascending hkeys hconveys =>
    cases h' with
    | map hascending' hkeys' hconveys' =>
      have hkey : k ∈ entries.map Prod.fst := (hkeys k).mp (List.mem_map_of_mem hv)
      -- the last entry with the key, and what the other value binds the key to
      obtain ⟨n, hn⟩ : ∃ n, valueOf? k entries.reverse = some n := by
        rw [← Option.isSome_iff_exists, isSome_valueOf?_iff, List.map_reverse, List.mem_reverse]
        exact hkey
      obtain ⟨v', hv'⟩ : ∃ v', valueOf? k vs' = some v' := by
        rw [← Option.isSome_iff_exists, isSome_valueOf?_iff]
        exact (hkeys' k).mpr hkey
      have hlast : (k, n) ∈ entries := List.mem_reverse.mp (mem_of_valueOf? hn)
      have hfound : valueOf? k vs = some v := (valueOf?_eq_some_iff hascending.nodup).mpr hv
      rw [hunique _ hlast v v' (hconveys k n v hn hfound) (hconveys' k n v' hn hv')]
      exact mem_of_valueOf? hv'

mutual

/-- A node is held by one value at most. -/
theorem Conveys.unique : ∀ {n : Node} {v v' : Value}, Conveys n v → Conveys n v' → v = v'
  | .null, _, _, .null, .null => rfl
  | .bool _, _, _, .bool _, .bool _ => rfl
  | .number _, _, _, .number _, .number _ => rfl
  | .string _, _, _, .string _, .string _ => rfl
  | .list items, _, _, .list h, .list h' => by rw [conveyed_unique items h h']
  | .map entries, _, _, .map ascending mem_keys conveyed, .map ascending' mem_keys' conveyed' => by
    have hunique := conveyedEntries_unique entries
    have h := Conveys.map ascending mem_keys conveyed
    have h' := Conveys.map ascending' mem_keys' conveyed'
    refine congrArg Value.object (ascending.ext ascending' fun k v => ⟨?_, ?_⟩)
    · exact mem_object_of_conveys hunique h h'
    · exact mem_object_of_conveys hunique h' h

theorem conveyed_unique : ∀ (ns : List Node) {vs vs' : List Value},
    List.Forall₂ Conveys ns vs → List.Forall₂ Conveys ns vs' → vs = vs'
  | [], _, _, .nil, .nil => rfl
  | _ :: ns, _, _, .cons h hs, .cons h' hs' => by
    rw [Conveys.unique h h', conveyed_unique ns hs hs']

theorem conveyedEntries_unique : ∀ (entries : List (String × Node)), ∀ e ∈ entries,
    ∀ v v' : Value, Conveys e.2 v → Conveys e.2 v' → v = v'
  | (_, n) :: rest, e, he, v, v', h, h' => by
    rcases List.mem_cons.mp he with rfl | he
    · exact Conveys.unique h h'
    · exact conveyedEntries_unique rest e he v v' h h'

end

/-- **The value of a node holds what the node holds, and no other value does.**  A predicate that
is hidden by a later entry is held by no value and has none. -/
theorem toValue_eq_ok_iff {n : Node} {v : Value} :
    n.toValue = .ok v ↔ ¬ n.HoldsPredicate ∧ Conveys n v := by
  rw [not_holdsPredicate_iff]
  constructor
  · exact fun h => ⟨isData_of_toValue h, conveys_of_toValue n h⟩
  · rintro ⟨hdata, hconveys⟩
    rcases n.toValue_cases with ⟨-, v', hv'⟩ | ⟨hfalse, -⟩
    · rw [hv', hconveys.unique (conveys_of_toValue n hv')]
    · cases hfalse.symm.trans hdata

/-! ### Sorted nodes -/

mutual

/-- The keys of every map in the node ascend strictly, so none is repeated. -/
def Sorted : Node → Prop
  | .list items => AllSorted items
  | .map entries => Ascending entries ∧ EntriesSorted entries
  | _ => True

/-- Every node of a list is sorted. -/
def AllSorted : List Node → Prop
  | [] => True
  | n :: ns => n.Sorted ∧ AllSorted ns

/-- Every node under some entries is sorted. -/
def EntriesSorted : List (String × Node) → Prop
  | [] => True
  | (_, n) :: rest => n.Sorted ∧ EntriesSorted rest

end

theorem entriesSorted_iff {entries : List (String × Node)} :
    EntriesSorted entries ↔ ∀ e ∈ entries, e.2.Sorted := by
  induction entries with
  | nil => simp [EntriesSorted]
  | cons e rest ih => rw [EntriesSorted, ih, List.forall_mem_cons]

mutual

theorem sorted_canonical : ∀ n : Node, n.canonical.Sorted
  | .null | .bool _ | .number _ | .string _ | .predicate _ => trivial
  | .list items => allSorted_canonicalItems items
  | .map entries => by
    refine ⟨ascending_sortKeys (nodup_keys_keepLast _), entriesSorted_iff.mpr fun e he => ?_⟩
    have hkept : e ∈ keepLast (canonicalEntries entries) := (List.mem_insertionSort _).mp he
    exact entriesSorted_canonicalEntries entries e ((keepLast_sublist _).subset hkept)

theorem allSorted_canonicalItems : ∀ ns : List Node, AllSorted (canonicalItems ns)
  | [] => trivial
  | n :: ns => ⟨sorted_canonical n, allSorted_canonicalItems ns⟩

theorem entriesSorted_canonicalEntries : ∀ entries : List (String × Node),
    ∀ e ∈ canonicalEntries entries, e.2.Sorted
  | (_, n) :: rest, e, he => by
    rcases List.mem_cons.mp he with rfl | he
    · exact sorted_canonical n
    · exact entriesSorted_canonicalEntries rest e he

end

mutual

/-- There is nothing to sort in what is sorted, and no entry to leave out. -/
theorem canonical_of_sorted : ∀ n : Node, n.Sorted → n.canonical = n
  | .null, _ | .bool _, _ | .number _, _ | .string _, _ | .predicate _, _ => rfl
  | .list items, h => by rw [canonical, canonicalItems_of_sorted items h]
  | .map entries, ⟨hascending, h⟩ => by
    rw [canonical, canonicalEntries_of_sorted entries h, ← foldl_insertEntry_eq,
      hascending.foldl_insertEntry]

theorem canonicalItems_of_sorted : ∀ ns : List Node, AllSorted ns → canonicalItems ns = ns
  | [], _ => rfl
  | n :: ns, h => by
    rw [canonicalItems, canonical_of_sorted n h.1, canonicalItems_of_sorted ns h.2]

theorem canonicalEntries_of_sorted : ∀ entries : List (String × Node), EntriesSorted entries →
    canonicalEntries entries = entries
  | [], _ => rfl
  | (_, n) :: rest, h => by
    rw [canonicalEntries, canonical_of_sorted n h.1, canonicalEntries_of_sorted rest h.2]

end

/-- **The sorted nodes are the canonical ones.** -/
theorem canonical_eq_self_iff {n : Node} : n.canonical = n ↔ n.Sorted :=
  ⟨fun h => h ▸ n.sorted_canonical, n.canonical_of_sorted⟩

/-! ### The main theorem -/

/-- What becomes of the node `n`, which has the value `v`, on the way back. -/
structure Converted (n : Node) (v : Value) : Prop where
  /-- The value is one that can be: the keys of its objects ascend. -/
  wellFormed : v.WellFormed
  /-- Back from the value comes the node with its maps sorted, of a repeated key only the last
  entry, -/
  back : ofValue v = n.canonical
  /-- in which every map is sorted, at every depth, -/
  sorted : n.canonical.Sorted
  /-- and which has the same value. -/
  again : n.canonical.toValue = .ok v
  /-- It is the node itself exactly if the node is sorted. -/
  fixed : ofValue v = n ↔ n.Sorted

theorem converted_of_toValue {n : Node} {v : Value} (h : n.toValue = .ok v) :
    Converted n v where
  wellFormed := wellFormed_of_toValue.1 n v h
  back := ofValue_eq_canonical h
  sorted := n.sorted_canonical
  again := toValue_canonical h
  fixed := by rw [ofValue_eq_canonical h, canonical_eq_self_iff]

end Node

/-- **From values to nodes and back nothing changes, and from nodes to values and back only what no
value can say.**  A value comes back from its node.  A node has no value exactly if a predicate
occurs in it, and then this is the error.  Otherwise its value is the one that holds all that the
node holds, and the way back leads to the canonical form of the node, where the node stays what it
is if it is sorted. -/
theorem conversion_retracts :
    (∀ v : Value, v.WellFormed → (Node.ofValue v).toValue = .ok v) ∧
      ∀ n : Node,
        (∀ error, n.toValue = .error error ↔
          n.HoldsPredicate ∧ error = .unexpectedToken "[predicate]") ∧
        (∀ v, n.toValue = .ok v ↔ ¬ n.HoldsPredicate ∧ n.Conveys v) ∧
        (¬ n.HoldsPredicate → ∃ v, n.toValue = .ok v ∧ n.Converted v) := by
  refine ⟨Value.toValue_ofValue, fun n => ⟨?_, ?_, ?_⟩⟩
  · exact fun error => Node.toValue_eq_error_iff
  · exact fun v => Node.toValue_eq_ok_iff
  · intro h
    rcases n.toValue_cases with ⟨-, v, hv⟩ | ⟨hdata, -⟩
    · exact ⟨v, hv, Node.converted_of_toValue hv⟩
    · exact absurd (Node.holdsPredicate_iff.mpr hdata) h

/-- A node with keys that come twice, at two depths, and the node that comes back from its value.
With a predicate under the first of the entries of a key the node has no value. -/
theorem repeated_keys_converted :
    let inner (last : Node) : Node := .map [("y", .null), ("x", .list []), ("y", last)]
    let n : Node := .map [("b", .list [inner (.bool true)]), ("a", .string "new")]
    let hidden : Node := .map [("a", .predicate "p"), ("a", .null)]
    let n' : Node := .map [("a", .string "new"),
      ("b", .list [.map [("x", .list []), ("y", .bool true)]])]
    ∃ v, n.toValue = .ok v ∧ v.WellFormed ∧ Node.ofValue v = n' ∧ n'.toValue = .ok v ∧
      ¬ n.Sorted ∧ n'.Sorted ∧ hidden.HoldsPredicate ∧
      hidden.toValue = .error (.unexpectedToken "[predicate]") := by
  intro inner n hidden n'
  let v : Value := .object [("a", .string "new"),
    ("b", .array [.object [("x", .array []), ("y", .bool true)]])]
  have hdata : ¬ n.HoldsPredicate := Node.not_holdsPredicate_iff.mpr rfl
  have hhidden : hidden.HoldsPredicate := Node.holdsPredicate_iff.mpr rfl
  have hback : Node.ofValue v = n' := rfl
  obtain ⟨v', hv', hconverted⟩ := (conversion_retracts.2 n).2.2 hdata
  obtain rfl : v = v' := Except.ok.inj hv'
  have hcanonical : n.canonical = n' := hconverted.back.symm.trans hback
  refine ⟨v, hv', hconverted.wellFormed, hback, hback ▸ conversion_retracts.1 v
    hconverted.wellFormed, ?_, hcanonical ▸ hconverted.sorted, hhidden, ?_⟩
  · rw [← hconverted.fixed, hback]
    simp [n, n']
  · exact ((conversion_retracts.2 hidden).1 _).mpr ⟨hhidden, rfl⟩

end BooleanRules
