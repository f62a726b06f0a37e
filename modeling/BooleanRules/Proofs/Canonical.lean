import Mathlib.Data.List.Sort
import BooleanRules.Proofs.Conversion
import BooleanRules.Proofs.Reading

/-!
# Canonical nodes

A value does not remember the order in which the entries of its objects were written, nor the
entries that a later one with the same key took the place of.  So a node that is made a value and
then a node again comes back changed, in every map at every depth, but in no other way: its maps
are sorted by key, and of a repeated key the last entry is left.  Which entry that is can be told
without any insertion, and then the value of a node can be told from the node itself.

Values lose nothing on the way to nodes and back.

## Main definitions

* `keepLast`, `sortKeys` — the last entry of each key, and entries in the order of their keys.
* `Node.canonical` — both, in every map of a node.

## Main results

* `foldl_insertEntry_eq` — inserting entries one by one is keeping the last ones and sorting.
* `Node.toValue_induct` — induction over nodes that have a value.
* `Node.ofValue_eq_canonical` — **back from its value a node is canonical.**
* `Node.wellFormed_of_toValue` — the objects of a value have ascending keys.
* `Value.toValue_ofValue` — **a value comes back from its node.**
-/

namespace BooleanRules

/-! ### Entries in canonical order -/

section Lists

variable {α : Type} {k : String} {a : α} {entries : List (String × α)}

/-- The entries whose key does not come again: of a repeated key the last one. -/
def keepLast : List (String × α) → List (String × α)
  | [] => []
  | e :: rest => if e.1 ∈ rest.map Prod.fst then keepLast rest else e :: keepLast rest

/-- The entries in the order of their keys. -/
def sortKeys (entries : List (String × α)) : List (String × α) :=
  entries.insertionSort fun e e' => e.1 ≤ e'.1

example : sortKeys (keepLast [("b", 1), ("c", 2), ("b", 3), ("a", 4)]) =
    [("a", 4), ("b", 3), ("c", 2)] := by decide

theorem valueOf?_eq_none_iff : valueOf? k entries = none ↔ k ∉ entries.map Prod.fst := by
  induction entries with
  | nil => simp [valueOf?]
  | cons e rest ih =>
    rw [List.map_cons, List.mem_cons, not_or, ← ih, valueOf?]
    by_cases hk : e.1 = k
    · simp [hk]
    · simp [hk, Ne.symm hk]

theorem mem_of_valueOf? (h : valueOf? k entries = some a) : (k, a) ∈ entries := by
  induction entries with
  | nil => cases h
  | cons e rest ih =>
    obtain ⟨k', a'⟩ := e
    by_cases hk : k' = k
    · rw [valueOf?, if_pos hk, Option.some.injEq] at h
      rw [hk, h]
      exact List.mem_cons_self
    · rw [valueOf?, if_neg hk] at h
      exact List.mem_cons_of_mem _ (ih h)

/-- Where no key is repeated, lookup finds every entry. -/
theorem valueOf?_eq_some_iff (hnodup : (entries.map Prod.fst).Nodup) :
    valueOf? k entries = some a ↔ (k, a) ∈ entries := by
  induction entries with
  | nil => simp [valueOf?]
  | cons e rest ih =>
    obtain ⟨k', a'⟩ := e
    rw [List.map_cons, List.nodup_cons] at hnodup
    by_cases hk : k' = k
    · subst hk
      have hrest : (k', a) ∉ rest := fun hmem => hnodup.1 (List.mem_map.mpr ⟨_, hmem, rfl⟩)
      simp [valueOf?, hrest, eq_comm]
    · simp [valueOf?, hk, Ne.symm hk, ih hnodup.2]

theorem isSome_valueOf?_iff : (valueOf? k entries).isSome ↔ k ∈ entries.map Prod.fst := by
  rw [Option.isSome_iff_ne_none, Ne, valueOf?_eq_none_iff, not_not]

/-- **What is kept is what lookup finds last.** -/
theorem mem_keepLast : (k, a) ∈ keepLast entries ↔ valueOf? k entries.reverse = some a := by
  induction entries with
  | nil => simp [keepLast, valueOf?]
  | cons e rest ih =>
    obtain ⟨k', a'⟩ := e
    rw [List.reverse_cons, valueOf?_append, valueOf?_singleton, keepLast]
    by_cases hk : k' = k
    · subst hk
      by_cases hagain : k' ∈ rest.map Prod.fst
      -- lookup from the end finds the later entry first
      · rw [if_pos hagain, ih, Option.or_of_isSome]
        rwa [isSome_valueOf?_iff, List.map_reverse, List.mem_reverse]
      · have hnone : valueOf? k' rest.reverse = none := by
          rwa [valueOf?_eq_none_iff, List.map_reverse, List.mem_reverse]
        rw [hnone] at ih ⊢
        simp [hagain, ih, eq_comm]
    -- an entry of another key is never found, kept or not
    · rw [if_neg hk, Option.or_none, ← ih]
      split
      · rfl
      · simp [Ne.symm hk]

theorem keepLast_sublist (entries : List (String × α)) : (keepLast entries).Sublist entries := by
  induction entries with
  | nil => exact .slnil
  | cons e rest ih =>
    rw [keepLast]
    split
    · exact ih.cons _
    · exact ih.cons_cons _

/-- No key is repeated in what is kept. -/
theorem nodup_keys_keepLast (entries : List (String × α)) :
    ((keepLast entries).map Prod.fst).Nodup := by
  induction entries with
  | nil => exact .nil
  | cons e rest ih =>
    rw [keepLast]
    split
    · exact ih
    · rename_i hlast
      refine List.nodup_cons.mpr ⟨?_, ih⟩
      exact fun hmem => hlast (((keepLast_sublist rest).map Prod.fst).subset hmem)

theorem Ascending.nodup (h : Ascending entries) : (entries.map Prod.fst).Nodup :=
  h.imp fun hlt => Std.ne_of_lt hlt

/-- Entries that are told apart by their keys ascend when they are sorted. -/
theorem ascending_sortKeys (hnodup : (entries.map Prod.fst).Nodup) :
    Ascending (sortKeys entries) := by
  have : Std.Total fun e e' : String × α => e.1 ≤ e'.1 := ⟨fun _ _ => Std.le_total⟩
  have : IsTrans (String × α) fun e e' => e.1 ≤ e'.1 := ⟨fun _ _ _ => Std.le_trans⟩
  have hsorted := List.pairwise_insertionSort (fun e e' : String × α => e.1 ≤ e'.1) entries
  have hperm : (sortKeys entries).Perm entries := List.perm_insertionSort ..
  have hdistinct := (hperm.map Prod.fst).nodup_iff.mpr hnodup
  exact List.pairwise_map.mpr <| (hsorted.and (List.pairwise_map.mp hdistinct)).imp
    fun h => Std.lt_of_le_of_ne h.1 h.2

/-- Entries in ascending order are known by which they are. -/
theorem Ascending.ext {entries' : List (String × α)} (h : Ascending entries)
    (h' : Ascending entries') (hmem : ∀ k a, (k, a) ∈ entries ↔ (k, a) ∈ entries') :
    entries = entries' := by
  have : Std.Antisymm fun e e' : String × α => e.1 < e'.1 :=
    ⟨fun _ _ hlt hlt' => absurd hlt' (Std.not_gt_of_lt hlt)⟩
  have : Std.Irrefl fun e e' : String × α => e.1 < e'.1 := ⟨fun _ => String.lt_irrefl _⟩
  exact (List.pairwise_map.mp h).eq_of_mem_iff (List.pairwise_map.mp h') fun e => hmem e.1 e.2

/-- **Inserting entries one by one is keeping the last ones and sorting.** -/
theorem foldl_insertEntry_eq (entries : List (String × α)) :
    entries.foldl (fun done e => insertEntry e.1 e.2 done) [] = sortKeys (keepLast entries) := by
  have hascending := ascending_foldl_insertEntry entries ascending_nil
  refine hascending.ext (ascending_sortKeys (nodup_keys_keepLast entries)) ?_
  intro k a
  rw [← valueOf?_eq_some_iff hascending.nodup, valueOf?_foldl_insertEntry, valueOf?,
    Option.or_none, ← mem_keepLast, sortKeys, List.mem_insertionSort]

/-- Entries that ascend are inserted as they stand. -/
theorem Ascending.foldl_insertEntry (h : Ascending entries) :
    entries.foldl (fun done e => insertEntry e.1 e.2 done) [] = entries := by
  refine (ascending_foldl_insertEntry entries ascending_nil).ext h ?_
  intro k a
  have hreverse : (entries.reverse.map Prod.fst).Nodup := by
    rw [List.map_reverse, List.nodup_reverse]
    exact h.nodup
  rw [foldl_insertEntry_eq, sortKeys, List.mem_insertionSort, mem_keepLast,
    valueOf?_eq_some_iff hreverse, List.mem_reverse]

end Lists

/-! ### Nodes that have a value -/

namespace Node

/-- What has a value is data. -/
theorem isData_of_toValue {n : Node} {v : Value} (h : n.toValue = .ok v) : n.isData = true := by
  rcases n.toValue_cases with ⟨hdata, -⟩ | ⟨-, herror⟩
  · exact hdata
  · cases h.symm.trans herror

/-- Induction over a node and the value it has, together with the items of lists and the entries
of maps. -/
theorem toValue_induct {P : Node → Value → Prop} {Q : List Node → List Value → Prop}
    {R : List (String × Node) → List (String × Value) → Prop} (null : P .null .null)
    (bool : ∀ b, P (.bool b) (.bool b)) (number : ∀ n, P (.number n) (.number n))
    (string : ∀ s, P (.string s) (.string s))
    (list : ∀ items vs, Q items vs → P (.list items) (.array vs))
    (map : ∀ entries vs, R entries vs → P (.map entries) (.ofEntries vs))
    (nil : Q [] []) (cons : ∀ n v ns vs, P n v → Q ns vs → Q (n :: ns) (v :: vs))
    (none : R [] [])
    (entry : ∀ k n v rest vs, P n v → R rest vs → R ((k, n) :: rest) ((k, v) :: vs)) :
    (∀ n v, toValue n = .ok v → P n v) ∧ (∀ ns vs, toValues ns = .ok vs → Q ns vs) ∧
      ∀ entries vs, toEntries entries = .ok vs → R entries vs :=
  ⟨node, items, entries⟩
where
  node : ∀ n v, toValue n = .ok v → P n v
    | .null, _, h => by cases h; exact null
    | .bool b, _, h => by cases h; exact bool b
    | .number n, _, h => by cases h; exact number n
    | .string s, _, h => by cases h; exact string s
    | .predicate _, _, h => by cases h
    | .list ns, _, h => by
      obtain ⟨vs, hvs, h⟩ := exists_of_bind_eq_ok h
      cases h
      exact list ns vs (items ns vs hvs)
    | .map es, _, h => by
      obtain ⟨vs, hvs, h⟩ := exists_of_bind_eq_ok h
      cases h
      exact map es vs (entries es vs hvs)
  items : ∀ ns vs, toValues ns = .ok vs → Q ns vs
    | [], _, h => by cases h; exact nil
    | n :: ns, _, h => by
      obtain ⟨v, hv, h⟩ := exists_of_bind_eq_ok h
      obtain ⟨vs, hvs, h⟩ := exists_of_bind_eq_ok h
      cases h
      exact cons n v ns vs (node n v hv) (items ns vs hvs)
  entries : ∀ es vs, toEntries es = .ok vs → R es vs
    | [], _, h => by cases h; exact none
    | (k, n) :: rest, _, h => by
      obtain ⟨v, hv, h⟩ := exists_of_bind_eq_ok h
      obtain ⟨vs, hvs, h⟩ := exists_of_bind_eq_ok h
      cases h
      exact entry k n v rest vs (node n v hv) (entries rest vs hvs)

/-! ### Back from values -/

theorem ofEntries_insertEntry (k : String) (v : Value) (done : List (String × Value)) :
    ofEntries (insertEntry k v done) = insertEntry k (ofValue v) (ofEntries done) := by
  induction done with
  | nil => rfl
  | cons e done ih =>
    obtain ⟨k', v'⟩ := e
    rw [ofEntries, insertEntry, insertEntry]
    split
    · rfl
    · split
      · rfl
      · rw [ofEntries, ih]

/-- Values may be made nodes before they are inserted or after. -/
theorem ofEntries_foldl_insertEntry (entries done : List (String × Value)) :
    ofEntries (entries.foldl (fun done e => insertEntry e.1 e.2 done) done) =
      (ofEntries entries).foldl (fun done e => insertEntry e.1 e.2 done) (ofEntries done) := by
  induction entries generalizing done with
  | nil => rfl
  | cons e entries ih =>
    obtain ⟨k, v⟩ := e
    rw [List.foldl_cons, ih, ofEntries_insertEntry, ofEntries, List.foldl_cons]

mutual

/-- The node with the entries of every map in the order of their keys, of a repeated key only
the last one. -/
def canonical : Node → Node
  | .list items => .list (canonicalItems items)
  | .map entries => .map (sortKeys (keepLast (canonicalEntries entries)))
  | n => n

/-- The canonical nodes of a list. -/
def canonicalItems : List Node → List Node
  | [] => []
  | n :: ns => n.canonical :: canonicalItems ns

/-- The entries with canonical nodes, as written. -/
def canonicalEntries : List (String × Node) → List (String × Node)
  | [] => []
  | (k, n) :: rest => (k, n.canonical) :: canonicalEntries rest

end

/-- Back from their values nodes are canonical, and so are the items of lists and the entries of
maps. -/
theorem canonical_of_toValue :
    (∀ n v, toValue n = .ok v → ofValue v = n.canonical) ∧
      (∀ ns vs, toValues ns = .ok vs → ofValues vs = canonicalItems ns) ∧
      ∀ entries vs, toEntries entries = .ok vs → ofEntries vs = canonicalEntries entries := by
  refine toValue_induct rfl (fun _ => rfl) (fun _ => rfl) (fun _ => rfl) ?_ ?_ rfl ?_ rfl ?_
  · intro items vs hitems
    rw [ofValue, canonical, hitems]
  · intro entries vs hentries
    rw [Value.ofEntries, ofValue, canonical, ofEntries_foldl_insertEntry, hentries, ofEntries,
      foldl_insertEntry_eq]
  · intro n v ns vs hn hns
    rw [ofValues, canonicalItems, hn, hns]
  · intro k n v rest vs hn hrest
    rw [ofEntries, canonicalEntries, hn, hrest]

/-- **Back from its value a node is canonical.** -/
theorem ofValue_eq_canonical {n : Node} {v : Value} (h : n.toValue = .ok v) :
    ofValue v = n.canonical :=
  canonical_of_toValue.1 n v h

end Node

/-! ### The values of nodes -/

namespace Value

theorem entriesWellFormed_iff {entries : List (String × Value)} :
    EntriesWellFormed entries ↔ ∀ e ∈ entries, e.2.WellFormed := by
  induction entries with
  | nil => simp [EntriesWellFormed]
  | cons e rest ih => rw [EntriesWellFormed, ih, List.forall_mem_cons]

/-- The object of well-formed entries is well formed. -/
theorem wellFormed_ofEntries {entries : List (String × Value)} (h : EntriesWellFormed entries) :
    (ofEntries entries).WellFormed := by
  refine ⟨ascending_foldl_insertEntry entries ascending_nil, entriesWellFormed_iff.mpr ?_⟩
  intro e he
  rw [foldl_insertEntry_eq, sortKeys, List.mem_insertionSort] at he
  exact entriesWellFormed_iff.mp h e ((keepLast_sublist entries).subset he)

end Value

namespace Node

/-- The objects of a value have ascending keys, and so have those of its items and entries. -/
theorem wellFormed_of_toValue :
    (∀ n v, toValue n = .ok v → v.WellFormed) ∧
      (∀ ns vs, toValues ns = .ok vs → Value.AllWellFormed vs) ∧
      ∀ entries vs, toEntries entries = .ok vs → Value.EntriesWellFormed vs := by
  refine toValue_induct trivial (fun _ => trivial) (fun _ => trivial) (fun _ => trivial) ?_ ?_
    trivial ?_ trivial ?_
  · exact fun _ _ hitems => hitems
  · exact fun _ _ hentries => Value.wellFormed_ofEntries hentries
  · exact fun _ _ _ _ hn hns => ⟨hn, hns⟩
  · exact fun _ _ _ _ _ hn hrest => ⟨hn, hrest⟩

end Node

namespace Value

mutual

/-- **A value comes back from its node.** -/
theorem toValue_ofValue : ∀ v : Value, v.WellFormed → (Node.ofValue v).toValue = .ok v
  | .null, _ | .bool _, _ | .number _, _ | .string _, _ => rfl
  | .array items, h => by
    rw [Node.ofValue, Node.toValue, toValues_ofValues items h]
    rfl
  | .object entries, ⟨hascending, h⟩ => by
    have hobject : ofEntries entries = .object entries := by
      rw [ofEntries, hascending.foldl_insertEntry]
    rw [Node.ofValue, Node.toValue, toEntries_ofEntries entries h, ← hobject]
    rfl

theorem toValues_ofValues : ∀ vs : List Value, AllWellFormed vs →
    Node.toValues (Node.ofValues vs) = .ok vs
  | [], _ => rfl
  | v :: vs, ⟨hv, hvs⟩ => by
    rw [Node.ofValues, Node.toValues, toValue_ofValue v hv, toValues_ofValues vs hvs]
    rfl

theorem toEntries_ofEntries : ∀ entries : List (String × Value), EntriesWellFormed entries →
    Node.toEntries (Node.ofEntries entries) = .ok entries
  | [], _ => rfl
  | (k, v) :: rest, ⟨hv, hrest⟩ => by
    rw [Node.ofEntries, Node.toEntries, toValue_ofValue v hv, toEntries_ofEntries rest hrest]
    rfl

end

end Value

/-! ### The values of canonical nodes -/

namespace Node

/-- The value of a node is the value of its canonical form. -/
theorem toValue_canonical {n : Node} {v : Value} (h : n.toValue = .ok v) :
    n.canonical.toValue = .ok v := by
  rw [← ofValue_eq_canonical h, Value.toValue_ofValue v (wellFormed_of_toValue.1 n v h)]

theorem toValues_canonicalItems {ns : List Node} {vs : List Value} (h : toValues ns = .ok vs) :
    toValues (canonicalItems ns) = .ok vs := by
  rw [← canonical_of_toValue.2.1 ns vs h,
    Value.toValues_ofValues vs (wellFormed_of_toValue.2.1 ns vs h)]

/-- **Functions cannot tell data from its canonical form.** -/
theorem arguments_canonical {n : Node} (h : n.isData = true) :
    n.canonical.arguments = n.arguments := by
  have hsingle : ∀ m : Node, m.isData = true →
      (do return [← m.canonical.toValue] : Except EvalError (List Value)) =
        (do return [← m.toValue]) := by
    intro m hm
    rcases m.toValue_cases with ⟨-, v, hv⟩ | ⟨hdata, -⟩
    · rw [toValue_canonical hv, hv]
    · cases hdata.symm.trans hm
  cases n with
  | list items =>
    rcases toValues_cases items with ⟨-, vs, hvs⟩ | ⟨hdata, -⟩
    · exact (toValues_canonicalItems hvs).trans hvs.symm
    · cases hdata.symm.trans h
  | _ => exact hsingle _ h

end Node

end BooleanRules
