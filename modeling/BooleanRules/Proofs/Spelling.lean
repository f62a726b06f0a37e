import BooleanRules.Node.Json
import BooleanRules.Proofs.Scanning

/-!
# How texts spell nodes

The grammar of JSON with nodes for its values: a text spells a node if it can be taken apart into
brackets, commas, colons, keys and scalars, such that the parts of the node come in the same order
as in the text.  The grammar knows of no depth and no number of steps, and it has no place where an
entry could get lost because its key comes again.

Reading is exact for the grammar.  A node is read if the text spells it and its brackets are not
nested too deeply, the bound on the number of steps is never reached, and so no text spells two
nodes.

## Main definitions

* `Node.Spelled` — a text starts with a node; also for the items of lists and entries of maps.
* `Node.SpelledBy` — a text is a node.
* `Node.nesting` — how many brackets are open at a time.

## Main results

* `Node.read_sound`, `Node.Spelled.complete` — what is read is spelled, and what is spelled is read.
* `Node.read_eq_ok_iff` — **the node of a text is the one that the text spells.**
* `Node.SpelledBy.unique` — a text spells one node at most.
-/

namespace BooleanRules

open Json

namespace Node

/-! ### Nodes as texts spell them -/

/-- The text `cs` starts with a key in quotes and its colon, and goes on as `rest`. -/
inductive KeySpelled : (cs : List Char) → String → (rest : List Char) → Prop
  | mk {cs quoted after rest : List Char} {k : String} (quote : dropBlanks cs = '"' :: quoted)
    (key : readString quoted = .ok (k, after)) (colon : dropBlanks after = ':' :: rest) :
    KeySpelled cs k rest

mutual

/-- The text `cs` starts with a node, and goes on as `rest`. -/
inductive Spelled : (cs : List Char) → Node → (rest : List Char) → Prop
  | scalar {cs rest : List Char} {s : Scalar}
    (read : readScalar (dropBlanks cs) = .ok (s, rest)) : Spelled cs (.ofScalar s) rest
  | list {cs inner rest : List Char} {items : List Node} (opened : dropBlanks cs = '[' :: inner)
    (items_spelled : ItemsSpelled inner items rest) : Spelled cs (.list items) rest
  | map {cs inner rest : List Char} {entries : List (String × Node)}
    (opened : dropBlanks cs = '\x7b' :: inner)
    (entries_spelled : EntriesSpelled inner entries rest) : Spelled cs (.map entries) rest

/-- After an opening bracket the text goes on with items in order, separated by commas, and the
closing bracket. -/
inductive ItemsSpelled : (cs : List Char) → List Node → (rest : List Char) → Prop
  | none {cs rest : List Char} (closed : dropBlanks cs = ']' :: rest) : ItemsSpelled cs [] rest
  | last {cs after rest : List Char} {n : Node} (item : Spelled cs n after)
    (closed : dropBlanks after = ']' :: rest) : ItemsSpelled cs [n] rest
  | cons {cs after more rest : List Char} {n : Node} {ns : List Node} (item : Spelled cs n after)
    (comma : dropBlanks after = ',' :: more) (items_spelled : ItemsSpelled more ns rest)
    (nonempty : ns ≠ []) : ItemsSpelled cs (n :: ns) rest

/-- After an opening brace the text goes on with entries in order, separated by commas, and the
closing brace.  Nothing is said of the keys: they may be repeated. -/
inductive EntriesSpelled : (cs : List Char) → List (String × Node) → (rest : List Char) → Prop
  | none {cs rest : List Char} (closed : dropBlanks cs = '\x7d' :: rest) : EntriesSpelled cs [] rest
  | last {cs value after rest : List Char} {k : String} {n : Node} (key : KeySpelled cs k value)
    (item : Spelled value n after) (closed : dropBlanks after = '\x7d' :: rest) :
    EntriesSpelled cs [(k, n)] rest
  | cons {cs value after more rest : List Char} {k : String} {n : Node}
    {entries : List (String × Node)} (key : KeySpelled cs k value) (item : Spelled value n after)
    (comma : dropBlanks after = ',' :: more) (entries_spelled : EntriesSpelled more entries rest)
    (nonempty : entries ≠ []) : EntriesSpelled cs ((k, n) :: entries) rest

end

/-- The text is a node and blanks. -/
def SpelledBy (text : String) (n : Node) : Prop :=
  ∃ rest, Spelled text.toList n rest ∧ dropBlanks rest = []

mutual

/-- How many brackets are open at a time when the node is written out. -/
def nesting : Node → Nat
  | .list items => itemsNesting items + 1
  | .map entries => entriesNesting entries + 1
  | _ => 0

/-- How many brackets are open at a time in the items of a list. -/
def itemsNesting : List Node → Nat
  | [] => 0
  | n :: ns => max n.nesting (itemsNesting ns)

/-- How many brackets are open at a time in the entries of a map. -/
def entriesNesting : List (String × Node) → Nat
  | [] => 0
  | (_, n) :: rest => max n.nesting (entriesNesting rest)

end

theorem nesting_ofScalar (s : Scalar) : (ofScalar s).nesting = 0 := by
  cases s <;> rfl

/-! ### Blanks in front -/

section Blanks

variable (steps room : Nat) (cs : List Char)

theorem readValue_dropBlanks : readValue steps room (dropBlanks cs) = readValue steps room cs := by
  cases steps with
  | zero => rfl
  | succ steps => rw [readValue, readValue, dropBlanks_dropBlanks]

theorem readItems_dropBlanks : readItems steps room (dropBlanks cs) = readItems steps room cs := by
  cases steps with
  | zero => rfl
  | succ steps => rw [readItems, readItems, readValue_dropBlanks]

theorem readEntries_dropBlanks :
    readEntries steps room (dropBlanks cs) = readEntries steps room cs := by
  cases steps with
  | zero => rfl
  | succ steps => rw [readEntries, readEntries, readKey, readKey, dropBlanks_dropBlanks]

end Blanks

/-! ### What is read is spelled -/

/-- What is read as a value in `steps` steps is spelled by the text, in the room that there is. -/
def ValueSound (steps : Nat) : Prop :=
  ∀ room cs d rest, readValue steps room cs = .ok (d, rest) →
    Spelled cs (ofDocument d) rest ∧ (ofDocument d).nesting ≤ room

/-- What is read as items in `steps` steps is spelled by the text, and it is not nothing. -/
def ItemsSound (steps : Nat) : Prop :=
  ∀ room cs ds rest, readItems steps room cs = .ok (ds, rest) →
    ItemsSpelled cs (ofItems ds) rest ∧ itemsNesting (ofItems ds) ≤ room ∧ ofItems ds ≠ []

/-- What is read as entries in `steps` steps is spelled by the text, and it is not nothing. -/
def EntriesSound (steps : Nat) : Prop :=
  ∀ room cs es rest, readEntries steps room cs = .ok (es, rest) →
    EntriesSpelled cs (ofFields es) rest ∧ entriesNesting (ofFields es) ≤ room ∧ ofFields es ≠ []

theorem valueSound_succ {steps : Nat} (hitems : ItemsSound steps) (hentries : EntriesSound steps) :
    ValueSound (steps + 1) := by
  intro room cs d rest h
  rw [readValue] at h
  split at h
  · rename_i inner hopened
    split at h
    · cases h
    · split at h
      · rename_i hclosed
        cases h
        exact ⟨.list hopened (.none hclosed), Nat.le_add_left 1 _⟩
      · obtain ⟨⟨items, after⟩, hread, h⟩ := exists_of_bind_eq_ok h
        cases h
        rw [readItems_dropBlanks] at hread
        obtain ⟨hspelled, hnesting, -⟩ := hitems _ _ _ _ hread
        exact ⟨.list hopened hspelled, Nat.add_le_add_right hnesting 1⟩
  · rename_i inner hopened
    split at h
    · cases h
    · split at h
      · rename_i hclosed
        cases h
        exact ⟨.map hopened (.none hclosed), Nat.le_add_left 1 _⟩
      · obtain ⟨⟨entries, after⟩, hread, h⟩ := exists_of_bind_eq_ok h
        cases h
        rw [readEntries_dropBlanks] at hread
        obtain ⟨hspelled, hnesting, -⟩ := hentries _ _ _ _ hread
        exact ⟨.map hopened hspelled, Nat.add_le_add_right hnesting 1⟩
  -- neither bracket nor brace
  · obtain ⟨⟨s, after⟩, hread, h⟩ := exists_of_bind_eq_ok h
    cases h
    exact ⟨.scalar hread, (nesting_ofScalar s).trans_le (Nat.zero_le _)⟩

theorem itemsSound_succ {steps : Nat} (hvalue : ValueSound steps) (hitems : ItemsSound steps) :
    ItemsSound (steps + 1) := by
  intro room cs ds rest h
  rw [readItems] at h
  obtain ⟨⟨d, after⟩, hread, h⟩ := exists_of_bind_eq_ok h
  obtain ⟨hitem, hroom⟩ := hvalue _ _ _ _ hread
  dsimp only at h
  split at h
  · rename_i more hcomma
    obtain ⟨⟨items, after'⟩, hread, h⟩ := exists_of_bind_eq_ok h
    obtain ⟨hmore, hroom', hnonempty⟩ := hitems _ _ _ _ hread
    cases h
    exact ⟨.cons hitem hcomma hmore hnonempty, Nat.max_le.mpr ⟨hroom, hroom'⟩,
      List.cons_ne_nil _ _⟩
  · rename_i hclosed
    cases h
    exact ⟨.last hitem hclosed, Nat.max_le.mpr ⟨hroom, Nat.zero_le _⟩, List.cons_ne_nil _ _⟩
  · cases h

theorem keySpelled_of_read {cs after rest : List Char} {k : String}
    (hkey : readKey cs = .ok (k, after)) (hcolon : scanColon after = .ok rest) :
    KeySpelled cs k rest := by
  rw [readKey] at hkey
  rw [scanColon] at hcolon
  split at hkey
  · split at hcolon
    · cases hcolon
      exact .mk ‹_› hkey ‹_›
    · cases hcolon
  · cases hkey

theorem entriesSound_succ {steps : Nat} (hvalue : ValueSound steps)
    (hentries : EntriesSound steps) : EntriesSound (steps + 1) := by
  intro room cs es rest h
  rw [readEntries] at h
  obtain ⟨⟨k, after⟩, hread, h⟩ := exists_of_bind_eq_ok h
  obtain ⟨value, hcolon, h⟩ := exists_of_bind_eq_ok h
  have hkey := keySpelled_of_read hread hcolon
  obtain ⟨⟨d, after'⟩, hread, h⟩ := exists_of_bind_eq_ok h
  obtain ⟨hitem, hroom⟩ := hvalue _ _ _ _ hread
  dsimp only at h
  split at h
  · rename_i more hcomma
    obtain ⟨⟨entries, after''⟩, hread, h⟩ := exists_of_bind_eq_ok h
    obtain ⟨hmore, hroom', hnonempty⟩ := hentries _ _ _ _ hread
    cases h
    exact ⟨.cons hkey hitem hcomma hmore hnonempty, Nat.max_le.mpr ⟨hroom, hroom'⟩,
      List.cons_ne_nil _ _⟩
  · rename_i hclosed
    cases h
    exact ⟨.last hkey hitem hclosed, Nat.max_le.mpr ⟨hroom, Nat.zero_le _⟩, List.cons_ne_nil _ _⟩
  · cases h

/-- **What is read is spelled by the text.** -/
theorem read_sound (steps : Nat) : ValueSound steps ∧ ItemsSound steps ∧ EntriesSound steps := by
  induction steps with
  | zero =>
    refine ⟨?_, ?_, ?_⟩
    all_goals
      intro room cs d rest h
      cases h
  | succ steps ih =>
    obtain ⟨hvalue, hitems, hentries⟩ := ih
    exact ⟨valueSound_succ hitems hentries, itemsSound_succ hvalue hitems,
      entriesSound_succ hvalue hentries⟩

/-! ### What follows is the end of the text -/

theorem suffix_of_dropBlanks_eq {cs rest : List Char} {c : Char} (h : dropBlanks cs = c :: rest) :
    rest <:+ cs :=
  (List.suffix_cons c rest).trans (h ▸ suffix_dropBlanks cs)

/-- At least one character has been taken away. -/
theorem length_of_dropBlanks_eq {cs rest : List Char} {c : Char} (h : dropBlanks cs = c :: rest) :
    rest.length < cs.length := by
  have hlength := (suffix_dropBlanks cs).length_le
  rw [h, List.length_cons] at hlength
  exact hlength

theorem KeySpelled.suffix {cs rest : List Char} {k : String} (h : KeySpelled cs k rest) :
    rest <:+ cs := by
  obtain ⟨quote, key, colon⟩ := h
  exact (suffix_of_dropBlanks_eq colon).trans <| (suffix_of_readString key).trans
    (suffix_of_dropBlanks_eq quote)

mutual

/-- What follows a node is the end of the text. -/
theorem Spelled.suffix {cs rest : List Char} {n : Node} : Spelled cs n rest → rest <:+ cs
  | .scalar read => (suffix_of_readScalar read).trans (suffix_dropBlanks cs)
  | .list opened items => items.suffix.trans (suffix_of_dropBlanks_eq opened)
  | .map opened entries => entries.suffix.trans (suffix_of_dropBlanks_eq opened)

theorem ItemsSpelled.suffix {cs rest : List Char} {ns : List Node} :
    ItemsSpelled cs ns rest → rest <:+ cs
  | .none closed => suffix_of_dropBlanks_eq closed
  | .last item closed => (suffix_of_dropBlanks_eq closed).trans item.suffix
  | .cons item comma items _ =>
    items.suffix.trans <| (suffix_of_dropBlanks_eq comma).trans item.suffix

theorem EntriesSpelled.suffix {cs rest : List Char} {entries : List (String × Node)} :
    EntriesSpelled cs entries rest → rest <:+ cs
  | .none closed => suffix_of_dropBlanks_eq closed
  | .last key item closed => (suffix_of_dropBlanks_eq closed).trans <| item.suffix.trans key.suffix
  | .cons key item comma entries _ =>
    entries.suffix.trans <| (suffix_of_dropBlanks_eq comma).trans <| item.suffix.trans key.suffix

end

/-! ### What is spelled is read -/

/-- A closing bracket starts no node. -/
theorem Spelled.not_closed {cs rest rest' : List Char} {n : Node} (h : Spelled cs n rest) :
    dropBlanks cs ≠ ']' :: rest' := by
  intro hclosed
  cases h with
  | scalar read =>
    rw [hclosed] at read
    cases read
  | list opened | map opened => cases hclosed.symm.trans opened

/-- A closing brace starts no key. -/
theorem KeySpelled.not_closed {cs rest rest' : List Char} {k : String} (h : KeySpelled cs k rest) :
    dropBlanks cs ≠ '\x7d' :: rest' := by
  intro hclosed
  obtain ⟨quote, -, -⟩ := h
  cases quote.symm.trans hclosed

theorem ItemsSpelled.closed_or_nonempty {cs rest : List Char} {ns : List Node}
    (h : ItemsSpelled cs ns rest) : (ns = [] ∧ dropBlanks cs = ']' :: rest) ∨ ns ≠ [] := by
  cases h with
  | none closed => exact .inl ⟨rfl, closed⟩
  | last | cons => exact .inr (List.cons_ne_nil _ _)

theorem EntriesSpelled.closed_or_nonempty {cs rest : List Char} {entries : List (String × Node)}
    (h : EntriesSpelled cs entries rest) :
    (entries = [] ∧ dropBlanks cs = '\x7d' :: rest) ∨ entries ≠ [] := by
  cases h with
  | none closed => exact .inl ⟨rfl, closed⟩
  | last | cons => exact .inr (List.cons_ne_nil _ _)

theorem ItemsSpelled.not_closed {cs rest : List Char} {ns : List Node}
    (h : ItemsSpelled cs ns rest) (hnonempty : ns ≠ []) (rest' : List Char) :
    dropBlanks cs ≠ ']' :: rest' := by
  cases h with
  | none => exact absurd rfl hnonempty
  | last item | cons item => exact item.not_closed

theorem EntriesSpelled.not_closed {cs rest : List Char} {entries : List (String × Node)}
    (h : EntriesSpelled cs entries rest) (hnonempty : entries ≠ []) (rest' : List Char) :
    dropBlanks cs ≠ '\x7d' :: rest' := by
  cases h with
  | none => exact absurd rfl hnonempty
  | last key | cons key => exact key.not_closed

theorem KeySpelled.read {cs rest : List Char} {k : String} (h : KeySpelled cs k rest) :
    ∃ after, readKey cs = .ok (k, after) ∧ scanColon after = .ok rest := by
  obtain ⟨quote, key, colon⟩ := h
  exact ⟨_, by rw [readKey, quote]; exact key, by rw [scanColon, colon]; rfl⟩

section Steps

variable {steps room : Nat} {cs inner value after more rest : List Char}

theorem readValue_of_scalar {s : Scalar} (h : readScalar (dropBlanks cs) = .ok (s, rest)) :
    readValue (steps + 1) room cs = .ok (.scalar s, rest) := by
  rw [readValue]
  split
  · rename_i hopened
    rw [hopened] at h
    cases h
  · rename_i hopened
    rw [hopened] at h
    cases h
  · rw [h]
    rfl

theorem readValue_of_emptyList (hopened : dropBlanks cs = '[' :: inner)
    (hclosed : dropBlanks inner = ']' :: rest) :
    readValue (steps + 1) (room + 1) cs = .ok (.list [], rest) := by
  simp only [readValue, hopened, hclosed]

theorem readValue_of_items {ds : List Document} (hopened : dropBlanks cs = '[' :: inner)
    (hnot : ∀ rest', dropBlanks inner ≠ ']' :: rest')
    (hitems : readItems steps room inner = .ok (ds, rest)) :
    readValue (steps + 1) (room + 1) cs = .ok (.list ds, rest) := by
  -- by `hnot` the case of the closing bracket is out
  simp only [readValue, hopened, readItems_dropBlanks, hitems]
  rfl

theorem readValue_of_emptyMap (hopened : dropBlanks cs = '\x7b' :: inner)
    (hclosed : dropBlanks inner = '\x7d' :: rest) :
    readValue (steps + 1) (room + 1) cs = .ok (.map [], rest) := by
  simp only [readValue, hopened, hclosed]

theorem readValue_of_entries {es : List (String × Document)}
    (hopened : dropBlanks cs = '\x7b' :: inner) (hnot : ∀ rest', dropBlanks inner ≠ '\x7d' :: rest')
    (hentries : readEntries steps room inner = .ok (es, rest)) :
    readValue (steps + 1) (room + 1) cs = .ok (.map es, rest) := by
  simp only [readValue, hopened, readEntries_dropBlanks, hentries]
  rfl

theorem readItems_of_last {d : Document} (hitem : readValue steps room cs = .ok (d, after))
    (hclosed : dropBlanks after = ']' :: rest) :
    readItems (steps + 1) room cs = .ok ([d], rest) := by
  simp only [readItems, hitem, hclosed, bind, Except.bind]
  rfl

theorem readItems_of_comma {d : Document} {ds : List Document}
    (hitem : readValue steps room cs = .ok (d, after)) (hcomma : dropBlanks after = ',' :: more)
    (hitems : readItems steps room more = .ok (ds, rest)) :
    readItems (steps + 1) room cs = .ok (d :: ds, rest) := by
  simp only [readItems, hitem, hcomma, hitems, bind, Except.bind]
  rfl

theorem readEntries_of_last {k : String} {d : Document} (hkey : KeySpelled cs k value)
    (hitem : readValue steps room value = .ok (d, after))
    (hclosed : dropBlanks after = '\x7d' :: rest) :
    readEntries (steps + 1) room cs = .ok ([(k, d)], rest) := by
  obtain ⟨colon, hread, hcolon⟩ := hkey.read
  simp only [readEntries, hread, hcolon, hitem, hclosed, bind, Except.bind]
  rfl

theorem readEntries_of_comma {k : String} {d : Document} {es : List (String × Document)}
    (hkey : KeySpelled cs k value) (hitem : readValue steps room value = .ok (d, after))
    (hcomma : dropBlanks after = ',' :: more)
    (hentries : readEntries steps room more = .ok (es, rest)) :
    readEntries (steps + 1) room cs = .ok ((k, d) :: es, rest) := by
  obtain ⟨colon, hread, hcolon⟩ := hkey.read
  simp only [readEntries, hread, hcolon, hitem, hcomma, hentries, bind, Except.bind]
  rfl

end Steps

mutual

/-- **What is spelled by the text is read**, if there is room: two steps are enough for every
character. -/
theorem Spelled.complete {cs rest : List Char} {n : Node} : Spelled cs n rest →
    ∀ steps room, 2 * cs.length ≤ steps → n.nesting ≤ room →
      ∃ d, ofDocument d = n ∧ readValue steps room cs = .ok (d, rest)
  | .scalar (s := s) read, steps, room, hsteps, _ => by
    cases steps with
    | succ steps => exact ⟨.scalar s, rfl, readValue_of_scalar read⟩
    | zero =>
      -- no scalar starts in an empty text
      have hnil : cs = [] := List.eq_nil_of_length_eq_zero (by omega)
      rw [hnil] at read
      cases read
  | .list opened items, steps + 1, room + 1, hsteps, hroom => by
    have hlength := length_of_dropBlanks_eq opened
    rcases items.closed_or_nonempty with ⟨rfl, closed⟩ | hnonempty
    · exact ⟨.list [], rfl, readValue_of_emptyList opened closed⟩
    · obtain ⟨ds, rfl, hread⟩ := items.complete hnonempty steps room (by omega)
        (Nat.le_of_succ_le_succ hroom)
      have hnot := items.not_closed hnonempty
      exact ⟨.list ds, rfl, readValue_of_items opened hnot hread⟩
  | .map opened entries, steps + 1, room + 1, hsteps, hroom => by
    have hlength := length_of_dropBlanks_eq opened
    rcases entries.closed_or_nonempty with ⟨rfl, closed⟩ | hnonempty
    · exact ⟨.map [], rfl, readValue_of_emptyMap opened closed⟩
    · obtain ⟨es, rfl, hread⟩ := entries.complete hnonempty steps room (by omega)
        (Nat.le_of_succ_le_succ hroom)
      have hnot := entries.not_closed hnonempty
      exact ⟨.map es, rfl, readValue_of_entries opened hnot hread⟩
  | .list opened _, 0, _, hsteps, _ | .map opened _, 0, _, hsteps, _ => by
    have hlength := length_of_dropBlanks_eq opened
    omega

theorem ItemsSpelled.complete {cs rest : List Char} {ns : List Node} : ItemsSpelled cs ns rest →
    ns ≠ [] → ∀ steps room, 2 * cs.length < steps → itemsNesting ns ≤ room →
      ∃ ds, ofItems ds = ns ∧ readItems steps room cs = .ok (ds, rest)
  | .none _, hnonempty, _, _, _, _ => absurd rfl hnonempty
  | .last item closed, _, steps + 1, room, hsteps, hroom => by
    obtain ⟨d, rfl, hitem⟩ := item.complete steps room (by omega) (Nat.max_le.mp hroom).1
    exact ⟨[d], rfl, readItems_of_last hitem closed⟩
  | .cons item comma items nonempty, _, steps + 1, room, hsteps, hroom => by
    -- the item may have taken nothing away as far as this bound knows, but the comma has
    have hafter := item.suffix.length_le
    have hmore := length_of_dropBlanks_eq comma
    obtain ⟨d, rfl, hitem⟩ := item.complete steps room (by omega) (Nat.max_le.mp hroom).1
    obtain ⟨ds, rfl, hitems⟩ := items.complete nonempty steps room (by omega)
      (Nat.max_le.mp hroom).2
    exact ⟨d :: ds, rfl, readItems_of_comma hitem comma hitems⟩

theorem EntriesSpelled.complete {cs rest : List Char} {entries : List (String × Node)} :
    EntriesSpelled cs entries rest →
      entries ≠ [] → ∀ steps room, 2 * cs.length < steps → entriesNesting entries ≤ room →
        ∃ es, ofFields es = entries ∧ readEntries steps room cs = .ok (es, rest)
  | .none _, hnonempty, _, _, _, _ => absurd rfl hnonempty
  | .last (k := k) key item closed, _, steps + 1, room, hsteps, hroom => by
    have hvalue := key.suffix.length_le
    obtain ⟨d, rfl, hitem⟩ := item.complete steps room (by omega) (Nat.max_le.mp hroom).1
    exact ⟨[(k, d)], rfl, readEntries_of_last key hitem closed⟩
  | .cons (k := k) key item comma entries nonempty, _, steps + 1, room, hsteps, hroom => by
    have hvalue := key.suffix.length_le
    have hafter := item.suffix.length_le
    have hmore := length_of_dropBlanks_eq comma
    obtain ⟨d, rfl, hitem⟩ := item.complete steps room (by omega) (Nat.max_le.mp hroom).1
    obtain ⟨es, rfl, hentries⟩ := entries.complete nonempty steps room (by omega)
      (Nat.max_le.mp hroom).2
    exact ⟨(k, d) :: es, rfl, readEntries_of_comma key hitem comma hentries⟩

end

/-! ### Whole texts -/

theorem expectEnd_eq_ok_iff {cs : List Char} : expectEnd cs = .ok () ↔ dropBlanks cs = [] := by
  rw [expectEnd, ← List.isEmpty_iff]
  split <;> simp [*]

theorem readDocument_eq_ok_iff {text : String} {d : Document} :
    Document.read text = .ok d ↔ ∃ rest,
      readValue (stepBound text.toList) maxNesting text.toList = .ok (d, rest) ∧
        dropBlanks rest = [] := by
  constructor
  · intro h
    obtain ⟨⟨d, rest⟩, hread, h⟩ := exists_of_bind_eq_ok h
    obtain ⟨⟨⟩, hend, h⟩ := exists_of_bind_eq_ok h
    cases h
    exact ⟨rest, hread, expectEnd_eq_ok_iff.mp hend⟩
  · rintro ⟨rest, hread, hrest⟩
    simp only [Document.read, hread, expectEnd_eq_ok_iff.mpr hrest, bind, Except.bind]
    rfl

theorem read_eq_ok_iff_of_document {text : String} {n : Node} :
    Node.read text = .ok n ↔ ∃ d, Document.read text = .ok d ∧ ofDocument d = n := by
  rw [Node.read]
  cases Document.read text <;> simp [Except.map]

/-- **The node of a text is the one that the text spells**, if its brackets are not nested too
deeply. -/
theorem read_eq_ok_iff {text : String} {n : Node} :
    Node.read text = .ok n ↔ n.SpelledBy text ∧ n.nesting ≤ maxNesting := by
  rw [read_eq_ok_iff_of_document]
  constructor
  · rintro ⟨d, hd, rfl⟩
    obtain ⟨rest, hread, hrest⟩ := readDocument_eq_ok_iff.mp hd
    obtain ⟨hspelled, hnesting⟩ := (read_sound _).1 _ _ _ _ hread
    exact ⟨⟨rest, hspelled, hrest⟩, hnesting⟩
  · rintro ⟨⟨rest, hspelled, hrest⟩, hnesting⟩
    obtain ⟨d, rfl, hread⟩ := hspelled.complete (stepBound text.toList) maxNesting
      (Nat.le_add_right _ 2) hnesting
    exact ⟨d, readDocument_eq_ok_iff.mpr ⟨rest, hread, hrest⟩, rfl⟩

theorem spelledBy_of_read {text : String} {n : Node} (h : Node.read text = .ok n) :
    n.SpelledBy text :=
  (read_eq_ok_iff.mp h).1

theorem Spelled.unique {cs rest rest' : List Char} {n n' : Node} (h : Spelled cs n rest)
    (h' : Spelled cs n' rest') : n = n' ∧ rest = rest' := by
  have hread := h.complete (2 * cs.length) (max n.nesting n'.nesting) le_rfl (Nat.le_max_left ..)
  have hread' := h'.complete (2 * cs.length) (max n.nesting n'.nesting) le_rfl (Nat.le_max_right ..)
  obtain ⟨d, rfl, hd⟩ := hread
  obtain ⟨d', rfl, hd'⟩ := hread'
  cases hd.symm.trans hd'
  exact ⟨rfl, rfl⟩

/-- **A text spells one node at most.** -/
theorem SpelledBy.unique {text : String} {n n' : Node} (h : n.SpelledBy text)
    (h' : n'.SpelledBy text) : n = n' := by
  obtain ⟨rest, h, -⟩ := h
  obtain ⟨rest', h', -⟩ := h'
  exact (h.unique h').1

end Node

end BooleanRules
