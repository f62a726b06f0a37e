import Mathlib.Data.List.Basic
import BooleanRules.Node.Datum
import BooleanRules.Proofs.Retraction

/-!
# The first fault of foreign data

A datum is a node unless something in it has no place in nodes.  Such faults have positions, which
are paths of numbers, and the reader goes through the positions in lexicographic order: the items
of a list one after the other, the entries of a map one after the other, and in an entry the key
before the value.  What is rejected is not looked into, and neither is a key, so there are no
positions below.  A present value stands where its content stands.

The fault that is reported is the first one.  If there is none, the node has the shape of the datum.

## Main definitions

* `Datum.Spells`, `Datum.KeyFault` — the text that a key stands for, or why there is none.
* `Datum.FaultAt`, `Datum.FirstFault` — the faults of a datum, and the one that comes first.
* `Datum.Denotes` — the node of the shape of a datum.

## Main results

* `Datum.key_eq_ok_iff`, `Datum.key_eq_error_iff` — keys are read as they are spelled.
* `Node.ofDatum_cases` — a datum is read, or its first fault is found.
* `first_fault_reported` — **a datum becomes the node it denotes, or its first fault is reported.**
-/

namespace BooleanRules

namespace Datum

/-! ### Keys -/

/-- What a datum is called where a text is wanted, unless it is one or its bytes may be. -/
def misfit? : Datum → Option Misfit
  | .unit => Option.some .unit
  | .none => Option.some .option
  | .some _ => Option.some .option
  | .wrapped _ => Option.some .wrapped
  | .bool b => Option.some (.bool b)
  | .int i => Option.some (.int i)
  | .wideInt signed i => Option.some (.wideInt signed i)
  | .float x => Option.some (.float x)
  | .char _ | .string _ | .bytes _ => Option.none
  | .list _ => Option.some .list
  | .map _ => Option.some .map

/-- The datum spells a text: it is the text, its only character, or its bytes. -/
inductive Spells : Datum → String → Prop where
  | string (s : String) : Spells (.string s) s
  | char (c : Char) : Spells (.char c) c.toString
  | bytes (s : String) : Spells (.bytes s.toUTF8) s

/-- Why a datum cannot be a key. -/
inductive KeyFault : Datum → DatumFault → Prop where
  | noText (b : ByteArray) (not_text : ∀ s : String, s.toUTF8 ≠ b) : KeyFault (.bytes b) .noText
  | noKey {d : Datum} {found : Misfit} (misfit : d.misfit? = Option.some found) :
    KeyFault d (.noKey found)

theorem fromUTF8?_eq_some_iff {b : ByteArray} {s : String} :
    String.fromUTF8? b = Option.some s ↔ s.toUTF8 = b := by
  unfold String.fromUTF8?
  constructor
  · intro h
    split at h
    · cases h
      rfl
    · cases h
  · rintro rfl
    exact dif_pos s.isValidUTF8

/-- Keys are read as they are spelled. -/
theorem key_eq_ok_iff {k : Datum} {s : String} : k.key = .ok s ↔ k.Spells s := by
  constructor
  · intro h
    cases k with
    | string s' => cases h; exact .string s
    | char c => cases h; exact .char c
    | bytes b =>
      cases hb : String.fromUTF8? b with
      | none =>
        rw [key, hb] at h
        cases h
      | some s' =>
        rw [key, hb] at h
        cases h
        rw [← fromUTF8?_eq_some_iff.mp hb]
        exact .bytes s
    | _ => cases h
  · rintro (_ | _ | _)
    · rfl
    · rfl
    · rw [key, fromUTF8?_eq_some_iff.mpr rfl]
      rfl

/-- A key that spells no text is at fault. -/
theorem key_eq_error_iff {k : Datum} {f : DatumFault} : k.key = .error f ↔ k.KeyFault f := by
  constructor
  · intro h
    cases k with
    | string s => cases h
    | char c => cases h
    | bytes b =>
      cases hb : String.fromUTF8? b with
      | none =>
        rw [key, hb] at h
        cases h
        refine .noText b fun s hs => ?_
        rw [fromUTF8?_eq_some_iff.mpr hs] at hb
        cases hb
      | some s =>
        rw [key, hb] at h
        cases h
    | _ =>
      cases h
      exact .noKey rfl
  · rintro (⟨b, hb⟩ | hmisfit)
    · rw [key]
      cases hs : String.fromUTF8? b with
      | none => rfl
      | some s => exact absurd (fromUTF8?_eq_some_iff.mp hs) (hb s)
    · cases k with
      | string s => cases hmisfit
      | char c => cases hmisfit
      | bytes b => cases hmisfit
      | _ =>
        cases hmisfit
        rfl

/-- A key is at fault exactly if it spells no text. -/
theorem exists_keyFault_iff {k : Datum} : (∃ f, k.KeyFault f) ↔ ∀ s, ¬ k.Spells s := by
  simp only [← key_eq_ok_iff, ← key_eq_error_iff]
  cases k.key <;> simp

theorem Spells.not_keyFault {k : Datum} {s : String} (h : k.Spells s) (f : DatumFault) :
    ¬ k.KeyFault f := by
  intro hfault
  cases (key_eq_ok_iff.mpr h).symm.trans (key_eq_error_iff.mpr hfault)

theorem KeyFault.unique {k : Datum} {f f' : DatumFault} (h : k.KeyFault f) (h' : k.KeyFault f') :
    f' = f := by
  cases (key_eq_error_iff.mpr h).symm.trans (key_eq_error_iff.mpr h')
  rfl

/-! ### Faults -/

/-- `d.FaultAt p f` says that at the position `p` of `d` there is something that has no place in
nodes, for which the fault is `f`.  The number of an item or an entry is followed in an entry by 0
for the key and by 1 for the value. -/
inductive FaultAt : Datum → List Nat → DatumFault → Prop where
  | wrapped (content : Datum) : FaultAt (.wrapped content) [] (.noNode .wrapped)
  | wideInt (signed : Bool) (i : Int) : FaultAt (.wideInt signed i) [] (.noNode (.wideInt signed i))
  | bytes (b : ByteArray) : FaultAt (.bytes b) [] (.noNode .bytes)
  | nonFinite (x : Extended) (not_finite : ∀ y, x ≠ .finite y) :
    FaultAt (.float x) [] (.nonFinite x)
  | some {content : Datum} {p : List Nat} {f : DatumFault} (inside : FaultAt content p f) :
    FaultAt (.some content) p f
  | item {items : List Datum} {i : Nat} {d : Datum} {p : List Nat} {f : DatumFault}
    (at_item : items[i]? = Option.some d) (inside : FaultAt d p f) :
    FaultAt (.list items) (i :: p) f
  | key {entries : List (Datum × Datum)} {i : Nat} {k d : Datum} {f : DatumFault}
    (at_entry : entries[i]? = Option.some (k, d)) (fault : k.KeyFault f) :
    FaultAt (.map entries) [i, 0] f
  | value {entries : List (Datum × Datum)} {i : Nat} {k d : Datum} {p : List Nat} {f : DatumFault}
    (at_entry : entries[i]? = Option.some (k, d)) (inside : FaultAt d p f) :
    FaultAt (.map entries) (i :: 1 :: p) f

/-- Of some faults with their positions, `f` is the one that comes first. -/
def First (faultAt : List Nat → DatumFault → Prop) (f : DatumFault) : Prop :=
  ∃ p, faultAt p f ∧ ∀ p' f', faultAt p' f' → p' = p ∧ f' = f ∨ p < p'

/-- The first fault of a datum. -/
def FirstFault (d : Datum) (f : DatumFault) : Prop := First d.FaultAt f

theorem First.unique {faultAt : List Nat → DatumFault → Prop} {f f' : DatumFault}
    (h : First faultAt f) (h' : First faultAt f') : f' = f := by
  obtain ⟨p, hp, hfirst⟩ := h
  obtain ⟨p', hp', hfirst'⟩ := h'
  rcases hfirst p' f' hp' with ⟨-, rfl⟩ | hlt
  · rfl
  · rcases hfirst' p f hp with ⟨-, rfl⟩ | hlt'
    · rfl
    · exact absurd hlt' (List.lt_asymm hlt)

/-- What is rejected at once has no other fault. -/
theorem First.of_rejected {faultAt : List Nat → DatumFault → Prop} {f : DatumFault}
    (h : faultAt [] f) (honly : ∀ p' f', faultAt p' f' → p' = [] ∧ f' = f) : First faultAt f :=
  ⟨[], h, fun p' f' h' => .inl (honly p' f' h')⟩

/-! ### Faults of parts -/

section Parts

variable {α : Type} {faultAt : α → List Nat → DatumFault → Prop} {a : α} {parts : List α}
  {f : DatumFault}

/-- The first one of some parts that has a fault has `f` as its first fault. -/
def FirstAmong (faultAt : α → List Nat → DatumFault → Prop) (parts : List α) (f : DatumFault) :
    Prop :=
  ∃ (i : Nat) (a : α), parts[i]? = Option.some a ∧ First (faultAt a) f ∧
    ∀ (k : Nat) (a' : α), k < i → parts[k]? = Option.some a' → ∀ p f', ¬ faultAt a' p f'

theorem FirstAmong.head (h : First (faultAt a) f) : FirstAmong faultAt (a :: parts) f :=
  ⟨0, a, rfl, h, fun k _ hk => absurd hk k.not_lt_zero⟩

theorem FirstAmong.tail (ha : ∀ p f', ¬ faultAt a p f') (h : FirstAmong faultAt parts f) :
    FirstAmong faultAt (a :: parts) f := by
  obtain ⟨i, b, hb, hfirst, hbefore⟩ := h
  refine ⟨i + 1, b, hb, hfirst, fun k a' hk hat => ?_⟩
  cases k with
  | zero =>
    cases hat
    exact ha
  | succ k => exact hbefore k a' (Nat.lt_of_succ_lt_succ hk) hat

/-- The first fault of a whole is the first one of the first part that has any, if the faults of
the whole are those of its parts. -/
theorem FirstAmong.first {whole : List Nat → DatumFault → Prop} (h : FirstAmong faultAt parts f)
    (hwhole : ∀ {p f}, whole p f ↔
      ∃ i a q, parts[i]? = Option.some a ∧ faultAt a q f ∧ p = i :: q) :
    First whole f := by
  obtain ⟨i, a, hat, ⟨p, hp, hfirst⟩, hbefore⟩ := h
  refine ⟨i :: p, hwhole.mpr ⟨i, a, p, hat, hp, rfl⟩, fun p' f' h' => ?_⟩
  obtain ⟨k, a', q, hat', hq, rfl⟩ := hwhole.mp h'
  rcases Nat.lt_trichotomy k i with hlt | rfl | hlt
  · exact absurd hq (hbefore k a' hlt hat' q f')
  · cases hat.symm.trans hat'
    rcases hfirst q f' hq with ⟨rfl, rfl⟩ | hlt
    · exact .inl ⟨rfl, rfl⟩
    · exact .inr (List.Lex.cons hlt)
  · exact .inr (List.Lex.rel hlt)

end Parts

/-- The faults of an entry: those of its key, and those of its value. -/
inductive EntryFaultAt : Datum × Datum → List Nat → DatumFault → Prop where
  | key {k : Datum} (d : Datum) {f : DatumFault} (fault : k.KeyFault f) : EntryFaultAt (k, d) [0] f
  | value (k : Datum) {d : Datum} {p : List Nat} {f : DatumFault} (inside : d.FaultAt p f) :
    EntryFaultAt (k, d) (1 :: p) f

/-- The fault of a key comes first. -/
theorem KeyFault.first {k : Datum} {f : DatumFault} (h : k.KeyFault f) (d : Datum) :
    First (EntryFaultAt (k, d)) f := by
  refine ⟨[0], .key d h, fun p' f' h' => ?_⟩
  cases h' with
  | key d fault => exact .inl ⟨rfl, h.unique fault⟩
  | value k inside => exact .inr (List.Lex.rel Nat.zero_lt_one)

/-- After a key that spells a text comes the first fault of the value. -/
theorem FirstFault.entry {k d : Datum} {s : String} {f : DatumFault} (hkey : k.Spells s)
    (h : d.FirstFault f) : First (EntryFaultAt (k, d)) f := by
  obtain ⟨p, hp, hfirst⟩ := h
  refine ⟨1 :: p, .value k hp, fun p' f' h' => ?_⟩
  cases h' with
  | key d fault => exact absurd fault (hkey.not_keyFault f')
  | value k inside =>
    rcases hfirst _ f' inside with ⟨rfl, rfl⟩ | hlt
    · exact .inl ⟨rfl, rfl⟩
    · exact .inr (List.Lex.cons hlt)

theorem faultAt_list_iff {items : List Datum} {p : List Nat} {f : DatumFault} :
    (Datum.list items).FaultAt p f ↔
      ∃ i d q, items[i]? = Option.some d ∧ d.FaultAt q f ∧ p = i :: q := by
  constructor
  · rintro (_ | _ | _ | _ | _ | ⟨hat, inside⟩ | _ | _)
    exact ⟨_, _, _, hat, inside, rfl⟩
  · rintro ⟨i, d, q, hat, inside, rfl⟩
    exact .item hat inside

theorem faultAt_map_iff {entries : List (Datum × Datum)} {p : List Nat} {f : DatumFault} :
    (Datum.map entries).FaultAt p f ↔
      ∃ i e q, entries[i]? = Option.some e ∧ EntryFaultAt e q f ∧ p = i :: q := by
  constructor
  · rintro (_ | _ | _ | _ | _ | _ | ⟨hat, fault⟩ | ⟨hat, inside⟩)
    · exact ⟨_, _, _, hat, .key _ fault, rfl⟩
    · exact ⟨_, _, _, hat, .value _ inside, rfl⟩
  · rintro ⟨i, e, q, hat, hfault, rfl⟩
    cases hfault with
    | key d fault => exact .key hat fault
    | value k inside => exact .value hat inside

/-! ### The node of a datum -/

mutual

/-- The node has the shape of the datum: it holds the same, in the same order. -/
inductive Denotes : Datum → Node → Prop
  | unit : Denotes .unit .null
  | none : Denotes .none .null
  | some {content : Datum} {n : Node} (inside : Denotes content n) : Denotes (.some content) n
  | bool (b : Bool) : Denotes (.bool b) (.bool b)
  | int (i : Int) : Denotes (.int i) (.number (.int i))
  | float (x : Binary64) : Denotes (.float (.finite x)) (.number (.float x))
  | char (c : Char) : Denotes (.char c) (.string c.toString)
  | string (s : String) : Denotes (.string s) (.string s)
  | list {items : List Datum} {ns : List Node} (items_denote : AllDenote items ns) :
    Denotes (.list items) (.list ns)
  | map {entries : List (Datum × Datum)} {es : List (String × Node)}
    (entries_denote : EntriesDenote entries es) : Denotes (.map entries) (.map es)

/-- The nodes have the shapes of the data, one by one. -/
inductive AllDenote : List Datum → List Node → Prop
  | nil : AllDenote [] []
  | cons {d : Datum} {n : Node} {ds : List Datum} {ns : List Node} (first : Denotes d n)
    (rest : AllDenote ds ns) : AllDenote (d :: ds) (n :: ns)

/-- The entries have the keys that are spelled, and their nodes the shapes of the values, one by
one; keys may come twice. -/
inductive EntriesDenote : List (Datum × Datum) → List (String × Node) → Prop
  | nil : EntriesDenote [] []
  | cons {k d : Datum} {s : String} {n : Node} {entries : List (Datum × Datum)}
    {es : List (String × Node)} (key : k.Spells s) (value : Denotes d n)
    (rest : EntriesDenote entries es) : EntriesDenote ((k, d) :: entries) ((s, n) :: es)

end

end Datum

namespace Node

open Datum (Denotes AllDenote EntriesDenote FaultAt EntryFaultAt FirstFault First FirstAmong)

mutual

/-- What a datum denotes is read. -/
theorem ofDatum_of_denotes : ∀ {d : Datum} {n : Node}, d.Denotes n → ofDatum d = .ok n
  | .unit, _, .unit | .none, _, .none => rfl
  | .bool _, _, .bool _ | .int _, _, .int _ | .float _, _, .float _ => rfl
  | .char _, _, .char _ | .string _, _, .string _ => rfl
  | .some content, _, .some inside => by
    rw [ofDatum]
    exact ofDatum_of_denotes inside
  | .list items, _, .list hitems => by
    rw [ofDatum, ofData_of_denote items hitems]
    rfl
  | .map entries, _, .map hentries => by
    rw [ofDatum, ofDatumEntries_of_denote entries hentries]
    rfl

theorem ofData_of_denote : ∀ (ds : List Datum) {ns : List Node}, AllDenote ds ns →
    ofData ds = .ok ns
  | [], _, .nil => rfl
  | _ :: ds, _, .cons first rest => by
    rw [ofData, ofDatum_of_denotes first, ofData_of_denote ds rest]
    rfl

theorem ofDatumEntries_of_denote : ∀ (entries : List (Datum × Datum)) {es : List (String × Node)},
    EntriesDenote entries es → ofDatumEntries entries = .ok es
  | [], _, .nil => rfl
  | _ :: entries, _, .cons hkey value rest => by
    rw [ofDatumEntries, Datum.key_eq_ok_iff.mpr hkey, ofDatum_of_denotes value,
      ofDatumEntries_of_denote entries rest]
    rfl

end

mutual

/-- **A datum is read, and then it has no fault, or its first fault is found.** -/
theorem ofDatum_cases : ∀ d : Datum,
    (∃ n, ofDatum d = .ok n ∧ d.Denotes n ∧ ∀ p f, ¬ d.FaultAt p f) ∨
      ∃ f, ofDatum d = .error f ∧ d.FirstFault f
  | .unit => .inl ⟨.null, rfl, .unit, by rintro p f ⟨⟩⟩
  | .none => .inl ⟨.null, rfl, .none, by rintro p f ⟨⟩⟩
  | .bool b => .inl ⟨.bool b, rfl, .bool b, by rintro p f ⟨⟩⟩
  | .int i => .inl ⟨.number (.int i), rfl, .int i, by rintro p f ⟨⟩⟩
  | .char c => .inl ⟨.string c.toString, rfl, .char c, by rintro p f ⟨⟩⟩
  | .string s => .inl ⟨.string s, rfl, .string s, by rintro p f ⟨⟩⟩
  | .float (.finite x) => .inl ⟨.number (.float x), rfl, .float x, by
      rintro p f (_ | _ | _ | ⟨_, hfinite⟩)
      exact hfinite x rfl⟩
  | .float (.infinite negative) => .inr ⟨_, rfl, .of_rejected (.nonFinite _ (by rintro y ⟨⟩)) (by
      rintro p f (_ | _ | _ | _)
      exact ⟨rfl, rfl⟩)⟩
  | .float .notANumber => .inr ⟨_, rfl, .of_rejected (.nonFinite _ (by rintro y ⟨⟩)) (by
      rintro p f (_ | _ | _ | _)
      exact ⟨rfl, rfl⟩)⟩
  | .wrapped content => .inr ⟨_, rfl, .of_rejected (.wrapped content) (by
      rintro p f ⟨⟩
      exact ⟨rfl, rfl⟩)⟩
  | .wideInt signed i => .inr ⟨_, rfl, .of_rejected (.wideInt signed i) (by
      rintro p f ⟨⟩
      exact ⟨rfl, rfl⟩)⟩
  | .bytes b => .inr ⟨_, rfl, .of_rejected (.bytes b) (by
      rintro p f ⟨⟩
      exact ⟨rfl, rfl⟩)⟩
  | .some content => by
    rcases ofDatum_cases content with ⟨n, hn, hdenotes, hnone⟩ | ⟨f, hf, p, hp, hfirst⟩
    · refine .inl ⟨n, hn, .some hdenotes, ?_⟩
      rintro p f ⟨⟩
      exact hnone p f ‹_›
    · refine .inr ⟨f, hf, p, .some hp, ?_⟩
      rintro p' f' ⟨⟩
      exact hfirst p' f' ‹_›
  | .list items => by
    rcases ofData_cases items with ⟨ns, hns, hdenote, hnone⟩ | ⟨f, hf, hfirst⟩
    · refine .inl ⟨.list ns, by rw [ofDatum, hns]; rfl, .list hdenote, fun p f h => ?_⟩
      obtain ⟨i, d, q, hat, inside, -⟩ := Datum.faultAt_list_iff.mp h
      exact hnone d (List.mem_of_getElem? hat) q f inside
    · exact .inr ⟨f, by rw [ofDatum, hf]; rfl, hfirst.first Datum.faultAt_list_iff⟩
  | .map entries => by
    rcases ofDatumEntries_cases entries with ⟨es, hes, hdenote, hnone⟩ | ⟨f, hf, hfirst⟩
    · refine .inl ⟨.map es, by rw [ofDatum, hes]; rfl, .map hdenote, fun p f h => ?_⟩
      obtain ⟨i, e, q, hat, inside, -⟩ := Datum.faultAt_map_iff.mp h
      exact hnone e (List.mem_of_getElem? hat) q f inside
    · exact .inr ⟨f, by rw [ofDatum, hf]; rfl, hfirst.first Datum.faultAt_map_iff⟩

theorem ofData_cases : ∀ ds : List Datum,
    (∃ ns, ofData ds = .ok ns ∧ AllDenote ds ns ∧ ∀ d ∈ ds, ∀ p f, ¬ d.FaultAt p f) ∨
      ∃ f, ofData ds = .error f ∧ FirstAmong FaultAt ds f
  | [] => .inl ⟨[], rfl, .nil, by rintro d ⟨⟩⟩
  | d :: ds => by
    rcases ofDatum_cases d with ⟨n, hn, hdenotes, hnone⟩ | ⟨f, hf, hfirst⟩
    · rcases ofData_cases ds with ⟨ns, hns, hdenote, hnones⟩ | ⟨f, hf, hfirst⟩
      · exact .inl ⟨n :: ns, by rw [ofData, hn, hns]; rfl, .cons hdenotes hdenote,
          List.forall_mem_cons.mpr ⟨hnone, hnones⟩⟩
      · exact .inr ⟨f, by rw [ofData, hn, hf]; rfl, hfirst.tail hnone⟩
    · exact .inr ⟨f, by rw [ofData, hf]; rfl, .head hfirst⟩

theorem ofDatumEntries_cases : ∀ entries : List (Datum × Datum),
    (∃ es, ofDatumEntries entries = .ok es ∧ EntriesDenote entries es ∧
        ∀ e ∈ entries, ∀ p f, ¬ EntryFaultAt e p f) ∨
      ∃ f, ofDatumEntries entries = .error f ∧ FirstAmong EntryFaultAt entries f
  | [] => .inl ⟨[], rfl, .nil, by rintro e ⟨⟩⟩
  | (k, d) :: rest => by
    cases hkey : k.key with
    | error f =>
      exact .inr ⟨f, by rw [ofDatumEntries, hkey]; rfl,
        .head ((Datum.key_eq_error_iff.mp hkey).first d)⟩
    | ok s =>
      have hspells := Datum.key_eq_ok_iff.mp hkey
      rcases ofDatum_cases d with ⟨n, hn, hdenotes, hnone⟩ | ⟨f, hf, hfirst⟩
      · have hentry : ∀ p f, ¬ EntryFaultAt (k, d) p f := by
          rintro p f (⟨-, fault⟩ | ⟨-, inside⟩)
          · exact hspells.not_keyFault f fault
          · exact hnone _ f inside
        rcases ofDatumEntries_cases rest with ⟨es, hes, hdenote, hnones⟩ | ⟨f, hf, hfirst⟩
        · exact .inl ⟨(s, n) :: es, by rw [ofDatumEntries, hkey, hn, hes]; rfl,
            .cons hspells hdenotes hdenote, List.forall_mem_cons.mpr ⟨hentry, hnones⟩⟩
        · exact .inr ⟨f, by rw [ofDatumEntries, hkey, hn, hf]; rfl, hfirst.tail hentry⟩
      · exact .inr ⟨f, by rw [ofDatumEntries, hkey, hf]; rfl, .head (hfirst.entry hspells)⟩

end

/-- A datum is read exactly as what it denotes. -/
theorem ofDatum_eq_ok_iff {d : Datum} {n : Node} : ofDatum d = .ok n ↔ d.Denotes n := by
  refine ⟨fun h => ?_, ofDatum_of_denotes⟩
  rcases ofDatum_cases d with ⟨n', hn', hdenotes, -⟩ | ⟨f, hf, -⟩
  · cases h.symm.trans hn'
    exact hdenotes
  · cases h.symm.trans hf

/-- A datum is rejected exactly for its first fault. -/
theorem ofDatum_eq_error_iff {d : Datum} {f : DatumFault} :
    ofDatum d = .error f ↔ d.FirstFault f := by
  rcases ofDatum_cases d with ⟨n, hn, -, hnone⟩ | ⟨f', hf', hfirst⟩
  · rw [hn]
    refine ⟨nofun, ?_⟩
    rintro ⟨p, hp, -⟩
    exact absurd hp (hnone p f)
  · rw [hf', Except.error.injEq]
    exact ⟨fun h => h ▸ hfirst, fun h => h.unique hfirst⟩

/-- A datum that has a fault has a first one, and is rejected. -/
theorem exists_ofDatum_eq_error_iff {d : Datum} :
    (∃ f, ofDatum d = .error f) ↔ ∃ p f, d.FaultAt p f := by
  constructor
  · rintro ⟨f, hf⟩
    obtain ⟨p, hp, -⟩ := ofDatum_eq_error_iff.mp hf
    exact ⟨p, f, hp⟩
  · rintro ⟨p, f, hp⟩
    rcases ofDatum_cases d with ⟨n, -, -, hnone⟩ | ⟨f', hf', -⟩
    · exact absurd hp (hnone p f)
    · exact ⟨f', hf'⟩

/-! ### Nodes from their own data -/

mutual

/-- Without a predicate a node is denoted by its own datum. -/
theorem denotes_toDatum : ∀ n : Node, n.isData = true → n.toDatum.Denotes n
  | .null, _ => .unit
  | .bool b, _ => .bool b
  | .number (.int i), _ => .int i
  | .number (.float x), _ => .float x
  | .string s, _ => .string s
  | .list items, h => .list (allDenote_toData items h)
  | .map entries, h => .map (entriesDenote_toDatumEntries entries h)

theorem allDenote_toData : ∀ ns : List Node, allData ns = true → AllDenote (toData ns) ns
  | [], _ => .nil
  | n :: ns, h => by
    rw [allData, Bool.and_eq_true] at h
    exact .cons (denotes_toDatum n h.1) (allDenote_toData ns h.2)

theorem entriesDenote_toDatumEntries : ∀ entries : List (String × Node),
    entriesData entries = true → EntriesDenote (toDatumEntries entries) entries
  | [], _ => .nil
  | (k, n) :: rest, h => by
    rw [entriesData, Bool.and_eq_true] at h
    exact .cons (.string k) (denotes_toDatum n h.1) (entriesDenote_toDatumEntries rest h.2)

end

end Node

/-! ### The main theorem -/

/-- **A datum becomes the node it denotes, or its first fault is reported.**  It is rejected exactly
if it has a fault, and then for the one that comes first in reading order; a key is at fault exactly
if it spells no text.  Otherwise it becomes the one node of its shape.  So a node without predicates
comes back from its own datum. -/
theorem first_fault_reported :
    (∀ d : Datum,
      (∀ f, Node.ofDatum d = .error f ↔ d.FirstFault f) ∧
      ((∃ f, Node.ofDatum d = .error f) ↔ ∃ p f, d.FaultAt p f) ∧
      (∀ n, Node.ofDatum d = .ok n ↔ d.Denotes n) ∧
      ((∃ f, d.KeyFault f) ↔ ∀ s, ¬ d.Spells s)) ∧
    ∀ n : Node, ¬ n.HoldsPredicate → Node.ofDatum n.toDatum = .ok n := by
  refine ⟨fun d => ⟨fun f => Node.ofDatum_eq_error_iff, Node.exists_ofDatum_eq_error_iff,
    fun n => Node.ofDatum_eq_ok_iff, Datum.exists_keyFault_iff⟩, fun n h => ?_⟩
  exact Node.ofDatum_of_denotes (n.denotes_toDatum (Node.not_holdsPredicate_iff.mp h))

/-- The first fault of a datum is in the key of its second entry, where a present value is no text.
The value of that entry, whose own faults come later, is not reached, and the first entry has a
present value in its value, where it is one of content.  What denotes a node again is the datum of
the node, with a key that comes twice. -/
theorem key_reported_before_value :
    let d : Datum := .map [(.char 'a', .some (.list [.unit, .none])),
      (.some (.string "b"), .bytes ByteArray.empty), (.string "c", .wrapped (.wideInt true 0))]
    let n : Node := .map [("a", .list [.number (.int 1), .null]), ("a", .bool true)]
    d.FaultAt [1, 0] (.noKey .option) ∧ d.FaultAt [1, 1] (.noNode .bytes) ∧
      d.FaultAt [2, 1] (.noNode .wrapped) ∧ d.FirstFault (.noKey .option) ∧
      ¬ n.HoldsPredicate ∧ Node.ofDatum n.toDatum = .ok n := by
  intro d n
  have hdata : ¬ n.HoldsPredicate := Node.not_holdsPredicate_iff.mpr rfl
  refine ⟨.key (i := 1) rfl (.noKey rfl), .value (i := 1) rfl (.bytes _),
    .value (i := 2) rfl (.wrapped _), ?_, hdata, first_fault_reported.2 n hdata⟩
  exact ((first_fault_reported.1 d).1 _).mp rfl

end BooleanRules
