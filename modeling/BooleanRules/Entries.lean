/-!
# Entries in key order

A finite map from texts is a list of entries whose keys ascend strictly by code
point.  Insertion replaces the value of a key that is present and otherwise puts
the entry in its place, so the order never depends on the history.

* `insertEntry`, `valueOf?` — insertion and lookup.
* `Ascending` — the keys ascend strictly.
* `ascending_insertEntry` — insertion keeps the order.
* `valueOf?_insertEntry` — lookup finds the value inserted last.
* `mem_keys_insertEntry` — insertion adds its key and no other.
-/

namespace BooleanRules

variable {α : Type}

/-- The entries with `key` bound to `value`, in place of any value it had. -/
def insertEntry (key : String) (value : α) : List (String × α) → List (String × α)
  | [] => [(key, value)]
  | (k, v) :: rest =>
    if key < k then (key, value) :: (k, v) :: rest
    else if k = key then (key, value) :: rest
    else (k, v) :: insertEntry key value rest

/-- The value of `key`. -/
def valueOf? (key : String) : List (String × α) → Option α
  | [] => none
  | (k, v) :: rest => if k = key then some v else valueOf? key rest

/-- The keys ascend strictly. -/
def Ascending (entries : List (String × α)) : Prop :=
  (entries.map Prod.fst).Pairwise (· < ·)

@[simp] theorem ascending_nil : Ascending ([] : List (String × α)) := List.Pairwise.nil

@[simp] theorem ascending_cons {k : String} {v : α} {rest : List (String × α)} :
    Ascending ((k, v) :: rest) ↔ (∀ e ∈ rest, k < e.1) ∧ Ascending rest := by
  simp [Ascending, List.pairwise_cons]

/-- Insertion adds its key and no other. -/
theorem mem_keys_insertEntry {key : String} {value : α} {entries : List (String × α)}
    {k : String} :
    k ∈ (insertEntry key value entries).map Prod.fst ↔ k = key ∨ k ∈ entries.map Prod.fst := by
  induction entries with
  | nil => simp [insertEntry]
  | cons e rest ih =>
    obtain ⟨k', v'⟩ := e
    simp only [insertEntry]
    split
    · simp
    · split
      · rename_i h; subst h; simp
      · simp only [List.map_cons, List.mem_cons, ih, or_left_comm]

/-- Insertion keeps the order. -/
theorem ascending_insertEntry {key : String} {value : α} {entries : List (String × α)}
    (h : Ascending entries) : Ascending (insertEntry key value entries) := by
  induction entries with
  | nil => simp [insertEntry]
  | cons e rest ih =>
    obtain ⟨k, v⟩ := e
    rw [ascending_cons] at h
    simp only [insertEntry]
    split
    · rename_i hlt
      refine ascending_cons.2 ⟨?_, ascending_cons.2 h⟩
      intro e he
      rcases List.mem_cons.1 he with rfl | he
      · exact hlt
      · exact String.lt_trans hlt (h.1 e he)
    · split
      · rename_i hk; subst hk
        exact ascending_cons.2 h
      · rename_i hlt hne
        refine ascending_cons.2 ⟨?_, ih h.2⟩
        intro e he
        have hmem : e.1 ∈ (insertEntry key value rest).map Prod.fst := List.mem_map_of_mem he
        rcases mem_keys_insertEntry.1 hmem with hkey | hrest
        · rw [hkey]
          rcases Std.lt_trichotomy k key with hlt' | heq | hgt
          · exact hlt'
          · exact absurd heq hne
          · exact absurd hgt hlt
        · obtain ⟨e', he', hee⟩ := List.mem_map.1 hrest
          rw [← hee]
          exact h.1 e' he'

/-- Lookup finds the value inserted last. -/
theorem valueOf?_insertEntry {key k : String} {value : α} {entries : List (String × α)} :
    valueOf? k (insertEntry key value entries) =
      if k = key then some value else valueOf? k entries := by
  induction entries with
  | nil => simp [insertEntry, valueOf?, eq_comm]
  | cons e rest ih =>
    obtain ⟨k', v'⟩ := e
    simp only [insertEntry]
    split
    · simp [valueOf?, eq_comm]
    · split
      · rename_i h; subst h
        by_cases hk : k' = k
        · simp [valueOf?, hk]
        · simp [valueOf?, hk, Ne.symm hk]
      · rename_i hne
        simp only [valueOf?, ih]
        by_cases hk : k' = k
        · subst hk; simp [hne]
        · simp [hk]

end BooleanRules
