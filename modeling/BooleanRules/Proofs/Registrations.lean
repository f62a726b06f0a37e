import Mathlib.Data.Finset.Card
import BooleanRules.Call.Registry
import BooleanRules.Proofs.Canonical

/-!
# Registries after registrations

Functions are registered one after the other, in any of four ways, and a name may come again.
Whatever the sequence is, the registry is the finite map that takes every name to the function that
was registered under it last.  Its names ascend by code point, so nothing of the order of the
registrations is left, except among those of one name.

## Main definitions

* `Registration`, `Registration.perform` — a registration, and what it makes of a registry.
* `Registry.ofRegistrations` — the registry that a sequence of them leads to.
* `Registration.lastUnder?` — the last of them under a name.

## Main results

* `Registry.ext_get?` — a registry is known by what it finds.
* `Registry.get?_ofRegistrations` — the last registration under a name counts.
* `Registry.ofRegistrations_congr` — only the order among registrations of one name counts.
* `registrations_make_finite_map` — **the registry is a finite map.**
-/

namespace BooleanRules

variable {σ : Type}

/-! ### Registrations -/

/-- A way to register a function under a name. -/
inductive Registration (σ : Type) where
  /-- A function. -/
  | register (name : String) (f : Function σ)
  /-- A function that promises. -/
  | registerAsync (name : String) (f : AsyncFunction σ)
  /-- A function, as a step in building the registry. -/
  | withFunction (name : String) (f : Function σ)
  /-- A function that promises, as a step in building the registry. -/
  | withAsyncFunction (name : String) (f : AsyncFunction σ)

namespace Registration

/-- The name that is registered. -/
def name : Registration σ → String
  | .register name _ | .registerAsync name _ | .withFunction name _
  | .withAsyncFunction name _ => name

/-- The function that is registered. -/
def function : Registration σ → Function σ
  | .register _ f | .withFunction _ f => f
  | .registerAsync _ f | .withAsyncFunction _ f => f.function

/-- The registry after a registration. -/
def perform (r : Registry σ) : Registration σ → Registry σ
  | .register name f => r.register name f
  | .registerAsync name f => r.registerAsync name f
  | .withFunction name f => r.withFunction name f
  | .withAsyncFunction name f => r.withAsyncFunction name f

/-- In whichever way, the function is registered under the name. -/
theorem perform_eq (r : Registry σ) (g : Registration σ) :
    g.perform r = r.register g.name g.function := by
  cases g <;> rfl

/-- The last registration under a name. -/
def lastUnder? (name : String) (gs : List (Registration σ)) : Option (Registration σ) :=
  (gs.filter fun g => g.name = name).getLast?

theorem lastUnder?_concat (name : String) (gs : List (Registration σ)) (g : Registration σ) :
    lastUnder? name (gs ++ [g]) = if g.name = name then some g else lastUnder? name gs := by
  rw [lastUnder?, List.filter_append, lastUnder?]
  by_cases h : g.name = name
  · rw [List.filter_cons_of_pos (by simpa using h), List.filter_nil, List.getLast?_concat, if_pos h]
  · rw [List.filter_cons_of_neg (by simpa using h), List.filter_nil, List.append_nil, if_neg h]

end Registration

/-! ### The order of names -/

/-- The code points of a text. -/
def codePoints (s : String) : List Nat := s.toList.map Char.toNat

/-- Texts are compared by code point. -/
theorem codePoints_lt_of_lt {s t : String} (h : s < t) : codePoints s < codePoints t := by
  have hlex : ∀ cs ds : List Char, cs < ds → cs.map Char.toNat < ds.map Char.toNat := by
    intro cs ds h
    induction h with
    | nil => exact .nil
    | rel h => exact .rel h
    | cons _ ih => exact .cons ih
  exact hlex _ _ h

namespace Registry

/-! ### Registries and what they find -/

theorem get?_eq_some_iff {r : Registry σ} {name : String} {f : Function σ} :
    r.get? name = some f ↔ (name, f) ∈ r.entries :=
  valueOf?_eq_some_iff r.ascending.nodup

/-- **A registry is known by what it finds.** -/
theorem ext_get? {r r' : Registry σ} (h : ∀ name, r.get? name = r'.get? name) : r = r' := by
  have hentries : r.entries = r'.entries := by
    refine r.ascending.ext r'.ascending fun name f => ?_
    rw [← get?_eq_some_iff, ← get?_eq_some_iff, h]
  cases r
  cases r'
  cases hentries
  rfl

/-! ### Sequences of registrations -/

/-- The registry that registrations lead to, in order and from nothing. -/
def ofRegistrations (gs : List (Registration σ)) : Registry σ :=
  gs.foldl (fun r g => g.perform r) .empty

theorem ofRegistrations_concat (gs : List (Registration σ)) (g : Registration σ) :
    ofRegistrations (gs ++ [g]) = (ofRegistrations gs).register g.name g.function := by
  rw [ofRegistrations, List.foldl_concat, g.perform_eq, ofRegistrations]

/-- **The last registration under a name counts.** -/
theorem get?_ofRegistrations (gs : List (Registration σ)) (name : String) :
    (ofRegistrations gs).get? name =
      (Registration.lastUnder? name gs).map Registration.function := by
  induction gs using List.reverseRecOn with
  | nil => rfl
  | append_singleton gs g ih =>
    rw [ofRegistrations_concat, get?_register, Registration.lastUnder?_concat, ih]
    by_cases h : g.name = name
    · rw [if_pos h, if_pos h.symm, Option.map_some]
    · rw [if_neg h, if_neg (Ne.symm h)]

theorem mem_names_ofRegistrations {gs : List (Registration σ)} {name : String} :
    name ∈ (ofRegistrations gs).names ↔ ∃ g ∈ gs, g.name = name := by
  induction gs using List.reverseRecOn with
  | nil => simp [ofRegistrations, empty, names]
  | append_singleton gs g ih =>
    rw [ofRegistrations_concat, mem_names_register, ih]
    simp only [List.mem_append, List.mem_singleton, or_and_right, exists_or, exists_eq_left]
    rw [or_comm, eq_comm]

/-- Only the order among registrations of one name counts. -/
theorem ofRegistrations_congr {gs gs' : List (Registration σ)}
    (h : ∀ name, (gs.filter fun g => g.name = name) = gs'.filter fun g => g.name = name) :
    ofRegistrations gs = ofRegistrations gs' := by
  refine ext_get? fun name => ?_
  rw [get?_ofRegistrations, get?_ofRegistrations, Registration.lastUnder?, h,
    Registration.lastUnder?]

/-- Registrations under two names may change places. -/
theorem ofRegistrations_swap (before after : List (Registration σ)) {g g' : Registration σ}
    (hne : g.name ≠ g'.name) :
    ofRegistrations (before ++ g :: g' :: after) =
      ofRegistrations (before ++ g' :: g :: after) := by
  refine ofRegistrations_congr fun name => ?_
  simp only [List.filter_append, List.filter_cons]
  by_cases hg : g.name = name
  · have hg' : g'.name ≠ name := fun hg' => hne (hg.trans hg'.symm)
    simp [hg, hg']
  · simp [hg]

/-- There are as many functions as there are names. -/
theorem size_ofRegistrations (gs : List (Registration σ)) :
    (ofRegistrations gs).size = (gs.map Registration.name).toFinset.card := by
  have hnames : (gs.map Registration.name).toFinset = (ofRegistrations gs).names.toFinset := by
    ext name
    rw [List.mem_toFinset, List.mem_map, List.mem_toFinset, mem_names_ofRegistrations]
  have hnodup : (ofRegistrations gs).names.Nodup := (ofRegistrations gs).ascending.nodup
  rw [hnames, List.toFinset_card_of_nodup hnodup, names, List.length_map, size]

end Registry

/-- **The registry is a finite map**, whatever has been registered in whichever way and order.  A
name has the function of the last registration under it, and it is contained if it has one; the
names ascend by code point and are those that have been registered; the size is their number.
Registrations under two names lead to the same registry in either order. -/
theorem registrations_make_finite_map (gs : List (Registration σ)) :
    let r := Registry.ofRegistrations gs
    (∀ name, r.get? name = (Registration.lastUnder? name gs).map Registration.function) ∧
      (∀ name, r.contains name = true ↔ ∃ f, r.get? name = some f) ∧
      (r.names.Pairwise fun name name' => codePoints name < codePoints name') ∧
      (∀ name, name ∈ r.names ↔ ∃ g ∈ gs, g.name = name) ∧
      r.size = r.names.length ∧ r.size = (gs.map Registration.name).toFinset.card ∧
      (r.isEmpty = true ↔ r.size = 0) ∧
      ∀ before g g' after, gs = before ++ g :: g' :: after → g.name ≠ g'.name →
        Registry.ofRegistrations (before ++ g' :: g :: after) = r := by
  intro r
  have hascending : r.names.Pairwise (· < ·) := r.ascending
  refine ⟨Registry.get?_ofRegistrations gs, fun name => Option.isSome_iff_exists,
    hascending.imp codePoints_lt_of_lt, fun name => Registry.mem_names_ofRegistrations,
    (List.length_map _).symm, Registry.size_ofRegistrations gs, ?_, ?_⟩
  · rw [Registry.isEmpty, Registry.size, List.isEmpty_iff, List.length_eq_zero_iff]
  · rintro before g g' after hgs hne
    rw [Registry.ofRegistrations_swap before after hne.symm, ← hgs]

/-- A flag that is registered again, with a function that promises in between. -/
theorem later_flag_found :
    let deny : Function Unit := fun _ s => (.ready (.bool false), s)
    let affirm : Function Unit := fun _ s => (.ready (.bool true), s)
    let promise : AsyncFunction Unit := fun _ s => (⟨.bool true, 2⟩, s)
    let gs : List (Registration Unit) :=
      [.withFunction "flag" deny, .registerAsync "ask" promise, .withFunction "flag" affirm]
    let r := Registry.ofRegistrations gs
    r.get? "flag" = some affirm ∧ r.get? "ask" = some promise.function ∧ r.get? "Flag" = none ∧
      r.size = 2 ∧ "ask" ≠ "flag" ∧
      Registry.ofRegistrations
        [.withFunction "flag" deny, .withFunction "flag" affirm, .registerAsync "ask" promise] =
          r := by
  intro deny affirm promise gs r
  obtain ⟨hget, -, -, -, -, hsize, -, hswap⟩ := registrations_make_finite_map gs
  have hne : "ask" ≠ "flag" := by decide
  exact ⟨hget "flag", hget "ask", hget "Flag", hsize, hne,
    hswap [.withFunction "flag" deny] (.registerAsync "ask" promise) (.withFunction "flag" affirm)
      [] rfl hne⟩

end BooleanRules
