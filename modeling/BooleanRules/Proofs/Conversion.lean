import Mathlib.Data.List.Forall2
import BooleanRules.Expr.Form

/-!
# What the value of a node holds

A node that has a value gives all it holds to it: the items of a list one by one, and the
entries of a map each under its key, where of a key that is repeated the last entry counts.
This is the whole of the conversion, at every depth, and it says what the functions of a
tree receive.

## Main definitions

* `Node.Conveys` — a value holds all that a node holds.
* `Node.positional` — the nodes that become the arguments of a function.

## Main results

* `valueOf?_ofEntries`, `mem_keys_ofEntries` — what an object made of entries binds.
* `Node.conveys_of_toValue` — **the value of a node holds all that the node holds.**
* `Node.conveys_of_arguments` — the same for the arguments of a function.
-/

namespace BooleanRules

/-! ### Objects made of entries -/

section Objects

variable {α : Type}

theorem valueOf?_append (key : String) (xs ys : List (String × α)) :
    valueOf? key (xs ++ ys) = (valueOf? key xs).or (valueOf? key ys) := by
  induction xs with
  | nil => rfl
  | cons e xs ih =>
    obtain ⟨k, v⟩ := e
    by_cases hk : k = key <;> simp [valueOf?, hk, ih]

theorem valueOf?_singleton (key : String) (e : String × α) :
    valueOf? key [e] = if e.1 = key then some e.2 else none := rfl

/-- Inserting entries one after the other binds each key to the value of its last entry, and
leaves what is bound to other keys. -/
theorem valueOf?_foldl_insertEntry (key : String) (entries done : List (String × α)) :
    valueOf? key (entries.foldl (fun done e => insertEntry e.1 e.2 done) done) =
      (valueOf? key entries.reverse).or (valueOf? key done) := by
  induction entries generalizing done with
  | nil => rfl
  | cons e entries ih =>
    have hinsert : valueOf? key (insertEntry e.1 e.2 done) =
        (valueOf? key [e]).or (valueOf? key done) := by
      rw [valueOf?_insertEntry, valueOf?_singleton]
      by_cases hk : e.1 = key
      · simp [hk]
      · simp [hk, Ne.symm hk]
    rw [List.foldl_cons, ih, hinsert, List.reverse_cons, valueOf?_append, Option.or_assoc]

theorem mem_keys_foldl_insertEntry (key : String) (entries done : List (String × α)) :
    key ∈ (entries.foldl (fun done e => insertEntry e.1 e.2 done) done).map Prod.fst ↔
      key ∈ entries.map Prod.fst ∨ key ∈ done.map Prod.fst := by
  induction entries generalizing done with
  | nil => simp
  | cons e entries ih =>
    rw [List.foldl_cons, ih, mem_keys_insertEntry, List.map_cons, List.mem_cons]
    tauto

theorem ascending_foldl_insertEntry (entries : List (String × α)) {done : List (String × α)}
    (h : Ascending done) :
    Ascending (entries.foldl (fun done e => insertEntry e.1 e.2 done) done) := by
  induction entries generalizing done with
  | nil => exact h
  | cons e entries ih => exact ih (ascending_insertEntry h)

end Objects

/-! ### Nodes and values -/

/-- What goes on with a result and succeeds has succeeded before. -/
theorem exists_of_bind_eq_ok {ε α β : Type} {x : Except ε α} {f : α → Except ε β} {b : β}
    (h : x >>= f = .ok b) : ∃ a, x = .ok a ∧ f a = .ok b := by
  cases x with
  | error e => cases h
  | ok a => exact ⟨a, rfl, h⟩

namespace Node

/-- The value holds all that the node holds: scalars are the same, lists hold the same one by
one, and an object has the keys of the map and for each of them what its last entry
holds. -/
inductive Conveys : Node → Value → Prop where
  | null : Conveys .null .null
  | bool (b : Bool) : Conveys (.bool b) (.bool b)
  | number (n : Number) : Conveys (.number n) (.number n)
  | string (s : String) : Conveys (.string s) (.string s)
  | list {items : List Node} {vs : List Value} (items_conveyed : List.Forall₂ Conveys items vs) :
    Conveys (.list items) (.array vs)
  | map {entries : List (String × Node)} {vs : List (String × Value)} (ascending : Ascending vs)
    (mem_keys : ∀ k, k ∈ vs.map Prod.fst ↔ k ∈ entries.map Prod.fst)
    (entries_conveyed : ∀ k n v, valueOf? k entries.reverse = some n →
      valueOf? k vs = some v → Conveys n v) :
    Conveys (.map entries) (.object vs)

/-- An entry is converted under its key. -/
def ConveysEntry (e : String × Node) (w : String × Value) : Prop := e.1 = w.1 ∧ Conveys e.2 w.2

theorem keys_eq_of_conveyed {entries : List (String × Node)} {vs : List (String × Value)}
    (h : List.Forall₂ ConveysEntry entries vs) : entries.map Prod.fst = vs.map Prod.fst := by
  induction h with
  | nil => rfl
  | cons hentry _ ih => rw [List.map_cons, List.map_cons, hentry.1, ih]

/-- The entries found under a key are converted. -/
theorem conveys_of_valueOf? {entries : List (String × Node)} {vs : List (String × Value)}
    (h : List.Forall₂ ConveysEntry entries vs) {k : String} {n : Node} {v : Value}
    (hn : valueOf? k entries = some n) (hv : valueOf? k vs = some v) : Conveys n v := by
  induction h with
  | nil => cases hn
  | @cons e w entries vs hentry _ ih =>
    obtain ⟨hkey, hconveys⟩ := hentry
    by_cases hk : w.1 = k
    · rw [valueOf?, if_pos hk] at hv
      rw [valueOf?, if_pos (hkey.trans hk)] at hn
      cases hv
      cases hn
      exact hconveys
    · rw [valueOf?, if_neg hk] at hv
      rw [valueOf?, if_neg (hkey ▸ hk)] at hn
      exact ih hn hv

/-- The object of converted entries holds all that the map holds. -/
theorem conveys_ofEntries {entries : List (String × Node)} {vs : List (String × Value)}
    (h : List.Forall₂ ConveysEntry entries vs) :
    Conveys (.map entries) (Value.ofEntries vs) := by
  refine .map (ascending_foldl_insertEntry vs ascending_nil) ?_ ?_
  · intro k
    rw [mem_keys_foldl_insertEntry, keys_eq_of_conveyed h]
    simp
  · intro k n v hn hv
    rw [valueOf?_foldl_insertEntry, valueOf?, Option.or_none] at hv
    have hreverse : List.Forall₂ ConveysEntry entries.reverse vs.reverse :=
      List.rel_reverse h
    exact conveys_of_valueOf? hreverse hn hv

mutual

/-- **The value of a node holds all that the node holds.** -/
theorem conveys_of_toValue : ∀ (n : Node) {v : Value}, n.toValue = .ok v → Conveys n v
  | .null, _, h => by cases h; exact .null
  | .bool b, _, h => by cases h; exact .bool b
  | .number n, _, h => by cases h; exact .number n
  | .string s, _, h => by cases h; exact .string s
  | .predicate _, _, h => by cases h
  | .list items, _, h => by
    rw [toValue] at h
    obtain ⟨vs, hvs, h⟩ := exists_of_bind_eq_ok h
    cases h
    exact .list (conveys_of_toValues items hvs)
  | .map entries, _, h => by
    rw [toValue] at h
    obtain ⟨vs, hvs, h⟩ := exists_of_bind_eq_ok h
    cases h
    exact conveys_ofEntries (conveys_of_toEntries entries hvs)

theorem conveys_of_toValues :
    ∀ (ns : List Node) {vs : List Value}, toValues ns = .ok vs → List.Forall₂ Conveys ns vs
  | [], _, h => by cases h; exact .nil
  | n :: ns, _, h => by
    rw [toValues] at h
    obtain ⟨v, hv, h⟩ := exists_of_bind_eq_ok h
    obtain ⟨vs, hvs, h⟩ := exists_of_bind_eq_ok h
    cases h
    exact .cons (conveys_of_toValue n hv) (conveys_of_toValues ns hvs)

theorem conveys_of_toEntries :
    ∀ (entries : List (String × Node)) {vs : List (String × Value)},
      toEntries entries = .ok vs → List.Forall₂ ConveysEntry entries vs
  | [], _, h => by cases h; exact .nil
  | (k, n) :: entries, _, h => by
    rw [toEntries] at h
    obtain ⟨v, hv, h⟩ := exists_of_bind_eq_ok h
    obtain ⟨vs, hvs, h⟩ := exists_of_bind_eq_ok h
    cases h
    exact .cons ⟨rfl, conveys_of_toValue n hv⟩ (conveys_of_toEntries entries hvs)

end

/-! ### The arguments of functions -/

/-- The nodes that become the arguments of a function: the items of a list, or the node
itself. -/
def positional : Node → List Node
  | .list items => items
  | n => [n]

/-- The arguments of a function are the values of these nodes. -/
theorem arguments_eq_toValues (args : Node) : args.arguments = toValues args.positional := by
  have hsingle : ∀ n : Node, toValues [n] = (do return [← n.toValue]) := by
    intro n
    rw [toValues]
    cases n.toValue <;> rfl
  cases args with
  | list items => rfl
  | _ => exact (hsingle _).symm

/-- **The arguments of a function hold all that the nodes hold that they come from.** -/
theorem conveys_of_arguments {args : Node} {vs : List Value} (h : args.arguments = .ok vs) :
    List.Forall₂ Conveys args.positional vs := by
  rw [arguments_eq_toValues] at h
  exact conveys_of_toValues _ h

end Node

end BooleanRules
