import BooleanRules.Proofs.Spelling

/-!
# What can be kept can be skipped

A value of no interest is skipped without being understood, by a reader of its own.  Where the value
could have been kept, both readers stop at the same place.  The skipping one asks for less, as it
looks neither at the depth of brackets nor at the size of numbers, so the converse fails.

## Main results

* `skipScalar_of_readScalar` — for scalars.
* `Node.Spelled.skip` — **what a text spells is skipped** as a whole, whatever its depth.
-/

namespace BooleanRules

namespace Json

/-! ### Numbers -/

/-- If the first succeeds, the second does, with the same result. -/
def OkImplies {α : Type} (x y : Except Fault α) : Prop := ∀ a, x = .ok a → y = .ok a

section OkImplies

variable {α β : Type}

theorem OkImplies.refl (x : Except Fault α) : OkImplies x x := fun _ h => h

theorem OkImplies.bind {x y : Except Fault α} {f g : α → Except Fault β} (h : OkImplies x y)
    (hnext : ∀ a, OkImplies (f a) (g a)) : OkImplies (x >>= f) (y >>= g) := by
  intro b hb
  obtain ⟨a, hx, hf⟩ := exists_of_bind_eq_ok hb
  rw [h a hx]
  exact hnext a b hf

end OkImplies

section Numerals

-- which fault a missing digit would be does not matter where no digit is missing
variable (missing missing' : List Char → Fault) (cs : List Char)

theorem scanDigits_okImplies : OkImplies (scanDigits missing cs) (scanDigits missing' cs) := by
  intro r h
  rw [scanDigits] at h ⊢
  split at h
  · cases h
  · exact h

theorem scanWhole_okImplies : OkImplies (scanWhole missing cs) (scanWhole missing' cs) :=
  (scanDigits_okImplies missing missing' cs).bind fun _ => .refl _

theorem scanFraction_okImplies :
    OkImplies (scanFraction missing cs) (scanFraction missing' cs) := by
  unfold scanFraction
  split
  · exact scanDigits_okImplies missing missing' _
  · exact .refl _

theorem scanExponent_okImplies :
    OkImplies (scanExponent missing cs) (scanExponent missing' cs) := by
  unfold scanExponent
  split
  · exact .refl _
  · split
    · exact (scanDigits_okImplies missing missing' _).bind fun _ => .refl _
    · exact .refl _

theorem scanNumeral_okImplies : OkImplies (scanNumeral missing cs) (scanNumeral missing' cs) := by
  unfold scanNumeral
  split
  exact (scanWhole_okImplies missing missing' _).bind fun _ =>
    (scanFraction_okImplies missing missing' _).bind fun _ =>
      (scanExponent_okImplies missing missing' _).bind fun _ => .refl _

end Numerals

/-- A number that can be kept can be skipped. -/
theorem skipNumber_of_readNumber {cs rest : List Char} {n : Number}
    (h : readNumber cs = .ok (n, rest)) : skipNumber cs = .ok rest := by
  obtain ⟨⟨numeral, after⟩, hscan, h⟩ := exists_of_bind_eq_ok h
  dsimp only at h
  split at h
  · cases h
    rw [skipNumber, scanNumeral_okImplies _ _ _ _ hscan]
    rfl
  · cases h

/-! ### Scalars -/

/-- A scalar that can be kept can be skipped. -/
theorem skipScalar_of_readScalar {cs rest : List Char} {s : Scalar}
    (h : readScalar cs = .ok (s, rest)) : skipScalar cs = .ok rest := by
  rw [skipScalar.eq_def]
  rw [readScalar.eq_def] at h
  split at h
  · cases h
  · obtain ⟨after, hword, h⟩ := exists_of_bind_eq_ok h
    cases h
    exact hword
  · obtain ⟨after, hword, h⟩ := exists_of_bind_eq_ok h
    cases h
    exact hword
  · obtain ⟨after, hword, h⟩ := exists_of_bind_eq_ok h
    cases h
    exact hword
  · obtain ⟨⟨text, after⟩, hread, h⟩ := exists_of_bind_eq_ok h
    cases h
    exact skipString_of_readString hread
  · rename_i c cs _ _ _ _
    split at h
    · obtain ⟨⟨n, after⟩, hread, h⟩ := exists_of_bind_eq_ok h
      cases h
      simp only [*, if_true]
      exact skipNumber_of_readNumber hread
    · cases h

end Json

open Json

namespace Node

/-! ### Values -/

section Blanks

variable (steps : Nat) (cs : List Char)

theorem skipValue_dropBlanks : skipValue steps (dropBlanks cs) = skipValue steps cs := by
  cases steps with
  | zero => rfl
  | succ steps => rw [skipValue, skipValue, dropBlanks_dropBlanks]

theorem skipItems_dropBlanks : skipItems steps (dropBlanks cs) = skipItems steps cs := by
  cases steps with
  | zero => rfl
  | succ steps => rw [skipItems, skipItems, skipValue_dropBlanks]

theorem skipEntries_dropBlanks : skipEntries steps (dropBlanks cs) = skipEntries steps cs := by
  cases steps with
  | zero => rfl
  | succ steps => rw [skipEntries, skipEntries, skipKey, skipKey, dropBlanks_dropBlanks]

end Blanks

theorem KeySpelled.skip {cs rest : List Char} {k : String} (h : KeySpelled cs k rest) :
    ∃ after, skipKey cs = .ok after ∧ scanColon after = .ok rest := by
  obtain ⟨quote, key, colon⟩ := h
  exact ⟨_, by rw [skipKey, quote]; exact skipString_of_readString key,
    by rw [scanColon, colon]; rfl⟩

section Steps

variable {steps : Nat} {cs inner value after more rest : List Char}

theorem skipValue_of_scalar {s : Scalar} (h : readScalar (dropBlanks cs) = .ok (s, rest)) :
    skipValue (steps + 1) cs = .ok rest := by
  rw [skipValue]
  split
  · rename_i hopened
    rw [hopened] at h
    cases h
  · rename_i hopened
    rw [hopened] at h
    cases h
  · exact skipScalar_of_readScalar h

theorem skipValue_of_emptyList (hopened : dropBlanks cs = '[' :: inner)
    (hclosed : dropBlanks inner = ']' :: rest) : skipValue (steps + 1) cs = .ok rest := by
  simp only [skipValue, hopened, hclosed]

theorem skipValue_of_items (hopened : dropBlanks cs = '[' :: inner)
    (hnot : ∀ rest', dropBlanks inner ≠ ']' :: rest') :
    skipValue (steps + 1) cs = skipItems steps inner := by
  simp only [skipValue, hopened, skipItems_dropBlanks]

theorem skipValue_of_emptyMap (hopened : dropBlanks cs = '\x7b' :: inner)
    (hclosed : dropBlanks inner = '\x7d' :: rest) : skipValue (steps + 1) cs = .ok rest := by
  simp only [skipValue, hopened, hclosed]

theorem skipValue_of_entries (hopened : dropBlanks cs = '\x7b' :: inner)
    (hnot : ∀ rest', dropBlanks inner ≠ '\x7d' :: rest') :
    skipValue (steps + 1) cs = skipEntries steps inner := by
  simp only [skipValue, hopened, skipEntries_dropBlanks]

theorem skipItems_of_last (hitem : skipValue steps cs = .ok after)
    (hclosed : dropBlanks after = ']' :: rest) : skipItems (steps + 1) cs = .ok rest := by
  simp only [skipItems, hitem, hclosed, bind, Except.bind]
  rfl

theorem skipItems_of_comma (hitem : skipValue steps cs = .ok after)
    (hcomma : dropBlanks after = ',' :: more) :
    skipItems (steps + 1) cs = skipItems steps more := by
  simp only [skipItems, hitem, hcomma, bind, Except.bind]

theorem skipEntries_of_last {k : String} (hkey : KeySpelled cs k value)
    (hitem : skipValue steps value = .ok after) (hclosed : dropBlanks after = '\x7d' :: rest) :
    skipEntries (steps + 1) cs = .ok rest := by
  obtain ⟨colon, hskip, hcolon⟩ := hkey.skip
  simp only [skipEntries, hskip, hcolon, hitem, hclosed, bind, Except.bind]
  rfl

theorem skipEntries_of_comma {k : String} (hkey : KeySpelled cs k value)
    (hitem : skipValue steps value = .ok after) (hcomma : dropBlanks after = ',' :: more) :
    skipEntries (steps + 1) cs = skipEntries steps more := by
  obtain ⟨colon, hskip, hcolon⟩ := hkey.skip
  simp only [skipEntries, hskip, hcolon, hitem, hcomma, bind, Except.bind]

end Steps

mutual

/-- **What a text spells is skipped** as a whole: two steps are enough for every character. -/
theorem Spelled.skip {cs rest : List Char} {n : Node} : Spelled cs n rest →
    ∀ steps, 2 * cs.length ≤ steps → skipValue steps cs = .ok rest
  | .scalar read, steps, hsteps => by
    cases steps with
    | succ steps => exact skipValue_of_scalar read
    | zero =>
      -- no scalar starts in an empty text
      have hnil : cs = [] := List.eq_nil_of_length_eq_zero (by omega)
      rw [hnil] at read
      cases read
  | .list opened items, steps + 1, hsteps => by
    have hlength := length_of_dropBlanks_eq opened
    rcases items.closed_or_nonempty with ⟨-, closed⟩ | hnonempty
    · exact skipValue_of_emptyList opened closed
    · rw [skipValue_of_items opened (items.not_closed hnonempty)]
      exact items.skip hnonempty steps (by omega)
  | .map opened entries, steps + 1, hsteps => by
    have hlength := length_of_dropBlanks_eq opened
    rcases entries.closed_or_nonempty with ⟨-, closed⟩ | hnonempty
    · exact skipValue_of_emptyMap opened closed
    · rw [skipValue_of_entries opened (entries.not_closed hnonempty)]
      exact entries.skip hnonempty steps (by omega)
  | .list opened _, 0, hsteps | .map opened _, 0, hsteps => by
    have hlength := length_of_dropBlanks_eq opened
    omega

theorem ItemsSpelled.skip {cs rest : List Char} {ns : List Node} : ItemsSpelled cs ns rest →
    ns ≠ [] → ∀ steps, 2 * cs.length < steps → skipItems steps cs = .ok rest
  | .none _, hnonempty, _, _ => absurd rfl hnonempty
  | .last item closed, _, steps + 1, hsteps =>
    skipItems_of_last (item.skip steps (by omega)) closed
  | .cons item comma items nonempty, _, steps + 1, hsteps => by
    have hafter := item.suffix.length_le
    have hmore := length_of_dropBlanks_eq comma
    rw [skipItems_of_comma (item.skip steps (by omega)) comma]
    exact items.skip nonempty steps (by omega)

theorem EntriesSpelled.skip {cs rest : List Char} {entries : List (String × Node)} :
    EntriesSpelled cs entries rest → entries ≠ [] → ∀ steps, 2 * cs.length < steps →
      skipEntries steps cs = .ok rest
  | .none _, hnonempty, _, _ => absurd rfl hnonempty
  | .last key item closed, _, steps + 1, hsteps => by
    have hvalue := key.suffix.length_le
    exact skipEntries_of_last key (item.skip steps (by omega)) closed
  | .cons key item comma entries nonempty, _, steps + 1, hsteps => by
    have hvalue := key.suffix.length_le
    have hafter := item.suffix.length_le
    have hmore := length_of_dropBlanks_eq comma
    rw [skipEntries_of_comma key (item.skip steps (by omega)) comma]
    exact entries.skip nonempty steps (by omega)

end

end Node

end BooleanRules
