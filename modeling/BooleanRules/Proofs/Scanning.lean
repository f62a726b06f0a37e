import Mathlib.Data.List.DropRight
import BooleanRules.Json.Scalar
import BooleanRules.Proofs.Conversion

/-!
# What scanning leaves of a text

Whatever scans the front of a text leaves the end of it: nothing is put back and nothing is made
up.  So the length of what is left bounds the work that is still to be done.

* `suffix_of_readString`, `suffix_of_readNumber` — strings and numbers.
* `suffix_of_readScalar` — **what follows a scalar is the end of the text.**
-/

namespace BooleanRules.Json

/-! ### Blanks and words -/

theorem suffix_dropBlanks (cs : List Char) : dropBlanks cs <:+ cs := List.dropWhile_suffix _

theorem dropBlanks_dropBlanks (cs : List Char) : dropBlanks (dropBlanks cs) = dropBlanks cs :=
  List.dropWhile_idempotent ..

theorem suffix_of_scanWord {word cs rest : List Char} (h : scanWord word cs = .ok rest) :
    rest <:+ cs := by
  induction word generalizing cs with
  | nil => cases h; exact List.suffix_rfl
  | cons w word ih =>
    cases cs with
    | nil => cases h
    | cons c cs =>
      rw [scanWord] at h
      split at h
      · exact (ih h).trans (List.suffix_cons c cs)
      · cases h

/-! ### Strings -/

theorem suffix_of_scanPieces {cs rest : List Char} (h : (scanPieces cs).2 = .ok rest) :
    rest <:+ cs := by
  fun_induction scanPieces cs with
  | case1 | case3 | case5 | case6 | case8 | case9 => cases h
  | case2 rest' =>
    cases h
    exact List.suffix_cons _ _
  | case4 a b c d rest' n hn ih =>
    exact (ih h).trans (List.suffix_append ['\\', 'u', a, b, c, d] rest')
  | case7 c rest' _ _ c' hc ih => exact (ih h).trans (List.suffix_append ['\\', c] rest')
  | case10 c rest' _ _ _ _ _ _ ih => exact (ih h).trans (List.suffix_cons c rest')

theorem suffix_of_readString {cs rest : List Char} {s : String}
    (h : readString cs = .ok (s, rest)) : rest <:+ cs :=
  suffix_of_scanPieces (skipString_of_readString h)

/-! ### Numbers -/

theorem suffix_of_scanDigits {missing : List Char → Fault} {cs ds rest : List Char}
    (h : scanDigits missing cs = .ok (ds, rest)) : rest <:+ cs := by
  rw [scanDigits, spanDigits] at h
  split at h
  · cases h
  · cases h
    exact List.dropWhile_suffix _

theorem suffix_of_scanWhole {missing : List Char → Fault} {cs ds rest : List Char}
    (h : scanWhole missing cs = .ok (ds, rest)) : rest <:+ cs := by
  obtain ⟨⟨ds', rest'⟩, hdigits, h⟩ := exists_of_bind_eq_ok h
  dsimp only at h
  split at h
  · cases h
  · cases h
    exact suffix_of_scanDigits hdigits

theorem suffix_of_scanFraction {missing : List Char → Fault} {cs ds rest : List Char}
    (h : scanFraction missing cs = .ok (ds, rest)) : rest <:+ cs := by
  unfold scanFraction at h
  split at h
  · exact (suffix_of_scanDigits h).trans (List.suffix_cons _ _)
  · cases h
    exact List.suffix_rfl

theorem suffix_splitSign (cs : List Char) : (DecimalText.splitSign cs).2 <:+ cs := by
  unfold DecimalText.splitSign
  split
  · exact List.suffix_cons _ _
  · exact List.suffix_cons _ _
  · exact List.suffix_rfl

theorem suffix_of_scanExponent {missing : List Char → Fault} {cs rest : List Char}
    {e : Option Int} (h : scanExponent missing cs = .ok (e, rest)) : rest <:+ cs := by
  unfold scanExponent at h
  split at h
  · cases h
    exact List.suffix_rfl
  · rename_i c cs
    split at h
    · obtain ⟨⟨ds, rest'⟩, hdigits, h⟩ := exists_of_bind_eq_ok h
      cases h
      exact (suffix_of_scanDigits hdigits).trans <|
        (suffix_splitSign cs).trans (List.suffix_cons _ _)
    · cases h
      exact List.suffix_rfl

theorem suffix_of_scanNumeral {missing : List Char → Fault} {cs rest : List Char} {n : Numeral}
    (h : scanNumeral missing cs = .ok (n, rest)) : rest <:+ cs := by
  unfold scanNumeral at h
  split at h
  rename_i negative cs' hsign
  have hcs' : cs' <:+ cs := by
    split at hsign
    · cases hsign
      exact List.suffix_cons _ _
    · cases hsign
      exact List.suffix_rfl
  obtain ⟨⟨whole, after⟩, hwhole, h⟩ := exists_of_bind_eq_ok h
  obtain ⟨⟨fraction, after'⟩, hfraction, h⟩ := exists_of_bind_eq_ok h
  obtain ⟨⟨exponent, after''⟩, hexponent, h⟩ := exists_of_bind_eq_ok h
  cases h
  exact (suffix_of_scanExponent hexponent).trans <| (suffix_of_scanFraction hfraction).trans <|
    (suffix_of_scanWhole hwhole).trans hcs'

theorem suffix_of_readNumber {cs rest : List Char} {n : Number}
    (h : readNumber cs = .ok (n, rest)) : rest <:+ cs := by
  obtain ⟨⟨numeral, after⟩, hscan, h⟩ := exists_of_bind_eq_ok h
  dsimp only at h
  split at h
  · cases h
    exact suffix_of_scanNumeral hscan
  · cases h

/-! ### Scalars -/

/-- **What follows a scalar is the end of the text.** -/
theorem suffix_of_readScalar {cs rest : List Char} {s : Scalar}
    (h : readScalar cs = .ok (s, rest)) : rest <:+ cs := by
  unfold readScalar at h
  split at h
  · cases h
  · obtain ⟨after, hword, h⟩ := exists_of_bind_eq_ok h
    cases h
    exact (suffix_of_scanWord hword).trans (List.suffix_cons _ _)
  · obtain ⟨after, hword, h⟩ := exists_of_bind_eq_ok h
    cases h
    exact (suffix_of_scanWord hword).trans (List.suffix_cons _ _)
  · obtain ⟨after, hword, h⟩ := exists_of_bind_eq_ok h
    cases h
    exact (suffix_of_scanWord hword).trans (List.suffix_cons _ _)
  · obtain ⟨⟨text, after⟩, hread, h⟩ := exists_of_bind_eq_ok h
    cases h
    exact (suffix_of_readString hread).trans (List.suffix_cons _ _)
  · split at h
    · obtain ⟨⟨n, after⟩, hread, h⟩ := exists_of_bind_eq_ok h
      cases h
      exact suffix_of_readNumber hread
    · cases h

end BooleanRules.Json
