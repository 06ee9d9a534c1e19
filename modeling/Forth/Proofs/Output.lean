import Forth.Simple
import Forth.Proofs.Spacing

/-!
# What words write

A program writes single characters, numbers, listings of the stack, remarks on its input, and texts of its own
without the white space around them. So no write of it begins with a space, but for the space itself
(`Uttered.eq_space`). The prompt writes its remarks in a form that no word uses.
-/
namespace Forth

inductive Uttered : String → Prop
  | char (c : Char) : Uttered (String.singleton c)
  | number {n : Int} {t : String} : Numeral.text? n = some t → Uttered t
  | listing {s : Stack} {t : String} : s.listing? = some t → Uttered t
  | inputEmpty : Uttered ("INPUT EMPTY" ++ "\n")
  | notNumber : Uttered ("NOT A NUMBER" ++ "\n")
  | said (words : List String) : Uttered (Text.strip (Text.spaced words) ++ "\n")

namespace Uttered

theorem head_number {n : Int} {t : String} (h : Numeral.text? n = some t) : t.toList.head? ≠ some ' ' := by
  unfold Numeral.text? at h
  split at h <;> cases h
  rw [Numeral.text, String.toList_ofList, Decimal.digits_eq_toDigits]
  split
  · simp
  · have hdigits := Numeral.isDigits_toDigits n.natAbs
    intro hhead
    obtain ⟨rest, hcs⟩ := List.head?_eq_some_iff.1 hhead
    rw [hcs] at hdigits
    simp [Numeral.isDigits] at hdigits

theorem head_listing {s : Stack} {t : String} (h : s.listing? = some t) : t.toList.head? = some '<' := by
  unfold Stack.listing? at h
  obtain ⟨cells, -, rfl⟩ := Option.map_eq_some_iff.1 h
  simp [String.toList_append]

/-- What is written begins with a space only if it is the space. -/
theorem eq_space {t : String} (h : Uttered t) (hhead : t.toList.head? = some ' ') : t = " " := by
  cases h with
  | char c =>
    rw [String.toList_singleton] at hhead
    cases hhead
    rfl
  | number h => exact absurd hhead (head_number h)
  | listing h => cases (head_listing h).symm.trans hhead
  | inputEmpty => cases hhead
  | notNumber => cases hhead
  | said words =>
    rw [String.toList_append, Text.strip, String.toList_ofList] at hhead
    cases hcs : Text.stripChars (Text.spaced words).toList with
    | nil =>
      rw [hcs] at hhead
      cases hhead
    | cons c cs =>
      have hc := Text.isBlank_head_stripChars (congrArg List.head? hcs)
      rw [hcs] at hhead
      cases hhead
      cases hc

end Uttered

end Forth
