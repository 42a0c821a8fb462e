import Brewhouse.Recipe.Lexeme
import Brewhouse.Recipe.Phrase
import Mathlib

/-!
Numerals: what the text of a number denotes. A numeral has its value exactly, before anything is rounded.
-/

namespace Brewhouse.Recipe

open Exact

/-- The number that decimal digits denote, the units last. -/
def digitsValue (digits : List Char) : ℕ :=
  Nat.ofDigits 10 (digits.reverse.map fun c => c.toNat - '0'.toNat)

/-- A number as it is written: digits, perhaps with a sign in front of them, perhaps with a point and
further digits behind. -/
structure Numeral where
  sign : List Char
  whole : List Char
  fraction : Option (List Char)
  sign_mem : sign ∈ [[], ['-'], ['+']]
  whole_ne : whole ≠ []
  isDigit_whole : ∀ c ∈ whole, c.isDigit = true
  isDigit_fraction : ∀ c ∈ fraction.getD [], c.isDigit = true

namespace Numeral

variable (v : Numeral)

/-- What stands behind the digits in front of the point. -/
def tail : List Char :=
  match v.fraction with
  | none => []
  | some digits => '.' :: digits

def text : List Char :=
  v.sign ++ (v.whole ++ v.tail)

def magnitude : ℚ :=
  digitsValue v.whole + digitsValue (v.fraction.getD []) / 10 ^ (v.fraction.getD []).length

def value : ℚ :=
  if v.sign = ['-'] then -v.magnitude else v.magnitude

/-- A numeral without a point is an integer. -/
def kind : TokenKind :=
  if v.fraction.isSome then .decimal else .integer

end Numeral

/-! ### Reading a numeral -/

theorem natOfDigits_eq (digits : List Char) : natOfDigits digits = digitsValue digits := by
  induction digits using List.reverseRecOn with
  | nil => rfl
  | append_singleton digits c ih =>
      have hlast : natOfDigits (digits ++ [c]) = 10 * natOfDigits digits + (c.toNat - 48) :=
        List.foldl_append
      rw [hlast, ih, digitsValue, digitsValue, List.reverse_concat, List.map_cons, Nat.ofDigits_cons]
      exact Nat.add_comm _ _

theorem digitsValue_append (digits more : List Char) :
    digitsValue (digits ++ more) = digitsValue digits * 10 ^ more.length + digitsValue more := by
  rw [digitsValue, List.reverse_append, List.map_append, Nat.ofDigits_append, List.length_map,
    List.length_reverse, Nat.mul_comm, Nat.add_comm]
  rfl

/-- The digits end where none follows. -/
theorem takeWhile_isDigit_append {digits rest : List Char} (h : ∀ c ∈ digits, c.isDigit = true)
    (hrest : rest.head?.any Char.isDigit = false) :
    (digits ++ rest).takeWhile Char.isDigit = digits := by
  rw [List.takeWhile_append_of_pos h]
  cases rest with
  | nil => exact List.append_nil digits
  | cons c rest =>
      have hc : ¬c.isDigit = true := ne_true_of_eq_false hrest
      rw [List.takeWhile_cons_of_neg hc, List.append_nil]

namespace Numeral

variable (v : Numeral)

theorem head?_whole {c : Char} (hc : c.isDigit = false) : (v.whole ++ v.tail).head? ≠ some c := by
  obtain ⟨d, digits, hwhole⟩ := List.exists_cons_of_ne_nil v.whole_ne
  have hd := v.isDigit_whole d (hwhole ▸ List.mem_cons_self)
  rw [hwhole]
  rintro ⟨⟩
  rw [hc] at hd
  cases hd

theorem sign_cases : v.sign = [] ∨ v.sign = ['-'] ∨ v.sign = ['+'] := by
  simpa using v.sign_mem

theorem signLength_text : signLength v.text = v.sign.length := by
  rw [text]
  rcases v.sign_cases with hsign | hsign | hsign <;> rw [hsign]
  · exact if_neg (not_or.mpr ⟨v.head?_whole rfl, v.head?_whole rfl⟩)
  · rfl
  · rfl

theorem head?_text : v.text.head? = some '-' ↔ v.sign = ['-'] := by
  rw [text]
  rcases v.sign_cases with hsign | hsign | hsign <;> rw [hsign]
  · exact iff_of_false (v.head?_whole rfl) (List.cons_ne_nil _ _).symm
  · exact iff_of_true rfl rfl
  · exact iff_of_false (by rw [List.singleton_append, List.head?_cons]; decide) (by decide)

theorem takeWhile_whole : (v.whole ++ v.tail).takeWhile Char.isDigit = v.whole := by
  refine takeWhile_isDigit_append v.isDigit_whole ?_
  rw [tail]
  cases v.fraction <;> rfl

theorem takeWhile_fraction :
    ((v.whole ++ v.tail).drop (v.whole.length + 1)).takeWhile Char.isDigit = v.fraction.getD [] := by
  have hdigits := v.isDigit_fraction
  rw [List.drop_length_add_append, tail]
  cases hfraction : v.fraction with
  | none => rfl
  | some digits =>
      rw [hfraction] at hdigits
      have hall : (digits ++ []).takeWhile Char.isDigit = digits :=
        takeWhile_isDigit_append hdigits rfl
      rwa [List.append_nil] at hall

/-- The text of a numeral is read as its digits, and these denote its value. -/
theorem ofChars_text :
    Decimal.ofChars v.text = ⟨v.sign = ['-'], natOfDigits (v.whole ++ v.fraction.getD []),
      -((v.fraction.getD []).length : ℤ)⟩ := by
  have hunsigned : (if v.text.head? = some '-' ∨ v.text.head? = some '+' then v.text.drop 1
      else v.text) = v.whole ++ v.tail := by
    have hdrop : v.text.drop (signLength v.text) = v.whole ++ v.tail := by
      rw [signLength_text, text, List.drop_left]
    rw [← hdrop, signLength]
    split_ifs <;> rfl
  simp only [Decimal.ofChars, hunsigned, takeWhile_whole, takeWhile_fraction]
  simp only [head?_text]

theorem magnitude_ofChars : (Decimal.ofChars v.text).magnitude = v.magnitude := by
  rw [ofChars_text, Decimal.magnitude, magnitude]
  dsimp only
  rw [natOfDigits_eq, digitsValue_append, zpow_neg, zpow_natCast, ← div_eq_mul_inv]
  push_cast
  rw [add_div, mul_div_cancel_right₀ _ (by positivity)]

theorem value_ofChars : (Decimal.ofChars v.text).value = v.value := by
  rw [Decimal.value, magnitude_ofChars, ofChars_text, value]
  simp only [decide_eq_true_eq]

theorem exists_int {v : Numeral} (h : v.kind = .integer) : ∃ z : ℤ, v.value = z := by
  have hnone : v.fraction = none := by
    unfold kind at h
    cases hfraction : v.fraction with
    | none => rfl
    | some digits =>
        rw [hfraction] at h
        cases h
  have hmagnitude : v.magnitude = (digitsValue v.whole : ℤ) := by
    rw [magnitude, hnone]
    simp [digitsValue]
  rw [value, hmagnitude]
  split_ifs
  · exact ⟨-(digitsValue v.whole : ℤ), (Int.cast_neg _).symm⟩
  · exact ⟨digitsValue v.whole, rfl⟩

end Numeral

end Brewhouse.Recipe
