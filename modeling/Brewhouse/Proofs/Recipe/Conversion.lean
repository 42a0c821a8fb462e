import Brewhouse.Proofs.Recipe.Amount
import Brewhouse.Proofs.Recipe.NormalForm

/-!
How faithfully the volumes and times of a recipe are converted. The text of a number token is a numeral,
and what a numeral and a unit come to is close to the exact amount.
-/

namespace Brewhouse.Recipe

open Exact

/-! ### Number tokens -/

theorem kind_of_matchFirst? {text : List Char} {entries : List Entry} {found : TokenKind × Nat}
    (h : matchFirst? text entries = some found) : ∃ entry ∈ entries, entry.kind = found.1 := by
  obtain ⟨entry, hentry, h⟩ := List.exists_of_findSome?_eq_some h
  obtain ⟨n, -, rfl⟩ := Option.map_eq_some_iff.mp h
  exact ⟨entry, hentry, rfl⟩

theorem withColon_fst (text : List Char) (found : TokenKind × Nat) :
    (withColon text found).1 = found.1 := by
  unfold withColon
  split <;> rfl

/-- Only a number is read as a number. -/
theorem matchNumber?_of_lexeme? {text : List Char} {kind : TokenKind} {n : Nat}
    (h : lexeme? text = some (kind, n)) (hkind : kind ∈ numberKinds) :
    matchNumber? text = some (kind, n) := by
  have hwords : ∀ entry ∈ keywords ++ scales ++ units, entry.kind ∉ numberKinds := by decide
  have hfirst : ∀ entries, (∀ entry ∈ entries, entry ∈ keywords ++ scales ++ units) →
      (matchFirst? text entries).map (withColon text) ≠ some (kind, n) := by
    intro entries hentries hfound
    obtain ⟨found, hfound, hcolon⟩ := Option.map_eq_some_iff.mp hfound
    obtain ⟨entry, hentry, hkind'⟩ := kind_of_matchFirst? hfound
    have hsame : found.1 = kind := (withColon_fst text found).symm.trans (congrArg Prod.fst hcolon)
    exact hwords entry (hentries entry hentry) (hkind'.trans hsame ▸ hkind)
  simp only [lexeme?, Option.or_eq_some_iff] at h
  rcases h with h | ⟨-, h | ⟨-, h | ⟨-, h⟩⟩⟩
  · exact absurd h (hfirst keywords fun entry h => by simp [h])
  · exact h
  · obtain ⟨scale, hscale, h⟩ := List.exists_of_findSome?_eq_some h
    obtain ⟨word, -, h⟩ := List.exists_of_findSome?_eq_some h
    obtain ⟨skipped, -, h⟩ := Option.bind_eq_some_iff.mp h
    obtain ⟨found, hfound, hfst⟩ := Option.map_eq_some_iff.mp h
    obtain ⟨entry, hentry, hkind'⟩ := kind_of_matchFirst? hfound
    obtain rfl := List.mem_singleton.mp hentry
    have hsame : found.1 = kind := congrArg Prod.fst hfst
    exact absurd (hkind'.trans hsame ▸ hkind) (hwords entry (by simp [hscale]))
  · exact absurd h (hfirst units fun entry h => by simp [h])

theorem take_signLength (text : List Char) :
    text.take (signLength text) ∈ [[], ['-'], ['+']] := by
  unfold signLength
  cases text with
  | nil => simp
  | cons c text => split <;> simp_all

/-- A text that is read as a number from its beginning to its end is a numeral. -/
theorem exists_numeral {text : List Char} {kind : TokenKind}
    (h : matchNumber? text = some (kind, text.length)) :
    ∃ v : Numeral, v.text = text ∧ v.kind = kind := by
  rw [matchNumber?_eq] at h
  split at h
  · cases h
  next hdigits =>
  have hsome : (text.drop (signLength text)).takeWhile Char.isDigit ≠ [] := by
    intro hnone
    rw [wholeLength, hnone] at hdigits
    exact hdigits rfl
  have hall : ∀ c ∈ (text.drop (signLength text)).takeWhile Char.isDigit, c.isDigit = true :=
    fun c hc => List.mem_takeWhile_imp hc
  split at h
  · next hpoint =>
    obtain ⟨rfl, hlength⟩ := Prod.mk.inj (Option.some.inj h)
    refine ⟨⟨_, _, some ((text.drop (wholeLength text + 1)).takeWhile Char.isDigit),
      take_signLength text, hsome, hall, fun c hc => List.mem_takeWhile_imp hc⟩, ?_, rfl⟩
    rw [Numeral.text, Numeral.tail]
    dsimp only
    rw [← List.append_assoc, ← take_wholeLength, ← take_fraction hpoint, hlength, List.take_length]
  · obtain ⟨rfl, hlength⟩ := Prod.mk.inj (Option.some.inj h)
    refine ⟨⟨_, _, none, take_signLength text, hsome, hall, List.forall_mem_nil _⟩, ?_, rfl⟩
    rw [Numeral.text, Numeral.tail]
    dsimp only
    rw [← List.append_assoc, ← take_wholeLength, List.append_nil, hlength, List.take_length]

/-- The text of a number token is a numeral of its kind. -/
theorem exists_numeral_of_tokens {source : String} {ts : List Token} (h : tokens source = .ok ts)
    {t : Token} (ht : t ∈ ts) (hkind : t.kind ∈ numberKinds) :
    ∃ v : Numeral, v.text = t.text ∧ v.kind = t.kind := by
  obtain ⟨line, hread⟩ := scansTo_of_scan h
  exact exists_numeral (matchNumber?_of_lexeme? (hread.recognised t ht).lexeme hkind)

/-! ### Volumes and times -/

theorem factor_bounds {factor? : TokenKind → Option Nat}
    (hfactor : factor? = volumeFactor? ∨ factor? = timeFactor?) {kind : TokenKind} {k : Nat}
    (h : factor? kind = some k) : 1 ≤ k ∧ k ≤ 2 ^ 22 := by
  rcases hfactor with rfl | rfl
  · rw [volumeFactor?_eq] at h
    exact lookup_bounds (by simp) h
  · rw [timeFactor?_eq] at h
    exact lookup_bounds (by simp) h

/-- Volumes and times are converted faithfully: what is accepted differs from the exact amount by less than
0.51, and what is refused is by more than 0.49 out of the range of 32-bit words. An integer is accepted if and
only if its exact amount is such a word, and then it is converted exactly. -/
theorem amount_faithful {source : String} {ts : List Token} (htokens : tokens source = .ok ts)
    {digits : Token} (hmem : digits ∈ ts) (hdigits : digits.kind ∈ numberKinds)
    {factor? : TokenKind → Option Nat} (hfactor : factor? = volumeFactor? ∨ factor? = timeFactor?)
    {unit : Token} {k : Nat} (hunit : factor? unit.kind = some k) (rest : List Token) :
    ∃ v : Numeral, v.text = digits.text ∧ v.kind = digits.kind ∧
      (∀ n, amount factor? (digits :: unit :: rest) = .ok n →
        |(n.toNat : ℚ) - v.value * k| < 51 / 100 ∧
          (digits.kind = .integer → (n.toNat : ℚ) = v.value * k)) ∧
      (∀ fault, amount factor? (digits :: unit :: rest) = .error fault →
        fault = .valueOutOfRange digits.line digits.text ∧
          (v.value * k < -(49 / 100) ∨ 2 ^ 32 - 1 + 49 / 100 < v.value * k)) ∧
      (digits.kind = .integer →
        ((∃ n, amount factor? (digits :: unit :: rest) = .ok n) ↔
          0 ≤ v.value * k ∧ v.value * k ≤ 2 ^ 32 - 1)) := by
  obtain ⟨v, htext, hkind⟩ := exists_numeral_of_tokens htokens hmem hdigits
  obtain ⟨hpos, hle⟩ := factor_bounds hfactor hunit
  have hfaithful := v.faithful_wholeAmount? hpos hle
  rw [htext] at hfaithful
  rw [amount_eq, measured_of_fits hdigits, amountOf, hunit]
  refine ⟨v, htext, hkind, ?_⟩
  dsimp only
  cases hresult : wholeAmount? (Decimal.ofChars digits.text) k with
  | none =>
      have hfar : v.value * k < -(49 / 100) ∨ 2 ^ 32 - 1 + 49 / 100 < v.value * k := by
        rwa [hresult] at hfaithful
      refine ⟨?_, ?_, fun _ => iff_of_false ?_ ?_⟩
      · rintro n ⟨⟩
      · rintro fault ⟨⟩
        exact ⟨rfl, hfar⟩
      · rintro ⟨n, ⟨⟩⟩
      · rintro ⟨hlow, hhigh⟩
        rcases hfar with hfar | hfar <;> linarith
  | some n =>
      rw [hresult] at hfaithful
      obtain ⟨hclose, hexact⟩ := hfaithful
      rw [hkind] at hexact
      refine ⟨?_, ?_, fun hinteger => iff_of_true ⟨n, rfl⟩ ?_⟩
      · rintro _ ⟨⟩
        exact ⟨hclose, hexact⟩
      · rintro fault ⟨⟩
      · rw [← hexact hinteger]
        have hword : (n.toNat : ℚ) + 1 ≤ 2 ^ 32 := by exact_mod_cast n.toNat_lt
        exact ⟨Nat.cast_nonneg _, by linarith⟩

/-- Half an hour more than one is ninety minutes, in milliseconds. -/
theorem amount_faithful_of_half_hour :
    let digits : Token := ⟨.decimal, ['1', '.', '5'], 2⟩
    let unit : Token := ⟨.hours, ['h'], 2⟩
    (∃ ts, tokens "volume 20 L\nhold 65 C for 1.5 h" = .ok ts ∧ digits ∈ ts) ∧
      amount timeFactor? [digits, unit] = .ok 5400000 ∧
      ∃ v : Numeral, v.text = digits.text ∧ |5400000 - v.value * 3600000| < 51 / 100 := by
  intro digits unit
  let above : List Token := [⟨.mashVolume, "volume".toList, 1⟩, ⟨.integer, "20".toList, 1⟩,
    ⟨.litres, "L".toList, 1⟩, ⟨.hold, "hold".toList, 2⟩, ⟨.integer, "65".toList, 2⟩,
    ⟨.celsius, "C".toList, 2⟩, ⟨.duration, "for".toList, 2⟩]
  have htokens : tokens "volume 20 L\nhold 65 C for 1.5 h" = .ok (above ++ [digits, unit]) := by
    decide +kernel
  have hmem : digits ∈ above ++ [digits, unit] := List.mem_append_right above List.mem_cons_self
  have hunit : timeFactor? unit.kind = some 3600000 := rfl
  have hamount : amount timeFactor? [digits, unit] = .ok 5400000 := by decide +kernel
  obtain ⟨v, htext, -, hok, -⟩ := amount_faithful htokens hmem (by decide) (Or.inr rfl) hunit []
  exact ⟨⟨_, htokens, hmem⟩, hamount, v, htext, (hok _ hamount).1⟩

end Brewhouse.Recipe
