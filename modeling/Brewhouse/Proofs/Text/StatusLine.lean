import Brewhouse.Proofs.Exact.Pattern
import Brewhouse.Proofs.Text.Wording

/-!
Status lines. A line is the beginning of the report's text that there is room for, and there is room for all
of it unless a temperature is enormous or the tag is not made of visible characters. A line with all of the
text comes apart at its commas into the twelve fields of the report.
-/

namespace Brewhouse

open Text Exact

/-! ### Fields -/

/-- A text of at most `width` characters, none of which is a comma. -/
structure IsField (width : ℕ) (text : String) : Prop where
  comma_not_mem : ',' ∉ text.toList
  length_le : text.length ≤ width

instance (width : ℕ) (text : String) : Decidable (IsField width text) :=
  decidable_of_iff (',' ∉ text.toList ∧ text.length ≤ width)
    ⟨fun h => ⟨h.1, h.2⟩, fun h => ⟨h.comma_not_mem, h.length_le⟩⟩

theorem IsField.append {width more : ℕ} {text rest : String} (h : IsField width text)
    (hrest : IsField more rest) : IsField (width + more) (text ++ rest) where
  comma_not_mem := by
    rw [String.toList_append, List.mem_append, not_or]
    exact ⟨h.comma_not_mem, hrest.comma_not_mem⟩
  length_le := by
    rw [String.length_append]
    exact Nat.add_le_add h.length_le hrest.length_le

theorem isField_toString {n width : ℕ} (hpos : 0 < width) (h : n < 10 ^ width) :
    IsField width (toString n) where
  comma_not_mem := by
    rw [Nat.toString_eq_ofList_toDigits, String.toList_ofList]
    intro hmem
    exact absurd (Nat.isDigit_of_mem_toDigits (by decide) (by decide) hmem) (by decide)
  length_le := Nat.repr_length n width hpos h

theorem isField_word (n : UInt32) : IsField 10 (toString n.toNat) :=
  isField_toString (by decide) (n.toNat_lt.trans (by decide))

/-- The length of fields between commas. -/
theorem length_intercalate_le {widths : List ℕ} {fields : List String}
    (h : List.Forall₂ IsField widths fields) :
    (",".intercalate fields).length ≤ widths.sum + fields.length := by
  have hcomma : ",".length = 1 := by decide
  induction h with
  | nil => exact Nat.zero_le _
  | cons hfield hfields ih =>
      have hlength := hfield.length_le
      cases hfields with
      | nil =>
          rw [String.intercalate_singleton, List.sum_cons]
          omega
      | cons _ _ =>
          rw [String.intercalate_cons_cons, String.length_append, String.length_append, hcomma,
            List.sum_cons, List.length_cons]
          omega

/-- Fields between commas come apart at the commas. -/
theorem splitOn_intercalate_fields {widths : List ℕ} {fields : List String}
    (h : List.Forall₂ IsField widths fields) (hne : fields ≠ []) :
    (",".intercalate fields).toList.splitOn ',' = fields.map String.toList := by
  have hfree : ∀ field ∈ fields, ',' ∉ field.toList := by
    clear hne
    induction h with
    | nil => exact List.forall_mem_nil _
    | cons hfield _ ih => exact List.forall_mem_cons.mpr ⟨hfield.comma_not_mem, ih⟩
  rw [String.toList_intercalate]
  exact List.splitOn_intercalate ',' (List.forall_mem_map.mpr hfree) (mt List.map_eq_nil_iff.mp hne)

/-! ### Tags -/

def Tag.visibleText (t : Tag) : String :=
  String.ofList (t.bytes.map fun b => Char.ofNat b.toNat)

/-- A tag of three visible characters other than the comma. -/
def Tag.Visible (t : Tag) : Prop :=
  ∀ b ∈ t.bytes, 0x21 ≤ b ∧ b ≤ 0x7e ∧ b ≠ 0x2c

instance (t : Tag) : Decidable t.Visible :=
  List.decidableBAll (fun b => 0x21 ≤ b ∧ b ≤ 0x7e ∧ b ≠ 0x2c) t.bytes

theorem Tag.Visible.text_eq {t : Tag} (h : t.Visible) : t.text = t.visibleText := by
  have hpiece : ∀ b ∈ t.bytes, bytePieces b = [String.singleton (Char.ofNat b.toNat)] := by
    intro b hb
    obtain ⟨hlow, hhigh, -⟩ := h b hb
    exact if_pos (by simp [hlow, hhigh])
  rw [text, pieces, List.flatMap_congr hpiece, visibleText, ← String.toList_inj, String.toList_join,
    String.toList_ofList]
  rw [List.flatMap_assoc, ← List.flatMap_pure_eq_map]
  exact List.flatMap_congr fun b _ => by simp

theorem Tag.Visible.isField {t : Tag} (h : t.Visible) : IsField 3 t.visibleText where
  comma_not_mem := by
    rw [visibleText, String.toList_ofList]
    intro hmem
    obtain ⟨b, hb, hcomma⟩ := List.mem_map.mp hmem
    obtain ⟨-, hhigh, hne⟩ := h b hb
    have hall : ∀ n < 127, Char.ofNat n = ',' → n = 44 := by decide
    exact hne (UInt8.toNat_inj.mp (hall b.toNat (Nat.lt_succ_of_le hhigh) hcomma))
  length_le := by
    rw [visibleText, String.length_ofList, List.length_map]
    exact Nat.le_refl 3

/-! ### Temperatures -/

/-- A number of hundredths in decimal digits, two of them after the point. -/
def Exact.Hundredths.decimal (hundredths : ℕ) : String :=
  toString (hundredths / 100) ++ "." ++ toString (hundredths % 100 / 10) ++ toString (hundredths % 10)

theorem Exact.Hundredths.twoDigits_eq {n : ℕ} (h : n < 100) :
    twoDigits n = toString (n / 10) ++ toString (n % 10) := by
  have hall : ∀ n < 100, twoDigits n = toString (n / 10) ++ toString (n % 10) := by decide
  exact hall n h

theorem Exact.Hundredths.decimal_eq (hundredths : ℕ) :
    decimal hundredths = toString (hundredths / 100) ++ ("." ++ twoDigits (hundredths % 100)) := by
  rw [twoDigits_eq (Nat.mod_lt _ (by decide)), Nat.mod_mod_of_dvd _ (by decide : 10 ∣ 100), decimal,
    String.append_assoc, String.append_assoc]

/-- The pieces make up the number of hundredths that is nearest to the magnitude. -/
theorem Exact.Hundredths.join_magnitudePieces (q : ℚ) :
    String.join (magnitudePieces q) = decimal (nearestEven (q * 100)).toNat := by
  rw [decimal_eq]
  unfold magnitudePieces
  generalize (nearestEven (q * 100)).toNat = hundredths
  dsimp only
  have hlead (h : ¬0 < hundredths / 100) : toString (hundredths / 100) ++ "." = "0." := by
    rw [Nat.eq_zero_of_not_pos h]
    rfl
  split_ifs with hwhole hrest hdigit
  · simp
  · rw [← String.append_assoc, hlead hwhole, hrest]
    rfl
  · rw [← String.append_assoc, hlead hwhole, twoDigits, if_pos hdigit]
    simp
  · rw [← String.append_assoc, hlead hwhole, twoDigits, if_neg hdigit]
    simp

theorem Exact.Hundredths.isField_decimal {hundredths : ℕ} (h : hundredths < 10 ^ 12) :
    IsField 13 (decimal hundredths) := by
  have hdigit {n : ℕ} (hn : n < 10) : IsField 1 (toString n) := isField_toString (by decide) hn
  have hwhole : IsField 10 (toString (hundredths / 100)) := isField_toString (by decide) (by omega)
  have hpoint : IsField 1 "." := by decide
  exact ((hwhole.append hpoint).append (hdigit (by omega))).append (hdigit (by omega))

/-- The text of a finite number: its sign and the number of hundredths that is nearest to it. -/
theorem Exact.Hundredths.join_pieces {x : Float32} (h : x.isFinite = true) :
    String.join (pieces x) = (if Single.isNegative x then "-" else "") ++
      decimal (nearestEven (|Single.value x| * 100)).toNat := by
  unfold pieces
  rw [Single.isNaN_of_isFinite h, if_neg Bool.false_ne_true, Single.magnitude?_eq, if_pos h]
  dsimp only
  rw [← join_magnitudePieces]
  split <;> simp

namespace Telemetry

/-- The text of a temperature: the nearest number of hundredths with the sign of the temperature, or `N/A` if
the temperature is missing or not finite. -/
def celsiusText : Option Celsius → String
  | some t =>
    if t.isFinite then
      (if Single.isNegative t then "-" else "") ++
        Hundredths.decimal (nearestEven (|Single.value t| * 100)).toNat
    else "N/A"
  | none => "N/A"

theorem join_celsiusPieces (t? : Option Celsius) : String.join (celsiusPieces t?) = celsiusText t? := by
  cases t? with
  | none => rfl
  | some t =>
      rw [celsiusPieces, celsiusText]
      split
      · next hfinite => exact Hundredths.join_pieces hfinite
      · rfl

/-- A temperature that is missing, not finite or below 10 ^ 9 in magnitude. -/
def Moderate (t? : Option Celsius) : Prop :=
  ∀ t ∈ t?, t.isFinite = true → |Single.value t| < 10 ^ 9

instance (t? : Option Celsius) : Decidable (Moderate t?) :=
  inferInstanceAs (Decidable (∀ t ∈ t?, t.isFinite = true → |Single.value t| < 10 ^ 9))

theorem Moderate.isField {t? : Option Celsius} (h : Moderate t?) : IsField 14 (celsiusText t?) := by
  have hmissing : IsField 14 "N/A" := by decide
  unfold celsiusText
  split
  · next t =>
    split
    · next hfinite =>
      have hsign : IsField 1 (if Single.isNegative t then "-" else "") := by split <;> decide
      have hnearest : nearestEven (|Single.value t| * 100) ≤ (10 ^ 11 : ℤ) := by
        rw [← nearestEven_intCast (10 ^ 11)]
        have hsmall := h t rfl hfinite
        exact monotone_nearestEven (by push_cast; linarith)
      exact hsign.append (Hundredths.isField_decimal (by omega))
    · exact hmissing
  · exact hmissing

/-! ### The line -/

/-- The twelve fields of a report. -/
def fields (t : Telemetry) : List String :=
  [t.phase.name, t.tag.visibleText, toString t.elapsedInInterval.toNat, toString t.intervalDuration.toNat,
    celsiusText (some t.hlt), celsiusText (some t.mash), celsiusText t.setpoint, celsiusText t.target,
    toString t.heaterOn.toNat, switchWord t.pumpOn, levelDigit t.mashTunFull, levelDigit t.kettleFull]

/-- A report with a visible tag and temperatures that are not enormous. -/
structure Ordinary (t : Telemetry) : Prop where
  tag : t.tag.Visible
  hlt : Moderate (some t.hlt)
  mash : Moderate (some t.mash)
  setpoint : Moderate t.setpoint
  target : Moderate t.target

theorem text_eq_fields {t : Telemetry} (h : t.tag.Visible) : t.text = ",".intercalate t.fields := by
  have hsingle (field : String) : String.join [field] = field := by simp
  rw [text, pieces, join_intercalate]
  simp only [columns, fields, List.map_cons, List.map_nil, hsingle, join_celsiusPieces, ← h.text_eq]
  rfl

theorem Ordinary.isField {t : Telemetry} (h : t.Ordinary) :
    List.Forall₂ IsField [12, 3, 10, 10, 14, 14, 14, 14, 10, 3, 1, 1] t.fields := by
  have hphase (phase : Phase) : IsField 12 phase.name := by cases phase <;> decide
  have hswitch : ∀ on, IsField 3 (switchWord on) := by decide
  have hlevel : ∀ full, IsField 1 (levelDigit full) := by decide
  exact .cons (hphase t.phase) <| .cons h.tag.isField <| .cons (isField_word t.elapsedInInterval) <|
    .cons (isField_word t.intervalDuration) <| .cons h.hlt.isField <| .cons h.mash.isField <|
    .cons h.setpoint.isField <| .cons h.target.isField <| .cons (isField_word t.heaterOn) <|
    .cons (hswitch t.pumpOn) <| .cons (hlevel t.mashTunFull) <| .cons (hlevel t.kettleFull) .nil

/-- A report with a temperature just below zero, one halfway between two hundredths and one that is missing. -/
def atFrost : Telemetry where
  phase := .initialising
  tag := .ofChars 'H' 'L' 'D'
  elapsedInInterval := 0
  intervalDuration := 4294967295
  hlt := -0.004
  mash := 21.625
  setpoint := some 65
  target := none
  heaterOn := 1000
  pumpOn := true
  mashTunFull := false
  kettleFull := true

end Telemetry

end Brewhouse
