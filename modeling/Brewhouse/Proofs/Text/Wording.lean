import Brewhouse.Fault
import Brewhouse.Proofs.Text.Plain
import Brewhouse.Telemetry

/-!
The wording of tags, status lines and faults. All of it is plain text, whatever bytes and numbers are in
it, and the text of a fault is short.
-/

namespace Brewhouse

open Text

/-! ### Tags -/

theorem Tag.isPlain_hexDigit {n : UInt8} (hn : n.toNat < 16) : IsPlain (hexDigit n) := by
  have hall : ∀ n < 16, IsPlain (hexDigit (UInt8.ofNat n)) := by decide
  have hdigit := hall n.toNat hn
  rwa [UInt8.ofNat_toNat] at hdigit

theorem Tag.isPlain_visible {b : UInt8} (h : (0x21 ≤ b && b ≤ 0x7e) = true) :
    IsPlain (Char.ofNat b.toNat) := by
  have hall : ∀ n < 127, 33 ≤ n → IsPlain (Char.ofNat n) := by decide
  rw [Bool.and_eq_true, decide_eq_true_iff, decide_eq_true_iff] at h
  exact hall b.toNat (Nat.lt_succ_of_le h.2) h.1

/-- A byte of a tag is written in visible characters, whatever the byte is. -/
theorem Tag.plain_bytePieces (b : UInt8) : ∀ piece ∈ bytePieces b, Plain piece := by
  unfold bytePieces
  split
  · next hvisible =>
    exact List.forall_mem_singleton.mpr
      (plain_ofList (List.forall_mem_singleton.mpr (isPlain_visible hvisible)))
  · refine List.forall_mem_cons.mpr ⟨by decide, List.forall_mem_singleton.mpr (plain_ofList ?_)⟩
    have hhigh : (b / 16).toNat < 16 := by
      have hbyte := b.toNat_lt
      rw [UInt8.toNat_div]
      exact Nat.div_lt_of_lt_mul hbyte
    have hlow : (b % 16).toNat < 16 := by
      rw [UInt8.toNat_mod]
      exact Nat.mod_lt _ (by decide)
    exact List.forall_mem_cons.mpr
      ⟨isPlain_hexDigit hhigh, List.forall_mem_singleton.mpr (isPlain_hexDigit hlow)⟩

theorem Tag.plain_pieces (t : Tag) : ∀ piece ∈ t.pieces, Plain piece := by
  intro piece hpiece
  obtain ⟨b, -, hpiece⟩ := List.mem_flatMap.mp hpiece
  exact plain_bytePieces b piece hpiece

theorem Tag.length_bytePieces (b : UInt8) : (String.join (bytePieces b)).length ≤ 4 := by
  have hescape : "\\x".length = 2 := by decide
  unfold bytePieces
  split <;> simp [hescape]

/-- The text of a tag has at most twelve characters. -/
theorem Tag.length_text (t : Tag) : t.text.length ≤ 12 := by
  have hfirst := length_bytePieces t.first
  have hsecond := length_bytePieces t.second
  have hthird := length_bytePieces t.third
  unfold text pieces bytes
  simp only [List.flatMap_cons, List.flatMap_nil, String.length_join, List.map_append,
    List.sum_append, List.map_nil, List.sum_nil] at hfirst hsecond hthird ⊢
  omega

/-! ### Status lines -/

theorem Exact.Hundredths.plain_twoDigits (n : Nat) : Plain (twoDigits n) := by
  unfold twoDigits
  split
  · exact Plain.append (by decide) (plain_toString n)
  · exact plain_toString n

theorem Exact.Hundredths.plain_magnitudePieces (q : Rat) :
    ∀ piece ∈ magnitudePieces q, Plain piece := by
  unfold magnitudePieces
  dsimp only
  split
  · refine List.forall_mem_cons.mpr ⟨plain_toString _, List.forall_mem_cons.mpr ⟨by decide, ?_⟩⟩
    exact List.forall_mem_singleton.mpr (plain_twoDigits _)
  split
  · decide
  split
  · refine List.forall_mem_cons.mpr ⟨by decide, List.forall_mem_cons.mpr ⟨by decide, ?_⟩⟩
    exact List.forall_mem_singleton.mpr (plain_toString _)
  · exact List.forall_mem_cons.mpr ⟨by decide, List.forall_mem_singleton.mpr (plain_toString _)⟩

theorem Exact.Hundredths.plain_pieces (x : Float32) : ∀ piece ∈ pieces x, Plain piece := by
  unfold pieces
  split
  · decide
  have hsign : ∀ piece ∈ (if Single.isNegative x then ["-"] else []), Plain piece := by
    split <;> decide
  dsimp only
  split
  · exact List.forall_mem_append.mpr ⟨hsign, plain_magnitudePieces _⟩
  · exact List.forall_mem_append.mpr ⟨hsign, by decide⟩

namespace Telemetry

theorem plain_celsiusPieces (t? : Option Celsius) : ∀ piece ∈ celsiusPieces t?, Plain piece := by
  unfold celsiusPieces
  split
  · split
    · exact Exact.Hundredths.plain_pieces _
    · decide
  · decide

theorem plain_columns (t : Telemetry) : ∀ column ∈ t.columns, ∀ piece ∈ column, Plain piece := by
  have hphase : ∀ phase : Phase, Plain phase.name := by
    intro phase
    cases phase <;> decide
  have hswitch : ∀ on, Plain (switchWord on) := by decide
  have hlevel : ∀ full, Plain (levelDigit full) := by decide
  have hsingle : ∀ {text}, Plain text → ∀ piece ∈ [text], Plain piece :=
    List.forall_mem_singleton.mpr
  intro column hcolumn
  simp only [columns, List.mem_cons, List.not_mem_nil, or_false] at hcolumn
  rcases hcolumn with rfl | rfl | rfl | rfl | rfl | rfl | rfl | rfl | rfl | rfl | rfl | rfl
  · exact hsingle (hphase t.phase)
  · exact t.tag.plain_pieces
  · exact hsingle (plain_toString _)
  · exact hsingle (plain_toString _)
  · exact plain_celsiusPieces (some t.hlt)
  · exact plain_celsiusPieces (some t.mash)
  · exact plain_celsiusPieces t.setpoint
  · exact plain_celsiusPieces t.target
  · exact hsingle (plain_toString _)
  · exact hsingle (hswitch t.pumpOn)
  · exact hsingle (hlevel t.mashTunFull)
  · exact hsingle (hlevel t.kettleFull)

theorem plain_pieces (t : Telemetry) : ∀ piece ∈ t.pieces, Plain piece :=
  plain_intercalate (by decide) t.plain_columns

theorem plain_line (t : Telemetry) : Plain t.line :=
  plain_fit t.plain_pieces capacity

end Telemetry

/-! ### Faults -/

theorem SensorFault.plain_pieces (fault : SensorFault) : ∀ piece ∈ fault.pieces, Plain piece := by
  cases fault with
  | disconnected vessel => cases vessel <;> decide
  | unreadable vessel => cases vessel <;> decide

theorem ScriptFault.plain_pieces (fault : ScriptFault) : ∀ piece ∈ fault.pieces, Plain piece := by
  obtain ⟨tag⟩ := fault
  refine List.forall_mem_append.mpr ⟨List.forall_mem_append.mpr ⟨by decide, tag.plain_pieces⟩, ?_⟩
  decide

theorem SensorFault.length_message (fault : SensorFault) : fault.message.length ≤ 40 := by
  cases fault with
  | disconnected vessel => cases vessel <;> decide
  | unreadable vessel => cases vessel <;> decide

theorem ScriptFault.length_message (fault : ScriptFault) : fault.message.length ≤ 40 := by
  obtain ⟨tag⟩ := fault
  have htag := tag.length_text
  have hlead : "unknown command \"".length = 17 := by decide
  have hquote : "\"".length = 1 := by decide
  unfold Tag.text at htag
  unfold message pieces
  simp only [String.length_join, List.map_append, List.sum_append, List.map_cons, List.map_nil,
    List.sum_cons, List.sum_nil, hlead, hquote] at htag ⊢
  omega

end Brewhouse
