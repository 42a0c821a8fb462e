import Brewhouse.Telemetry
import Mathlib.Data.List.Basic

/-!
Plain texts: visible ASCII characters and spaces, so nothing that ends a line. A plain text is written in
one byte for each character, the code of the character.
-/

namespace Brewhouse.Text

/-- A character that is visible ASCII or a space. -/
def IsPlain (c : Char) : Prop :=
  32 ≤ c.toNat ∧ c.toNat ≤ 126

instance (c : Char) : Decidable (IsPlain c) :=
  inferInstanceAs (Decidable (_ ∧ _))

def Plain (text : String) : Prop :=
  ∀ c ∈ text.toList, IsPlain c

instance (text : String) : Decidable (Plain text) :=
  List.decidableBAll IsPlain text.toList

theorem plain_ofList {chars : List Char} (h : ∀ c ∈ chars, IsPlain c) : Plain (String.ofList chars) := by
  unfold Plain
  rwa [String.toList_ofList]

theorem Plain.append {text more : String} (h : Plain text) (hmore : Plain more) :
    Plain (text ++ more) := by
  unfold Plain
  rw [String.toList_append]
  exact List.forall_mem_append.mpr ⟨h, hmore⟩

theorem plain_join {pieces : List String} (h : ∀ piece ∈ pieces, Plain piece) :
    Plain (String.join pieces) := by
  intro c hc
  rw [String.toList_join] at hc
  obtain ⟨piece, hpiece, hc⟩ := List.mem_flatMap.mp hc
  exact h piece hpiece c hc

theorem plain_intercalate {separators : List String} {parts : List (List String)}
    (h : ∀ piece ∈ separators, Plain piece) (hparts : ∀ part ∈ parts, ∀ piece ∈ part, Plain piece) :
    ∀ piece ∈ separators.intercalate parts, Plain piece := by
  induction parts with
  | nil => exact List.forall_mem_nil _
  | cons part parts ih =>
      obtain ⟨hpart, hparts⟩ := List.forall_mem_cons.mp hparts
      cases parts with
      | nil =>
          rw [List.intercalate_singleton]
          exact hpart
      | cons next parts =>
          rw [List.intercalate_cons_cons]
          exact List.forall_mem_append.mpr ⟨List.forall_mem_append.mpr ⟨hpart, h⟩, ih hparts⟩

theorem plain_fit {pieces : List String} (h : ∀ piece ∈ pieces, Plain piece) (room : Nat) :
    Plain (fit room pieces) := by
  induction pieces generalizing room with
  | nil =>
      rw [fit]
      decide
  | cons piece pieces ih =>
      obtain ⟨hpiece, hpieces⟩ := List.forall_mem_cons.mp h
      rw [fit]
      split
      · exact hpiece.append (ih hpieces _)
      · decide

theorem plain_toString (n : Nat) : Plain (toString n) := by
  rw [Nat.toString_eq_ofList_toDigits]
  refine plain_ofList fun c hc => ?_
  have hdigit := Nat.isDigit_of_mem_toDigits (by decide) (by decide) hc
  obtain ⟨hlow, hhigh⟩ := Char.isDigit_iff_toNat.mp hdigit
  exact ⟨Nat.le_trans (by decide) hlow, Nat.le_trans hhigh (by decide)⟩

/-! ### Bytes -/

theorem toList_loop_eq (bytes : ByteArray) (i : Nat) (before : List UInt8) :
    ByteArray.toList.loop bytes i before = before.reverse ++ bytes.data.toList.drop i := by
  fun_induction ByteArray.toList.loop bytes i before with
  | case1 i before hi ih =>
      have hget : bytes.get! i = bytes.data.toList[i] := getElem!_pos bytes.data i hi
      rw [ih, List.drop_eq_getElem_cons (i := i) hi, List.reverse_cons, List.append_assoc, hget]
      rfl
  | case2 i before hi =>
      rw [List.drop_eq_nil_of_le (Nat.le_of_not_lt hi), List.append_nil]

theorem toList_eq (bytes : ByteArray) : bytes.toList = bytes.data.toList := by
  rw [ByteArray.toList, toList_loop_eq]
  rfl

theorem IsPlain.encode {c : Char} (h : IsPlain c) : String.utf8EncodeChar c = [c.val.toUInt8] :=
  String.utf8EncodeChar_eq_singleton (Char.utf8Size_eq_one_iff.mpr (Nat.le_trans h.2 (by decide)))

/-- A plain text is written in one byte for each character. -/
theorem Plain.bytes_eq {text : String} (h : Plain text) :
    text.toUTF8.toList = text.toList.map fun c => c.val.toUInt8 := by
  rw [toList_eq, String.toUTF8_eq_toByteArray, ← String.utf8Encode_toList, List.utf8Encode,
    List.toList_data_toByteArray, ← List.flatMap_pure_eq_map]
  exact List.flatMap_congr fun c hc => (h c hc).encode

theorem Plain.utf8ByteSize_eq {text : String} (h : Plain text) : text.utf8ByteSize = text.length := by
  have hlength := congrArg List.length h.bytes_eq
  rwa [toList_eq, List.length_map, String.length_toList] at hlength

theorem Plain.of_mem_bytes {text : String} (h : Plain text) {byte : UInt8}
    (hbyte : byte ∈ text.toUTF8.toList) : 32 ≤ byte.toNat ∧ byte.toNat ≤ 126 := by
  rw [h.bytes_eq] at hbyte
  obtain ⟨c, hc, rfl⟩ := List.mem_map.mp hbyte
  obtain ⟨hlow, hhigh⟩ := h c hc
  have hbyte : c.val.toUInt8.toNat = c.toNat := Nat.mod_eq_of_lt (Nat.lt_of_le_of_lt hhigh (by decide))
  rw [hbyte]
  exact ⟨hlow, hhigh⟩

/-! ### Room on a line -/

theorem fit_eq_join {room : Nat} {pieces : List String}
    (h : (String.join pieces).utf8ByteSize ≤ room) : fit room pieces = String.join pieces := by
  induction pieces generalizing room with
  | nil => rfl
  | cons piece pieces ih =>
      rw [String.join_cons, String.utf8ByteSize_append] at h
      rw [fit, if_pos (by omega), ih (by omega), String.join_cons]

theorem utf8ByteSize_fit (room : Nat) (pieces : List String) :
    (fit room pieces).utf8ByteSize ≤ room := by
  induction pieces generalizing room with
  | nil =>
      rw [fit]
      exact Nat.zero_le room
  | cons piece pieces ih =>
      rw [fit]
      split
      · have hrest := ih (room - piece.utf8ByteSize)
        rw [String.utf8ByteSize_append]
        omega
      · exact Nat.zero_le room

/-- What fits begins the whole text. -/
theorem exists_fit_append (room : Nat) (pieces : List String) :
    ∃ rest, String.join pieces = fit room pieces ++ rest := by
  induction pieces generalizing room with
  | nil => exact ⟨"", rfl⟩
  | cons piece pieces ih =>
      rw [fit]
      split
      · obtain ⟨rest, hrest⟩ := ih (room - piece.utf8ByteSize)
        exact ⟨rest, by rw [String.join_cons, hrest, String.append_assoc]⟩
      · exact ⟨String.join (piece :: pieces), String.empty_append.symm⟩

theorem fit_eq_join_iff (room : Nat) (pieces : List String) :
    fit room pieces = String.join pieces ↔ (String.join pieces).utf8ByteSize ≤ room :=
  ⟨fun h => h ▸ utf8ByteSize_fit room pieces, fit_eq_join⟩

/-- Texts joined with a separator between them. -/
theorem join_intercalate (separator : String) (parts : List (List String)) :
    String.join ([separator].intercalate parts) = separator.intercalate (parts.map String.join) := by
  induction parts with
  | nil => rfl
  | cons part parts ih =>
      cases parts with
      | nil => simp
      | cons next parts =>
          rw [List.intercalate_cons_cons, List.map_cons, List.map_cons, String.intercalate_cons_cons]
          rw [List.map_cons] at ih
          simp [ih, String.append_assoc]

end Brewhouse.Text
