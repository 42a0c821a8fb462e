import Brewhouse.Exact.Binary
import Mathlib

/-!
Words. A sum of words is the sum of the numbers, or the largest word. Words and their four bytes
determine each other: no word is lost on the wire, and every four bytes are the bytes of the word they
are read as.
-/

namespace Brewhouse.Exact.Word

/-! ### Sums -/

theorem toNat_saturatingAdd (a b : UInt32) :
    (saturatingAdd a b).toNat = min (a.toNat + b.toNat) 4294967295 := by
  have ha := a.toNat_lt
  have hb := b.toNat_lt
  rw [saturatingAdd]
  split
  · rw [UInt32.toNat_add]
    omega
  · change 4294967295 = _
    omega

/-- Once the largest word is reached, what is added to it is lost; so the order does not matter. -/
theorem toNat_foldl_saturatingAdd (words : List UInt32) (start : UInt32) :
    (words.foldl saturatingAdd start).toNat =
      min (start.toNat + (words.map UInt32.toNat).sum) 4294967295 := by
  induction words generalizing start with
  | nil =>
      have hstart := start.toNat_lt
      simp only [List.foldl_nil, List.map_nil, List.sum_nil]
      omega
  | cons word rest ih =>
      rw [List.foldl_cons, ih, toNat_saturatingAdd, List.map_cons, List.sum_cons]
      omega

/-! ### Bytes -/

@[simp]
theorem length_bytes (w : UInt32) : (bytes w).length = 4 := rfl

theorem toNat_ofBytes (a b c d : UInt8) :
    (ofBytes [a, b, c, d]).toNat =
      a.toNat + 256 * b.toNat + 65536 * c.toNat + 16777216 * d.toNat := by
  have ha := a.toNat_lt
  have hb := b.toNat_lt
  have hc := c.toNat_lt
  have hd := d.toNat_lt
  simp only [ofBytes, List.foldr_cons, List.foldr_nil, UInt32.toNat_add, UInt32.toNat_mul,
    UInt8.toNat_toUInt32, UInt32.reduceToNat]
  omega

/-- The bytes as digits in base 256. -/
theorem map_toNat_bytes (w : UInt32) :
    (bytes w).map UInt8.toNat =
      [w.toNat % 256, w.toNat / 256 % 256, w.toNat / 65536 % 256, w.toNat / 16777216 % 256] := by
  simp only [bytes, List.map_cons, List.map_nil, UInt32.toNat_toUInt8, UInt32.toNat_shiftRight,
    UInt32.reduceToNat, Nat.shiftRight_eq_div_pow, Nat.reduceMod, Nat.reducePow]

@[simp]
theorem ofBytes_bytes (w : UInt32) : ofBytes (bytes w) = w := by
  have hw := w.toNat_lt
  have hdigits := map_toNat_bytes w
  simp only [bytes, List.map_cons, List.map_nil, List.cons.injEq, and_true] at hdigits
  obtain ⟨h₀, h₁, h₂, h₃⟩ := hdigits
  apply UInt32.toNat_inj.mp
  rw [bytes, toNat_ofBytes, h₀, h₁, h₂, h₃]
  omega

theorem bytes_ofBytes {field : List UInt8} (hfield : field.length = 4) :
    bytes (ofBytes field) = field := by
  obtain ⟨a, b, c, d, rfl⟩ : ∃ a b c d, field = [a, b, c, d] := by
    match field, hfield with
    | [a, b, c, d], _ => exact ⟨a, b, c, d, rfl⟩
  have ha := a.toNat_lt
  have hb := b.toNat_lt
  have hc := c.toNat_lt
  have hd := d.toNat_lt
  apply (List.map_inj_right fun _ _ => UInt8.toNat_inj.mp).mp
  rw [map_toNat_bytes, toNat_ofBytes]
  simp only [List.map_cons, List.map_nil, List.cons.injEq, and_true]
  refine ⟨?_, ?_, ?_, ?_⟩ <;> omega

theorem bytes_injective {v w : UInt32} (h : bytes v = bytes w) : v = w := by
  rw [← ofBytes_bytes v, h, ofBytes_bytes]

end Brewhouse.Exact.Word
