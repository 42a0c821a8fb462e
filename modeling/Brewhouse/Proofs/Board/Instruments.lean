import Brewhouse.Board.Station
import Mathlib.Tactic.Common

/-!
What the instruments do to the relays: nothing. The converters and the float switches have pins of their
own, so a relation of boards that looks at the relays only holds between a board and the board after a
reading, whether the reading succeeds or not.
-/

namespace Brewhouse

variable {β : Type} [Board β]

/-- A relation of board states that looks at the relays only: a call on another pin and a delay keep it. -/
structure Board.RelaysOnly (R : β → β → Prop) : Prop where
  refl (b : β) : R b b
  trans {b b' b'' : β} (h : R b b') (h' : R b' b'') : R b b''
  write (pin : OutputPin) (high : Bool) (b : β) (hpin : ∀ load, pin ≠ .relay load) :
    R b (Board.write pin high b).2
  read (pin : InputPin) (b : β) : R b (Board.read pin b).2
  delay (what : Waiting) (time : Milliseconds) (b : β) : R b (Board.delay what time b)

namespace Board.RelaysOnly

variable {R : β → β → Prop}

theorem of_write (h : RelaysOnly R) {pin : OutputPin} {high done : Bool} {b b' : β}
    (hpin : ∀ load, pin ≠ .relay load) (hwrite : Board.write pin high b = (done, b')) : R b b' := by
  have hkept := h.write pin high b hpin
  rwa [hwrite] at hkept

theorem of_read (h : RelaysOnly R) {pin : InputPin} {bit : Option Bool} {b b' : β}
    (hread : Board.read pin b = (bit, b')) : R b b' := by
  have hkept := h.read pin b
  rwa [hread] at hkept

theorem shiftBit (h : RelaysOnly R) (vessel : Vessel) (b : β) :
    R b (Thermocouple.shiftBit vessel b).2 := by
  have hclock : ∀ load, OutputPin.clock vessel ≠ .relay load := by simp
  have hhalf (b : β) : R b (Thermocouple.halfPeriod vessel b) := h.delay _ _ b
  unfold Thermocouple.shiftBit
  split
  · next hlow => exact h.of_write hclock hlow
  · next hlow =>
    have hwaited := h.trans (h.of_write hclock hlow) (hhalf _)
    split
    · next hread => exact h.trans hwaited (h.of_read hread)
    · next hread =>
      have hsampled := h.trans hwaited (h.of_read hread)
      split
      · next hhigh => exact h.trans hsampled (h.of_write hclock hhigh)
      · next hhigh => exact h.trans (h.trans hsampled (h.of_write hclock hhigh)) (hhalf _)

theorem shiftIn (h : RelaysOnly R) (vessel : Vessel) (count : Nat) (frame : UInt16) (b : β) :
    R b (Thermocouple.shiftIn vessel count frame b).2 := by
  induction count generalizing frame b with
  | zero => exact h.refl b
  | succ count ih =>
      have hbit := h.shiftBit vessel b
      unfold Thermocouple.shiftIn
      split
      · next hshift => rwa [hshift] at hbit
      · next hshift =>
        rw [hshift] at hbit
        exact h.trans hbit (ih _ _)

theorem readFrame (h : RelaysOnly R) (vessel : Vessel) (b : β) :
    R b (Thermocouple.readFrame vessel b).2 := by
  have hselect : ∀ load, OutputPin.select vessel ≠ .relay load := by simp
  unfold Thermocouple.readFrame
  split
  · next hlow => exact h.of_write hselect hlow
  · next b₁ hlow =>
    have hselected := h.trans (h.of_write hselect hlow) (h.delay (.clock vessel) 1 b₁)
    have hshifted := h.trans hselected (h.shiftIn vessel 16 0 _)
    have hreleased := h.trans hshifted (h.write (.select vessel) true _ hselect)
    dsimp only
    split <;> exact hreleased

theorem readCelsius (h : RelaysOnly R) (vessel : Vessel) (b : β) :
    R b (Thermocouple.readCelsius vessel b).2 := by
  have hframe := h.readFrame vessel b
  unfold Thermocouple.readCelsius
  split <;> next hread => rwa [hread] at hframe

theorem readLevel (h : RelaysOnly R) (f : FloatSensor) (b : β) : R b (f.read b).value.2 := by
  unfold FloatSensor.read
  split <;> next hread => exact h.of_read hread

end Board.RelaysOnly

end Brewhouse
