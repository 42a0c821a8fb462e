import Brewhouse.Proofs.Board.Instruments

/-!
The relays of a station on a board whose relay pins never fail. Both are off once the station has
switched everything off, and reading the instruments or letting time pass leaves them as they are.
-/

namespace Brewhouse

/-! ### Relays and stations on any board -/

namespace Relay

variable {β : Type} [Board β]

/-- Switching is one write, whatever comes of it. -/
theorem value_set (r : Relay) (on : Bool) (b : β) :
    (r.set on b).value.1.load = r.load ∧
      (r.set on b).value.2 = (Board.write (.relay r.load) on b).2 := by
  unfold set
  split <;> next hwrite => exact ⟨rfl, by rw [hwrite]⟩

theorem value_install (load : Load) (b : β) :
    (install load b).value = (⟨load, false⟩, (Board.write (.relay load) false b).2) := by
  unfold install
  split <;> next hwrite => rw [hwrite]

end Relay

namespace Station

variable {β : Type}

/-- Each relay of the station switches the load it is named for. -/
structure Wired (s : Station β) : Prop where
  heater : s.heater.load = .heater
  pump : s.pump.load = .pump

variable [Board β]

theorem setLoad_wired {s : Station β} (hs : s.Wired) (load : Load) (on : Bool) :
    (s.setLoad load on).value.Wired ∧
      (s.setLoad load on).value.board = (Board.write (.relay load) on s.board).2 := by
  cases load with
  | heater =>
      obtain ⟨hload, hboard⟩ := s.heater.value_set on s.board
      rw [hs.heater] at hload hboard
      exact ⟨⟨hload, hs.pump⟩, hboard⟩
  | pump =>
      obtain ⟨hload, hboard⟩ := s.pump.value_set on s.board
      rw [hs.pump] at hload hboard
      exact ⟨⟨hs.heater, hload⟩, hboard⟩

theorem setHeater_wired {s : Station β} (hs : s.Wired) (duty : Control.HeaterDuty) :
    (s.setHeater duty).value.Wired := by
  have hswitch (s : Station β) (hs : s.Wired) (on : Bool) (time : Milliseconds) :
      ((s.setLoad .heater on).value.waitInWindow time).Wired := by
    obtain ⟨hheater, hpump⟩ := (setLoad_wired hs .heater on).1
    exact ⟨hheater, hpump⟩
  have hfirst : (if 0 < duty.on then (s.setLoad .heater true).value.waitInWindow duty.on
      else s).Wired := by
    split
    · exact hswitch s hs true duty.on
    · exact hs
  rw [setHeater]
  by_cases hon : 0 < duty.on <;> by_cases hoff : 0 < duty.off ∨ duty.isOff = true <;>
    simp only [hon, hoff, if_true, if_false] at hfirst ⊢
  · exact hswitch _ hfirst false duty.off
  · exact hfirst
  · exact hswitch _ hfirst false duty.off
  · exact hfirst

/-- Installing is one write to each relay, after the converters have been released. -/
theorem value_install (b : β) :
    (install b).value =
      ⟨(Board.write (.relay .pump) false (Board.write (.relay .heater) false
          (Thermocouple.release .mashTun (Thermocouple.release .hotLiquor b))).2).2,
        .fresh .mashTun, .fresh .kettle, ⟨.heater, false⟩, ⟨.pump, false⟩⟩ := by
  simp only [install, bind, pure, Relay.value_install]

end Station

/-! ### Boards without faults -/

/-- A board whose relay pins never fail. The pin of a relay shows what was written to it last, and no
call on another pin changes it. -/
class RelayBoard (β : Type) extends Board β where
  /-- Whether the pin of a relay is driven high. -/
  level : Load → β → Bool
  write_relay (load : Load) (on : Bool) (b : β) : ∃ b', write (.relay load) on b = (true, b') ∧
    level load b' = on ∧ ∀ other, other ≠ load → level other b' = level other b
  level_write (pin : OutputPin) (high : Bool) (b : β) (hpin : ∀ load, pin ≠ .relay load)
    (load : Load) : level load (write pin high b).2 = level load b
  level_read (pin : InputPin) (b : β) (load : Load) : level load (read pin b).2 = level load b
  level_delay (what : Waiting) (time : Milliseconds) (b : β) (load : Load) :
    level load (delay what time b) = level load b

namespace RelayBoard

variable {β : Type} [RelayBoard β]

def Alike (b b' : β) : Prop :=
  ∀ load, level load b' = level load b

theorem relaysOnly_alike : Board.RelaysOnly (Alike : β → β → Prop) where
  refl _ _ := rfl
  trans h h' load := (h' load).trans (h load)
  write pin high b hpin := level_write pin high b hpin
  read := level_read
  delay := level_delay

/-! ### Relays without faults -/

/-- A relay that is told to switch does so, and the other one stays as it is. -/
theorem set_spec (r : Relay) (on : Bool) (b : β) : ∃ b',
    (r.set on b).value = ({ r with isOn := on }, b') ∧
      ∀ load, level load b' = if load = r.load then on else level load b := by
  obtain ⟨b', hwrite, hself, hother⟩ := write_relay r.load on b
  refine ⟨b', ?_, fun load => ?_⟩
  · rw [Relay.set, hwrite]
  · split
    · next heq => rw [heq, hself]
    · next hne => exact hother load hne

end RelayBoard

/-! ### Stations without faults -/

namespace Station

variable {β : Type} [RelayBoard β]

open RelayBoard

/-- Both relays are off: they were told so last, and their pins are driven low. -/
structure RelaysOff (s : Station β) : Prop where
  heater : s.heater.isOn = false
  pump : s.pump.isOn = false
  level : ∀ load, RelayBoard.level load s.board = false

/-- The relays were told the same last and their pins are driven alike. -/
structure SameRelays (s s' : Station β) : Prop where
  heater : s'.heater = s.heater
  pump : s'.pump = s.pump
  board : Alike s.board s'.board

theorem RelaysOff.of_same {s s' : Station β} (h : s.RelaysOff) (hsame : s.SameRelays s') :
    s'.RelaysOff :=
  ⟨by rw [hsame.heater, h.heater], by rw [hsame.pump, h.pump],
    fun load => (hsame.board load).trans (h.level load)⟩

theorem same_readTemperature (s : Station β) (vessel : Vessel) :
    s.SameRelays (s.readTemperature vessel).2 :=
  ⟨rfl, rfl, relaysOnly_alike.readCelsius vessel s.board⟩

theorem same_readLevel (s : Station β) (switch : FloatSwitch) :
    s.SameRelays (s.readLevel switch).value.2 := by
  cases switch with
  | mashTun => exact ⟨rfl, rfl, relaysOnly_alike.readLevel s.mashTun s.board⟩
  | kettle => exact ⟨rfl, rfl, relaysOnly_alike.readLevel s.kettle s.board⟩

/-- A load that is switched is on or off as told, and the other one stays as it is. -/
theorem setLoad_spec {s : Station β} (hs : s.Wired) (load : Load) (on : Bool) :
    (s.setLoad load on).value.Wired ∧
      (s.setLoad load on).value.heater.isOn = (if load = .heater then on else s.heater.isOn) ∧
      (s.setLoad load on).value.pump.isOn = (if load = .pump then on else s.pump.isOn) ∧
      ∀ other, level other (s.setLoad load on).value.board =
        if other = load then on else level other s.board := by
  cases load with
  | heater =>
      obtain ⟨b, hset, hlevel⟩ := set_spec s.heater on s.board
      have hvalue : (s.setLoad .heater on).value =
          { s with heater := (s.heater.set on s.board).value.1
                   board := (s.heater.set on s.board).value.2 } := rfl
      rw [hs.heater] at hlevel
      rw [hvalue, hset]
      exact ⟨⟨hs.heater, hs.pump⟩, rfl, rfl, hlevel⟩
  | pump =>
      obtain ⟨b, hset, hlevel⟩ := set_spec s.pump on s.board
      have hvalue : (s.setLoad .pump on).value =
          { s with pump := (s.pump.set on s.board).value.1
                   board := (s.pump.set on s.board).value.2 } := rfl
      rw [hs.pump] at hlevel
      rw [hvalue, hset]
      exact ⟨⟨hs.heater, hs.pump⟩, rfl, rfl, hlevel⟩

theorem allOff_spec {s : Station β} (hs : s.Wired) :
    s.allOff.value.Wired ∧ s.allOff.value.RelaysOff := by
  obtain ⟨hwired, hheater, -, hlevel⟩ := setLoad_spec hs .heater false
  obtain ⟨hwired', hheater', hpump', hlevel'⟩ := setLoad_spec hwired .pump false
  refine ⟨hwired', hheater'.trans hheater, hpump', fun load => ?_⟩
  cases load with
  | heater => exact (hlevel' .heater).trans (hlevel .heater)
  | pump => exact hlevel' .pump

/-- A station that has just been installed is wired and has its relays off. -/
theorem install_spec (b : β) :
    (Station.install b).value.Wired ∧ (Station.install b).value.RelaysOff := by
  obtain ⟨b₁, hheater, hlow, -⟩ := write_relay .heater false
    (Thermocouple.release .mashTun (Thermocouple.release .hotLiquor b))
  obtain ⟨b₂, hpump, hlow', hother⟩ := write_relay .pump false b₁
  rw [value_install, hheater, hpump]
  refine ⟨⟨rfl, rfl⟩, rfl, rfl, fun load => ?_⟩
  cases load with
  | heater => exact (hother .heater (by simp)).trans hlow
  | pump => exact hlow'

end Station

end Brewhouse
