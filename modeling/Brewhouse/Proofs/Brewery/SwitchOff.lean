import Brewhouse.Bench.Pins
import Brewhouse.Proofs.Board.Metered
import Brewhouse.Proofs.Brewery.Relays

/-!
Switching the heater off on a board that may fail to. The last thing that is asked of the heater's relay
before a script is no longer running is to open, so its pin is driven low then, unless that write failed.
While no script is running a tick touches nothing: a write that failed is not made up for until the next
order.
-/

namespace Brewhouse.Brewery

variable {β σ : Type} [Board β]

theorem switchLaws_heaterLow : SwitchLaws fun s : Station (Metered β) => s.board.HeaterLow where
  readTemperature {s} hlow vessel :=
    hlow.of_alike (Metered.relaysOnly_alike.readCelsius vessel s.board)
  readLevel {s} hlow switch := by
    cases switch with
    | mashTun => exact hlow.of_alike (Metered.relaysOnly_alike.readLevel s.mashTun s.board)
    | kettle => exact hlow.of_alike (Metered.relaysOnly_alike.readLevel s.kettle s.board)
  passPolls {s} hlow polls :=
    hlow.of_alike (relaysOnly_passPolls Metered.relaysOnly_alike polls s.board)
  allOff {s} hs := by
    obtain ⟨hwired, hheater⟩ := Station.setLoad_wired hs .heater false
    obtain ⟨-, hpump⟩ := Station.setLoad_wired hwired .pump false
    have hlow := (Metered.heaterLow_of_off s.board).write_pump false
    rwa [← hheater, ← hpump] at hlow

/-- The relays are wired, and the heater has been switched off unless a script is running. -/
structure SwitchedOff (b : Brewery (Metered β) σ) : Prop where
  wired : b.station.Wired
  low : b.controller.state ≠ .running → b.station.board.HeaterLow

theorem switchedOff_install (configuration : Configuration) (board : Metered β) (link : σ) :
    SwitchedOff (install configuration board link).value := by
  have hstation : (install configuration board link).value.station = (Station.install board).value := rfl
  constructor
  · rw [hstation, Station.value_install]
    exact ⟨rfl, rfl⟩
  · intro _
    rw [hstation, Station.value_install]
    exact (Metered.heaterLow_of_off _).write_pump false

variable [Link σ]

/-! ### Runs -/

/-- The breweries that come of one: scripts are loaded, orders are followed, ticks come to their end,
uploads are looked for, and in between the board may change as it likes. -/
inductive Operates (start : Brewery (Metered β) σ) : Brewery (Metered β) σ → Prop where
  | start : Operates start start
  | load {b : Brewery (Metered β) σ} (script : Script) :
      Operates start b → Operates start (b.answer 0 (.load script)).1
  | obey {b : Brewery (Metered β) σ} (order : Order) :
      Operates start b → Operates start (b.obey order).value
  | tick {b : Brewery (Metered β) σ} (patience : Nat) (elapsed : Milliseconds) :
      Operates start b → (b.tick patience elapsed).value.finished = true →
        Operates start (b.tick patience elapsed).value.brewery
  | poll {b : Brewery (Metered β) σ} : Operates start b → Operates start b.poll.value.2
  | board {b : Brewery (Metered β) σ} (board : β) : Operates start b →
      Operates start { b with station.board.board := board }

theorem SwitchedOff.answer {b : Brewery (Metered β) σ} (h : b.SwitchedOff) (patience : Nat)
    (call : Controller.Call) : (b.answer patience call).1.SwitchedOff := by
  obtain ⟨hwired, hlow⟩ := switchLaws_heaterLow.answer h.wired h.low patience b.console call
  exact ⟨hwired, hlow⟩

theorem Operates.switchedOff {start b : Brewery (Metered β) σ} (h : Operates start b)
    (hstart : start.SwitchedOff) : b.SwitchedOff := by
  induction h with
  | start => exact hstart
  | load script _ ih => exact ih.answer 0 (.load script)
  | @obey b order _ ih =>
      rw [obey_eq_answer]
      exact ih.answer 0 (.obey order)
  | @tick b patience elapsed _ _ ih =>
      have hbrewery : (b.tick patience elapsed).value.brewery =
          (b.answer patience (.tick elapsed b.station.readings)).1 :=
        congrArg Prod.fst (tick_eq_answer patience b elapsed)
      rw [hbrewery]
      exact ih.answer patience (.tick elapsed b.station.readings)
  | poll _ ih => exact ⟨ih.wired, ih.low⟩
  | board board _ ih => exact ⟨⟨ih.wired.heater, ih.wired.pump⟩, ih.low⟩

/-! ### Orders and idle ticks -/

/-- An order switches everything off, whatever was running. -/
theorem heaterLow_of_obey {b : Brewery (Metered β) σ} (hwired : b.station.Wired) (order : Order) :
    (b.obey order).value.station.board.HeaterLow := by
  have hknown : knownOff false (b.controller.obey order).2 = true := by
    cases order with
    | load script => rfl
    | abort =>
        simp only [Controller.obey]
        split <;> rfl
  have hguarded := Controller.guarded_answer false b.controller (.obey order)
  have hperformed := switchLaws_heaterLow.performAll hwired (fun h => by cases h) hguarded 0 b.console
  exact hperformed.2 (Or.inr hknown)

/-- While no script is running a tick does nothing. -/
theorem tick_of_not_running {b : Brewery (Metered β) σ} (h : b.controller.state ≠ .running)
    (patience : Nat) (elapsed : Milliseconds) :
    b.tick patience elapsed = ⟨[], ⟨b, some (.ok .idle), true⟩⟩ := by
  have hidle : b.controller.isRunning = false := by
    simpa using b.controller.state_ne_running_iff.mp h
  rw [Brewery.tick, Controller.tick_of_idle hidle]
  rfl

/-- While no script is running a tick does nothing, so that the pin of the heater's relay stays as it is:
driven low, unless the last write to it failed. The next order writes to it again, and if that takes
effect the pin is driven low. -/
theorem heater_low_unless_write_failed (configuration : Configuration) (board : Metered β) (link : σ)
    {b : Brewery (Metered β) σ} (hb : Operates (install configuration board link).value b) :
    (b.controller.state ≠ .running →
      (b.station.board.took .heater = true → b.station.board.level .heater = false) ∧
      ∀ patience elapsed, b.tick patience elapsed = ⟨[], ⟨b, some (.ok .idle), true⟩⟩) ∧
    ∀ order, (b.obey order).value.station.board.took .heater = true →
      (b.obey order).value.station.board.level .heater = false := by
  have hoff := hb.switchedOff (switchedOff_install configuration board link)
  refine ⟨fun hstate => ⟨hoff.low hstate, tick_of_not_running hstate⟩, fun order => ?_⟩
  exact heaterLow_of_obey hoff.wired order

/-! ### A relay that does not open -/

/-- A board that reads 40 °C in both vessels, on which nothing fails. -/
def lukewarm : Bench.Pins :=
  { Bench.Pins.idle with frame := fun _ => 1280, level := fun _ => some false }

def setFault (b : Brewery (Metered Bench.Pins) Bench.Line) (failing : Bool) :
    Brewery (Metered Bench.Pins) Bench.Line :=
  { b with
    station.board.board := b.station.board.board.setOutputFailing (.relay .heater) failing }

def switchedOn : Brewery (Metered Bench.Pins) Bench.Line :=
  (install .standard ⟨lukewarm, fun _ => false, fun _ => false⟩ .idle).value

/-- The heater is on all through its window when the script is aborted, and the relay does not open. -/
def stranded : Brewery (Metered Bench.Pins) Bench.Line :=
  let loaded := (switchedOn.obey (.load (.ofStatements .standard [.heat (some 65)]))).value
  let heated := (loaded.tick 0 1000).value.brewery
  ((heated.setFault true).obey .abort).value.setFault false

theorem operates_stranded : Operates switchedOn stranded := by
  refine .board _ (.obey .abort (.board _ (.tick 0 1000 (.obey _ .start) ?_)))
  decide +kernel

/-- Once the fault is mended every write takes effect, but a tick makes none, and the heater stays on. -/
theorem heater_stays_on_when_idle :
    Operates switchedOn stranded ∧ stranded.controller.state = .awaitingScript ∧
      (∀ load on, (Board.write (.relay load) on stranded.station.board).1 = true) ∧
      (stranded.tick 0 1000).value.finished = true ∧
      (stranded.tick 0 1000).value.brewery.station.board.level .heater = true := by
  refine ⟨operates_stranded, by decide +kernel, ?_, by decide +kernel, by decide +kernel⟩
  intro load on
  cases load <;> cases on <;> decide +kernel

theorem heater_low_unless_write_failed_of_abort :
    stranded.tick 0 1000 = ⟨[], ⟨stranded, some (.ok .idle), true⟩⟩ ∧
      (stranded.obey .abort).value.station.board.took .heater = true ∧
      (stranded.obey .abort).value.station.board.level .heater = false := by
  have hstate : stranded.controller.state ≠ .running := by decide +kernel
  have htook : (stranded.obey .abort).value.station.board.took .heater = true := by decide +kernel
  obtain ⟨hidle, hordered⟩ := heater_low_unless_write_failed .standard
    ⟨lukewarm, fun _ => false, fun _ => false⟩ Bench.Line.idle operates_stranded
  exact ⟨(hidle hstate).2 0 1000, htook, hordered .abort htook⟩

end Brewhouse.Brewery
