import Brewhouse.Bench.Line
import Brewhouse.Brewery
import Brewhouse.Proofs.Board.Relays
import Brewhouse.Proofs.Controller.Run

/-!
The relays of a brewery at work. What the controller asks for is followed with one question: are the
relays known to be off? Switching everything off answers it, driving the heater or the pump takes the
answer back, and nothing else touches it. Every wait for the operator comes while they are known to be
off, and so does the end of every call that leaves no script running.
-/

namespace Brewhouse

/-! ### Actions -/

/-- Whether the relays are known to be off after an action, given whether they were before it. -/
def Action.knownOff (off : Bool) : Action → Bool
  | .allOff => true
  | .setHeater _ | .setPump _ => false
  | _ => off

def knownOff (off : Bool) (actions : List Action) : Bool :=
  actions.foldl Action.knownOff off

/-- Every wait for the operator comes while the relays are known to be off. -/
def Guarded (off : Bool) : List Action → Prop
  | [] => True
  | action :: rest => (action = .awaitResume → off = true) ∧ Guarded (action.knownOff off) rest

@[simp]
theorem knownOff_append (off : Bool) (some more : List Action) :
    knownOff off (some ++ more) = knownOff (knownOff off some) more :=
  List.foldl_append

@[simp]
theorem guarded_append (off : Bool) (some more : List Action) :
    Guarded off (some ++ more) ↔ Guarded off some ∧ Guarded (knownOff off some) more := by
  induction some generalizing off with
  | nil => simp [Guarded, knownOff]
  | cons action rest ih =>
      rw [List.cons_append, Guarded, ih, Guarded, and_assoc]
      rfl

theorem guarded_signals (off : Bool) (signals : List Signal) :
    Guarded off (signals.flatMap Signal.actions) := by
  induction signals generalizing off with
  | nil => exact trivial
  | cons signal rest ih =>
      rw [List.flatMap_cons, guarded_append]
      refine ⟨?_, ih _⟩
      cases signal <;> simp [Signal.actions, Guarded, Action.knownOff]

namespace Controller

theorem state_ne_running_iff (c : Controller) : c.state ≠ .running ↔ (!c.isRunning) = true := by
  simp [isRunning]

theorem guarded_crossed (off : Bool) (c : Controller) (x : Sample) : Guarded off (c.crossed x) := by
  rw [crossed, guarded_append]
  exact ⟨by simp [Guarded], guarded_signals _ _⟩

theorem relays_endScript {c : Controller} {x : Sample} {r : Readings} {state : RunState}
    {verdict : Verdict} {crossed : List Action} {event : Event}
    (hcrossed : ∀ off, Guarded off crossed) (off : Bool) :
    Guarded off (c.endScript x r state verdict crossed event).actions ∧
      knownOff off (c.endScript x r state verdict crossed event).actions = true := by
  rw [endScript]
  constructor
  · rw [guarded_append]
    exact ⟨hcrossed off, by simp [Guarded]⟩
  · rw [knownOff_append]
    rfl

theorem relays_endRunning (c : Controller) (x : Sample) (r : Readings) {crossed : List Action}
    (hcrossed : ∀ off, Guarded off crossed) :
    (∀ off, Guarded off (c.endRunning x r crossed).actions) ∧
      (c.endRunning x r crossed).controller.state = c.state ∧
      ∀ fault, (c.endRunning x r crossed).verdict ≠ .sensorFault fault := by
  unfold endRunning
  split
  · exact ⟨hcrossed, rfl, by simp⟩
  · refine ⟨fun off => ?_, rfl, by simp⟩
    rw [guarded_append]
    exact ⟨hcrossed off, by simp [Guarded]⟩

/-- A tick waits for the operator only while the relays are known to be off. They are off at its end
unless no script was running before it, or one is after it and no sensor had a fault. -/
theorem tick_relays (c : Controller) (elapsed : Milliseconds) (r : Readings) :
    (∀ off, Guarded off (c.tick elapsed r).actions) ∧
      ((c.isRunning = false ∧ c.tick elapsed r = ⟨c, .idle, []⟩) ∨
        (∀ off, knownOff off (c.tick elapsed r).actions = true) ∨
        ((c.tick elapsed r).controller.state = .running ∧
          ∀ fault, (c.tick elapsed r).verdict ≠ .sensorFault fault)) := by
  rcases tick_cases c elapsed r with
    ⟨hidle, h⟩ | ⟨_, -, -, h⟩ | ⟨_, _, -, -, -, h⟩ | ⟨hlt, mash, hrun, -, -, h⟩ <;> rw [h]
  · exact ⟨fun _ => trivial, Or.inl ⟨hidle, rfl⟩⟩
  · exact ⟨fun _ => by simp [endFaulty, Guarded], Or.inr (Or.inl fun _ => rfl)⟩
  · exact ⟨fun _ => by simp [endFaulty, Guarded], Or.inr (Or.inl fun _ => rfl)⟩
  · have hcrossed (off : Bool) := guarded_crossed off c.counted ⟨elapsed, hlt, mash⟩
    rcases carryOn_cases c.counted ⟨elapsed, hlt, mash⟩ r with
      ⟨_, -, hcarry⟩ | ⟨-, -, hcarry⟩ | ⟨-, -, hcarry⟩ <;> rw [hcarry]
    · exact ⟨fun off => (relays_endScript hcrossed off).1,
        Or.inr (Or.inl fun off => (relays_endScript hcrossed off).2)⟩
    · exact ⟨fun off => (relays_endScript hcrossed off).1,
        Or.inr (Or.inl fun off => (relays_endScript hcrossed off).2)⟩
    · obtain ⟨hguarded, hstate, hverdict⟩ :=
        relays_endRunning (c.counted.stepped ⟨elapsed, hlt, mash⟩) ⟨elapsed, hlt, mash⟩ r hcrossed
      exact ⟨hguarded, Or.inr (Or.inr ⟨hstate.trans (eq_of_beq hrun), hverdict⟩)⟩

/-- No call waits for the operator unless the relays are known to be off. -/
theorem guarded_answer (off : Bool) (c : Controller) (call : Call) :
    Guarded off (c.answer call).2 := by
  cases call with
  | load script => simp [answer, Controller.load, Guarded]
  | obey order =>
      cases order with
      | load script => simp [answer, obey, Controller.load, Guarded]
      | abort =>
          simp only [answer, obey]
          split <;> simp [Guarded]
  | tick elapsed r => exact (tick_relays c elapsed r).1 off

/-- After a call that leaves no script running the relays are known to be off, from before it if it
asks for nothing. -/
theorem knownOff_answer {c : Controller} {call : Call} (h : (c.answer call).1.state ≠ .running) :
    knownOff (!c.isRunning) (c.answer call).2 = true := by
  cases call with
  | load script => exact absurd rfl h
  | obey order =>
      cases order with
      | load script => exact absurd rfl h
      | abort =>
          simp only [answer, obey]
          split <;> rfl
  | tick elapsed r =>
      simp only [answer] at h ⊢
      rcases (tick_relays c elapsed r).2 with ⟨hidle, htick⟩ | hoff | ⟨hrun, -⟩
      · rw [htick, hidle]
        rfl
      · exact hoff _
      · exact absurd hrun h

/-- After a tick that a sensor fault has ended the relays are known to be off. -/
theorem knownOff_of_sensorFault {c : Controller} {elapsed : Milliseconds} {r : Readings}
    {fault : SensorFault} (h : (c.tick elapsed r).verdict = .sensorFault fault) (off : Bool) :
    knownOff off (c.tick elapsed r).actions = true := by
  rcases (tick_relays c elapsed r).2 with ⟨-, htick⟩ | hoff | ⟨-, hverdict⟩
  · rw [htick] at h
    cases h
  · exact hoff off
  · exact absurd h (hverdict fault)

end Controller

namespace Brewery

section Performing

variable {β σ : Type} [Board β] [Link σ]

theorem performAll_cons (patience : Nat) (s : Station β) (console : Console σ) (action : Action)
    (rest : List Action) :
    let first := (perform patience s console action).value
    let further := (performAll patience first.station first.console rest).value
    (performAll patience s console (action :: rest)).value =
      if first.finished then { further with waits := first.waits ++ further.waits } else first := by
  intro first further
  rw [performAll]
  change (if first.finished then _ else _ : Noted (Performed β σ)).value = _
  split <;> rfl

/-- Actions that follow others are performed if these have come to their end. -/
theorem performAll_append (patience : Nat) (s : Station β) (console : Console σ)
    (some more : List Action) :
    let first := (performAll patience s console some).value
    let further := (performAll patience first.station first.console more).value
    (performAll patience s console (some ++ more)).value =
      if first.finished then { further with waits := first.waits ++ further.waits } else first := by
  induction some generalizing s console with
  | nil => rfl
  | cons action rest ih =>
      rw [List.cons_append, performAll_cons, performAll_cons]
      split
      · rw [ih]
        dsimp only
        split
        · rw [List.append_assoc]
        · rfl
      · next hunfinished => exact (if_neg hunfinished).symm

theorem relaysOnly_passPolls {R : β → β → Prop} (h : Board.RelaysOnly R) (polls : Nat) (b : β) :
    R b (passPolls polls b) := by
  induction polls generalizing b with
  | zero => exact h.refl b
  | succ polls ih => exact h.trans (h.delay .resumePoll Console.resumePoll b) (ih _)

/-- A property of a station that reading the instruments and letting time pass keep, and that switching
everything off brings about. -/
structure SwitchLaws (Off : Station β → Prop) : Prop where
  readTemperature {s : Station β} (hoff : Off s) (vessel : Vessel) : Off (s.readTemperature vessel).2
  readLevel {s : Station β} (hoff : Off s) (switch : FloatSwitch) : Off (s.readLevel switch).value.2
  passPolls {s : Station β} (hoff : Off s) (polls : Nat) :
    Off { s with board := Brewery.passPolls polls s.board }
  allOff {s : Station β} (hs : s.Wired) : Off s.allOff.value

theorem perform_wired {s : Station β} (hs : s.Wired) (patience : Nat) (console : Console σ)
    (action : Action) : (perform patience s console action).value.station.Wired := by
  cases action with
  | readTemperature | awaitResume => exact ⟨hs.heater, hs.pump⟩
  | readLevel switch => cases switch <;> exact ⟨hs.heater, hs.pump⟩
  | allOff => exact (Station.setLoad_wired (Station.setLoad_wired hs .heater false).1 .pump false).1
  | setHeater duty => exact Station.setHeater_wired hs duty
  | setPump on => exact (Station.setLoad_wired hs .pump on).1
  | emit | note => exact hs

variable {Off : Station β → Prop}

/-- An action that is performed leaves the relays off when they are known to be. Only a wait for the
operator does not come to its end. -/
theorem SwitchLaws.perform (h : SwitchLaws Off) {off : Bool} {s : Station β} (hs : s.Wired)
    (hoff : off = true → Off s) (patience : Nat) (console : Console σ) (action : Action) :
    (action.knownOff off = true → Off (perform patience s console action).value.station) ∧
      ((perform patience s console action).value.finished = false → action = .awaitResume) := by
  cases action with
  | readTemperature vessel =>
      exact ⟨fun hknown => h.readTemperature (hoff hknown) vessel, fun h => by cases h⟩
  | readLevel switch => exact ⟨fun hknown => h.readLevel (hoff hknown) switch, fun h => by cases h⟩
  | allOff => exact ⟨fun _ => h.allOff hs, fun h => by cases h⟩
  | setHeater | setPump => exact ⟨(absurd · Bool.false_ne_true), fun h => by cases h⟩
  | awaitResume => exact ⟨fun hknown => h.passPolls (hoff hknown) _, fun _ => rfl⟩
  | emit | note => exact ⟨hoff, fun h => by cases h⟩

/-- Guarded actions that are performed leave the relays off if they are known to be off at the end, or
if the operator is still waited for. -/
theorem SwitchLaws.performAll (h : SwitchLaws Off) {off : Bool} {s : Station β}
    {actions : List Action} (hs : s.Wired) (hoff : off = true → Off s)
    (hguarded : Guarded off actions) (patience : Nat) (console : Console σ) :
    let performed := (performAll patience s console actions).value
    performed.station.Wired ∧
      (performed.finished = false ∨ knownOff off actions = true → Off performed.station) := by
  induction actions generalizing off s console with
  | nil =>
      refine ⟨hs, fun h => h.elim (fun h => by cases h) hoff⟩
  | cons action rest ih =>
      obtain ⟨hwait, hrest⟩ := hguarded
      have hwired := perform_wired hs patience console action
      obtain ⟨hknown, hstops⟩ := h.perform hs hoff patience console action
      rw [performAll_cons]
      split
      · exact ih hwired hknown hrest _
      · next hunfinished =>
        refine ⟨hwired, fun _ => hknown ?_⟩
        have hawait := hstops (by simpa using hunfinished)
        rw [hawait]
        exact hwait hawait

/-- If the relays are off while no script is running, they are so after a call. -/
theorem SwitchLaws.answer (h : SwitchLaws Off) {s : Station β} (hs : s.Wired) {c : Controller}
    (hoff : c.state ≠ .running → Off s) (patience : Nat) (console : Console σ)
    (call : Controller.Call) :
    let performed := (Brewery.performAll patience s console (c.answer call).2).value
    performed.station.Wired ∧ ((c.answer call).1.state ≠ .running → Off performed.station) := by
  have hknown : (!c.isRunning) = true → Off s := fun hidle => hoff (c.state_ne_running_iff.mpr hidle)
  obtain ⟨hwired, hopen⟩ := h.performAll hs hknown (Controller.guarded_answer _ c call) patience console
  exact ⟨hwired, fun hstate => hopen (Or.inr (Controller.knownOff_answer hstate))⟩

/-! ### Calls -/

/-- Answers a call: what the controller asks for is performed. The second part tells whether the call
came to its end; otherwise the operator is still waited for. -/
def answer (patience : Nat) (b : Brewery β σ) (call : Controller.Call) : Brewery β σ × Bool :=
  let (controller, actions) := b.controller.answer call
  let performed := (performAll patience b.station b.console actions).value
  (⟨controller, performed.station, performed.console⟩, performed.finished)

/-- A tick is a call with the readings of the station. -/
theorem tick_eq_answer (patience : Nat) (b : Brewery β σ) (elapsed : Milliseconds) :
    ((b.tick patience elapsed).value.brewery, (b.tick patience elapsed).value.finished) =
      b.answer patience (.tick elapsed b.station.readings) := rfl

theorem obey_eq_answer (b : Brewery β σ) (order : Order) :
    (b.obey order).value = (b.answer 0 (.obey order)).1 := rfl

end Performing

variable {β σ : Type} [RelayBoard β]

open Station

/-- The relays are wired, and they are off unless a script is running. -/
structure Safe (b : Brewery β σ) : Prop where
  wired : b.station.Wired
  relaysOff : b.controller.state ≠ .running → b.station.RelaysOff

theorem Safe.known {b : Brewery β σ} (h : b.Safe) :
    (!b.controller.isRunning) = true → b.station.RelaysOff :=
  fun hidle => h.relaysOff (b.controller.state_ne_running_iff.mpr hidle)

variable [Link σ]

/-! ### Performing actions -/

theorem same_passPolls (s : Station β) (polls : Nat) :
    s.SameRelays { s with board := passPolls polls s.board } :=
  ⟨rfl, rfl, relaysOnly_passPolls RelayBoard.relaysOnly_alike polls s.board⟩

theorem switchLaws_relaysOff : SwitchLaws (RelaysOff : Station β → Prop) where
  readTemperature {s} hoff vessel := hoff.of_same (same_readTemperature s vessel)
  readLevel {s} hoff switch := hoff.of_same (same_readLevel s switch)
  passPolls {s} hoff polls := hoff.of_same (same_passPolls s polls)
  allOff hs := (allOff_spec hs).2

theorem performAll_relays {off : Bool} {s : Station β} {actions : List Action} (hs : s.Wired)
    (hoff : off = true → s.RelaysOff) (hguarded : Guarded off actions) (patience : Nat)
    (console : Console σ) :
    let performed := (performAll patience s console actions).value
    performed.station.Wired ∧
      (performed.finished = false ∨ knownOff off actions = true → performed.station.RelaysOff) :=
  switchLaws_relaysOff.performAll hs hoff hguarded patience console

/-! ### Runs -/

/-- The breweries that come of one by calls, each answered to its end. -/
inductive Follows (start : Brewery β σ) : Brewery β σ → Prop where
  | start : Follows start start
  | answer {b : Brewery β σ} (patience : Nat) (call : Controller.Call) :
      Follows start b → (b.answer patience call).2 = true →
        Follows start (b.answer patience call).1

theorem Safe.answer {b : Brewery β σ} (h : b.Safe) (patience : Nat) (call : Controller.Call) :
    (b.answer patience call).1.Safe := by
  obtain ⟨hwired, hoff⟩ := switchLaws_relaysOff.answer h.wired h.relaysOff patience b.console call
  exact ⟨hwired, hoff⟩

theorem Follows.safe {start b : Brewery β σ} (h : Follows start b) (hstart : start.Safe) :
    b.Safe := by
  induction h with
  | start => exact hstart
  | answer patience call _ _ ih => exact ih.answer patience call

/-- Both relays are off after every call that leaves no script running, after every tick that a sensor
fault has ended, and all the while the operator is waited for. -/
theorem relays_off_unless_running {configuration : Configuration} {station : Station β}
    {console : Console σ} {b : Brewery β σ} (hwired : station.Wired) (hoff : station.RelaysOff)
    (hb : Follows ⟨.fresh configuration, station, console⟩ b) (patience : Nat)
    (call : Controller.Call) :
    let after := b.answer patience call
    (after.1.controller.state ≠ .running → after.1.station.RelaysOff) ∧
      (∀ elapsed r fault, call = .tick elapsed r →
        (b.controller.tick elapsed r).verdict = .sensorFault fault → after.1.station.RelaysOff) ∧
      (after.2 = false → after.1.station.RelaysOff) ∧
      ∀ before later, (b.controller.answer call).2 = before ++ .awaitResume :: later →
        let entered := (performAll patience b.station b.console before).value.station
        entered.RelaysOff ∧
          ∀ polls, Station.RelaysOff { entered with board := passPolls polls entered.board } := by
  intro after
  have hsafe : b.Safe := hb.safe ⟨hwired, fun _ => hoff⟩
  have hguarded (off : Bool) := Controller.guarded_answer off b.controller call
  obtain ⟨-, hopen⟩ := performAll_relays hsafe.wired hsafe.known (hguarded _) patience b.console
  refine ⟨(hsafe.answer patience call).relaysOff, ?_, fun hwaits => hopen (Or.inl hwaits), ?_⟩
  · rintro elapsed r fault rfl hfault
    exact hopen (Or.inr (Controller.knownOff_of_sensorFault hfault _))
  · intro before later hactions entered
    have hsplit := hactions ▸ hguarded (!b.controller.isRunning)
    rw [guarded_append] at hsplit
    obtain ⟨hbefore, hwait, -⟩ := hsplit
    have hoff' := (performAll_relays hsafe.wired hsafe.known hbefore patience b.console).2
      (Or.inr (hwait rfl))
    exact ⟨hoff', fun polls => hoff'.of_same (same_passPolls entered polls)⟩

end Brewery

/-! ### A panel -/

/-- A board with nothing on it but its relays: its converters read 0 °C and its float switches low. -/
structure Panel where
  heater : Bool
  pump : Bool

instance : RelayBoard Panel where
  write pin high p :=
    match pin with
    | .relay .heater => (true, { p with heater := high })
    | .relay .pump => (true, { p with pump := high })
    | _ => (true, p)
  read _ p := (some false, p)
  delay _ _ p := p
  level load p :=
    match load with
    | .heater => p.heater
    | .pump => p.pump
  write_relay load on p := by
    cases load with
    | heater =>
        refine ⟨_, rfl, rfl, fun other hother => ?_⟩
        cases other with
        | heater => exact absurd rfl hother
        | pump => rfl
    | pump =>
        refine ⟨_, rfl, rfl, fun other hother => ?_⟩
        cases other with
        | heater => rfl
        | pump => exact absurd rfl hother
  level_write pin high p hpin load := by
    cases pin with
    | relay other => exact absurd rfl (hpin other)
    | select | clock => rfl
  level_read _ _ _ := rfl
  level_delay _ _ _ _ := rfl

/-- A script that is put in place of one whose heater is on pauses with the relays off, and leaves them
off when it has come to its end. -/
theorem relays_off_unless_running_of_pause :
    let station := (Station.install (⟨true, true⟩ : Panel)).value
    let start : Brewery Panel Bench.Line :=
      ⟨.fresh .standard, station, ⟨.idle, .fresh ⟨0, 79⟩ .standard⟩⟩
    let cold : Readings := ⟨.ok 20, .ok 20, false, false⟩
    let heating := (start.answer 0 (.load (.ofStatements .standard [.heat (some 65)]))).1
    let heated := (heating.answer 0 (.tick 1000 cold)).1
    let b := (heated.answer 0 (.load (.ofStatements .standard [.pause]))).1
    let after := b.answer 1 (.tick 1000 cold)
    b.station.heater.isOn = true ∧ after.2 = true ∧ after.1.controller.state = .completed ∧
      after.1.station.RelaysOff ∧
      ∃ before later, (b.controller.answer (.tick 1000 cold)).2 = before ++ .awaitResume :: later ∧
        (Brewery.performAll 1 b.station b.console before).value.station.RelaysOff := by
  intro station start cold heating heated b after
  obtain ⟨hwired, hoff⟩ := Station.install_spec (⟨true, true⟩ : Panel)
  have hb : Brewery.Follows start b := by
    refine .answer 0 _ (.answer 0 _ (.answer 0 _ .start ?_) ?_) ?_
    · decide +kernel
    · decide +kernel
    · decide +kernel
  have hclosed : b.station.heater.isOn = true := by decide +kernel
  have hstate : after.1.controller.state = .completed := by decide +kernel
  obtain ⟨hopen, -, -, hwaits⟩ := Brewery.relays_off_unless_running hwired hoff hb 1 (.tick 1000 cold)
  have hactions : (b.controller.answer (.tick 1000 cold)).2 =
      [.readTemperature .hotLiquor, .readTemperature .mashTun, .readLevel .mashTun,
        .readLevel .kettle, .note (.scriptPaused 0), .allOff, .emit .paused] ++
      .awaitResume :: (b.controller.answer (.tick 1000 cold)).2.drop 8 := by decide +kernel
  refine ⟨hclosed, by decide +kernel, hstate, hopen ?_, _, _, hactions, (hwaits _ _ hactions).1⟩
  rw [hstate]
  decide

end Brewhouse
