import Brewhouse.Proofs.Control.Regulation
import Brewhouse.Proofs.Controller.History
import Brewhouse.Proofs.Exact.Word
import Brewhouse.Proofs.Script.Effects

/-!
The trace of a tick. Whatever has been before, a tick comes to nothing, or to a sensor fault, or it takes
all readings, switches everything off around each pause that its step goes over, and ends in one of three
ways. What it reports is what it has asked of heater and pump.
-/

namespace Brewhouse

/-! ### How a tick ends -/

/-- The end of a tick for its verdict, after a step over some pauses: what the tick has asked for in the
end, and what it has reported, left behind and told its caller. -/
inductive Tick.Ends (t : Tick) (pauses : Nat) : Verdict → List Action → Prop where
  | failed {fault : ScriptFault} {report : Telemetry} (htag : report.tag = .failed)
      (hheater : report.heaterOn = 0) (hpump : report.pumpOn = false)
      (hstate : t.controller.state = .failed)
      (houtcome : ∀ waits, t.outcome? waits = some (.error (.script fault))) :
      Ends t pauses (.scriptFault fault)
        [.allOff, .emit (.telemetry report), .emit (.scriptFailed fault)]
  | completed {report : Telemetry} (htag : report.tag = .ending) (hheater : report.heaterOn = 0)
      (hpump : report.pumpOn = false) (hstate : t.controller.state = .completed)
      (houtcome : ∀ waits, t.outcome? waits = some (.ok .finished)) :
      Ends t pauses .finished [.allOff, .emit (.telemetry report), .emit .scriptCompleted]
  | running {report : Telemetry} {pumpOn : Bool} {duty : Control.HeaterDuty}
      (htag : report.tag = Command.heat.tag ∨ report.tag = Command.hold.tag)
      (hheater : report.heaterOn = duty.on) (hpump : report.pumpOn = pumpOn)
      (hstate : t.controller.state = .running)
      (houtcome : ∀ waits, waits.length = pauses → t.outcome? waits =
        some (.ok (if pauses = 0 then .running
          else .resumed (.ofNat (min (waits.map UInt32.toNat).sum 4294967295))))) :
      Ends t pauses .running [.emit (.telemetry report), .setPump pumpOn, .setHeater duty]

/-- The outcome of a tick in which the script goes on, after the waits at its pauses. -/
theorem Tick.outcome_running {t : Tick} (h : t.verdict = .running) (waits : List Milliseconds) :
    t.outcome? waits = some (.ok (if waits.length = 0 then .running
      else .resumed (.ofNat (min (waits.map UInt32.toNat).sum 4294967295)))) := by
  simp only [Tick.outcome?, h, List.isEmpty_iff, List.length_eq_zero_iff]
  split
  · rfl
  · have hfits : min (waits.map UInt32.toNat).sum 4294967295 < UInt32.size := by
      change _ < 4294967296
      omega
    have hsum : waits.foldl Exact.Word.saturatingAdd 0 =
        .ofNat (min (waits.map UInt32.toNat).sum 4294967295) := by
      apply UInt32.toNat_inj.mp
      rw [Exact.Word.toNat_foldl_saturatingAdd, UInt32.toNat_ofNat_of_lt' hfits, UInt32.toNat_zero,
        Nat.zero_add]
    rw [hsum]

theorem Tick.verdict_of_idle {t : Tick} {waits : List Milliseconds}
    (h : t.outcome? waits = some (.ok .idle)) : t.verdict = .idle := by
  cases hverdict : t.verdict <;> simp only [Tick.outcome?, hverdict] at h
  case running => split at h <;> cases h
  case idle => rfl
  all_goals cases h

namespace Controller

/-! ### The regulator -/

/-- The regulator has the gains and the limit of the configuration. -/
def IsTuned (c : Controller) : Prop :=
  c.regulator.Tuned c.configuration

theorem IsTuned.regulatorFor {c : Controller} (h : c.IsTuned) (target : Celsius) :
    (c.regulatorFor target).Tuned c.configuration := by
  unfold Controller.regulatorFor
  split
  · exact h
  · exact Control.Regulator.tuned_regulator ..

/-- There is a duty for every reading. -/
theorem IsTuned.regulate? {c : Controller} (h : c.IsTuned) (x : Sample) :
    ∃ regulator duty, c.regulate? x = some (regulator, duty) ∧
      regulator.Tuned c.configuration := by
  unfold Controller.regulate?
  cases c.script.target with
  | none => exact ⟨_, _, rfl, h⟩
  | some target =>
      obtain ⟨regulator, output, hnext, htuned, -⟩ := (h.regulatorFor target).next? x.hlt x.elapsed
      dsimp only
      rw [hnext]
      exact ⟨_, _, rfl, htuned⟩

theorem IsTuned.endRunning {c : Controller} (h : c.IsTuned) (x : Sample) (r : Readings)
    (crossed : List Action) : (c.endRunning x r crossed).controller.IsTuned := by
  obtain ⟨regulator, duty, hregulate, htuned⟩ := h.regulate? x
  rw [Controller.endRunning, hregulate]
  exact htuned

theorem IsTuned.tick {c : Controller} (h : c.IsTuned) (elapsed : Milliseconds) (r : Readings) :
    (c.tick elapsed r).controller.IsTuned := by
  rcases tick_cases c elapsed r with
    ⟨-, htick⟩ | ⟨_, -, -, htick⟩ | ⟨_, _, -, -, -, htick⟩ | ⟨hlt, mash, -, -, -, htick⟩ <;> rw [htick]
  · exact h
  · exact h
  · exact h
  · rcases carryOn_cases c.counted ⟨elapsed, hlt, mash⟩ r with
      ⟨_, -, hcarry⟩ | ⟨-, -, hcarry⟩ | ⟨-, -, hcarry⟩ <;> rw [hcarry]
    · exact h
    · exact h
    · have hstepped : (c.counted.stepped ⟨elapsed, hlt, mash⟩).IsTuned := h
      exact hstepped.endRunning ..

theorem IsTuned.answer {c : Controller} (h : c.IsTuned) (call : Call) : (c.answer call).1.IsTuned := by
  cases call with
  | load script => exact Control.Regulator.tuned_regulator ..
  | obey order =>
      cases order with
      | load script => exact Control.Regulator.tuned_regulator ..
      | abort => exact h
  | tick elapsed r => exact h.tick elapsed r

theorem IsTuned.run {c : Controller} (h : c.IsTuned) (calls : List Call) : (c.run calls).IsTuned := by
  induction calls generalizing c with
  | nil => exact h
  | cons call rest ih => exact ih (h.answer call)

theorem isTuned_fresh (configuration : Configuration) : (fresh configuration).IsTuned :=
  Control.Regulator.tuned_regulator ..

/-! ### The tag of a report -/

theorem reportTag_of_completed (c : Controller) (hstate : c.state ≠ .failed)
    (h : c.script.completed = true) : c.reportTag = .ending := by
  have hnone : c.script.active? = none := List.getElem?_eq_none (of_decide_eq_true h)
  unfold reportTag
  split
  · contradiction
  · rw [hnone]

/-- A script that goes on waits at a heat or at a hold, and the report tells which. -/
theorem reportTag_of_goes {c : Controller} {s : Script} {x : Sample} (hstate : c.state ≠ .failed)
    (hscript : c.script = (s.step x).script) (hfault : (s.step x).fault = none)
    (hgoes : (s.step x).script.completed = false) :
    c.reportTag = Command.heat.tag ∨ c.reportTag = Command.hold.tag := by
  obtain ⟨statement, hactive, htimed⟩ := Script.step_active hfault hgoes
  unfold reportTag
  split
  · contradiction
  · rw [hscript, hactive]
    cases statement with
    | heat setpoint => exact Or.inl rfl
    | hold payload => exact Or.inr rfl
    | _ => cases htimed

/-! ### Pauses -/

def pausing (pauses : Nat) : List Action :=
  (List.replicate pauses [.allOff, .emit .paused, .awaitResume, .emit .resumed]).flatten

theorem audible_signals (signals : List Signal) :
    audible (signals.flatMap Signal.actions) = pausing (signals.count .pause) := by
  induction signals with
  | nil => rfl
  | cons signal rest ih =>
      rw [List.flatMap_cons, audible_append, ih]
      cases signal with
      | pause =>
          rw [List.count_cons_self, pausing, pausing, List.replicate_succ, List.flatten_cons]
          rfl
      | note notice =>
          rw [List.count_cons_of_ne (by simp)]
          rfl

def allReads : List Action :=
  [.readTemperature .hotLiquor, .readTemperature .mashTun, .readLevel .mashTun, .readLevel .kettle]

theorem audible_crossed (c : Controller) (x : Sample) :
    audible (c.crossed x) = allReads ++ pausing (c.script.step x).pauses := by
  rw [crossed, audible_append, audible_signals]
  rfl

/-! ### The trace -/

theorem IsTuned.ends {c : Controller} (h : c.IsTuned) (hrunning : c.state = .running) (x : Sample)
    (r : Readings) (pauses : Nat) :
    ∃ ending, audible (c.carryOn x r).actions = audible (c.crossed x) ++ ending ∧
      (c.carryOn x r).Ends pauses (c.carryOn x r).verdict ending := by
  rcases carryOn_cases c x r with
    ⟨fault, -, hcarry⟩ | ⟨-, hdone, hcarry⟩ | ⟨hfault, hgoes, hcarry⟩ <;> rw [hcarry]
  · rw [endScript, audible_append]
    exact ⟨_, rfl, .failed rfl rfl rfl rfl fun _ => rfl⟩
  · have htag := reportTag_of_completed
      { c.stepped x with state := .completed, duty := .idle c.configuration.heaterPeriod }
      (by simp) hdone
    rw [endScript, audible_append]
    exact ⟨_, rfl, .completed htag rfl rfl rfl fun _ => rfl⟩
  · have hstepped : (c.stepped x).IsTuned := h
    obtain ⟨regulator, duty, hregulate, -⟩ := hstepped.regulate? x
    rw [Controller.endRunning, hregulate, audible_append]
    refine ⟨_, rfl, .running ?_ rfl rfl hrunning fun waits hwaits => ?_⟩
    · exact reportTag_of_goes (by simp [stepped, hrunning]) rfl hfault hgoes
    · rw [← hwaits]
      exact Tick.outcome_running rfl waits

/-- The trace of a tick for its verdict, notices apart: nothing unless a script was running; or no more
than it takes to find a sensor broken; or all readings, the pauses that its step has gone over, and an
end. -/
inductive Traced (c : Controller) (elapsed : Milliseconds) (r : Readings) (t : Tick) :
    Verdict → Prop where
  | idle (hstate : c.state ≠ .running) (h : t = ⟨c, .idle, []⟩) : Traced c elapsed r t .idle
  | faulty {fault : SensorFault} {reads : List Action} (hstate : c.state = .running)
      (hfails : Fails r fault reads) (hcontroller : t.controller = c.counted)
      (haudible : audible t.actions = reads ++ [.allOff, .emit (.sensorFault fault)])
      (houtcome : ∀ waits, t.outcome? waits = some (.error (.sensor fault))) :
      Traced c elapsed r t (.sensorFault fault)
  | ended {verdict : Verdict} {ending : List Action} {hlt mash : Celsius}
      {crossed ahead : List Statement} (hstate : c.state = .running)
      (hhlt : r.hlt = .ok hlt) (hmash : r.mash = .ok mash)
      (hsplit : c.script.statements.drop c.script.cursor = crossed ++ ahead)
      (hcrosses : c.script.Crosses crossed ahead (c.script.step ⟨elapsed, hlt, mash⟩))
      (haudible : audible t.actions = allReads ++ pausing (crossed.count .pause) ++ ending)
      (hends : t.Ends (crossed.count .pause) verdict ending) : Traced c elapsed r t verdict

theorem traced_endFaulty {c : Controller} (hrun : c.isRunning = true) (elapsed : Milliseconds)
    {r : Readings} {fault : SensorFault} {reads : List Action} (h : Fails r fault reads) :
    c.Traced elapsed r (c.counted.endFaulty reads fault) (.sensorFault fault) :=
  .faulty (eq_of_beq hrun) h rfl (audible_endFaulty _ h) fun _ => rfl

theorem IsTuned.traced {c : Controller} (h : c.IsTuned) (elapsed : Milliseconds) (r : Readings) :
    c.Traced elapsed r (c.tick elapsed r) (c.tick elapsed r).verdict := by
  rcases tick_cases c elapsed r with
    ⟨hidle, htick⟩ | ⟨_, hrun, hhlt, htick⟩ | ⟨_, _, hrun, hhlt, hmash, htick⟩ |
      ⟨hlt, mash, hrun, hhlt, hmash, htick⟩ <;> rw [htick]
  · refine .idle (fun hrunning => ?_) rfl
    rw [isRunning, hrunning] at hidle
    cases hidle
  · exact traced_endFaulty hrun elapsed (.hlt hhlt)
  · exact traced_endFaulty hrun elapsed (.mash _ hhlt hmash)
  · obtain ⟨crossed, ahead, hsplit, -, hcrosses⟩ := c.script.step_crosses ⟨elapsed, hlt, mash⟩
    have hpauses : (c.counted.script.step ⟨elapsed, hlt, mash⟩).pauses = crossed.count .pause :=
      hcrosses.pauses
    have hcounted : c.counted.IsTuned := h
    obtain ⟨ending, haudible, hends⟩ :=
      hcounted.ends (eq_of_beq hrun) ⟨elapsed, hlt, mash⟩ r (crossed.count .pause)
    rw [audible_crossed, hpauses] at haudible
    exact .ended (eq_of_beq hrun) hhlt hmash hsplit hcrosses haudible hends

/-- Every tick of a run leaves the trace of its verdict, and a tick is idle if and only if no script is
running. -/
theorem tick_trace (configuration : Configuration) (calls : List Call) (elapsed : Milliseconds)
    (r : Readings) :
    let c := (fresh configuration).run calls
    let t := c.tick elapsed r
    c.Traced elapsed r t t.verdict ∧
      ∀ waits, t.outcome? waits = some (.ok .idle) ↔ c.state ≠ .running := by
  intro c t
  have htraced := ((isTuned_fresh configuration).run calls).traced elapsed r
  refine ⟨htraced, fun waits => ⟨fun hidle => ?_, fun hstate => ?_⟩⟩
  · rw [Tick.verdict_of_idle hidle] at htraced
    cases htraced with
    | idle hstate h => exact hstate
    | ended _ _ _ _ _ _ hends => cases hends
  · have hidle : t = ⟨c, .idle, []⟩ := if_neg fun hrun => hstate (eq_of_beq hrun)
    rw [hidle]
    rfl

/-- A script that pauses twice and then holds: the waits add up to the largest word. -/
theorem tick_trace_of_pauses :
    let script := Script.ofStatements Configuration.standard.thermalModel
      [.pause, .pause, .hold (some (65, 60000))]
    let c := (fresh Configuration.standard).run [.load script]
    let r : Readings := ⟨.ok 20, .ok 20, true, true⟩
    (c.tick 1000 r).outcome? [4294967290, 7] = some (.ok (.resumed 4294967295)) ∧
      ∃ report pumpOn duty, audible (c.tick 1000 r).actions = allReads ++ pausing 2 ++
          [.emit (.telemetry report), .setPump pumpOn, .setHeater duty] ∧
        report.pumpOn = pumpOn ∧ report.heaterOn = duty.on := by
  intro script c r
  obtain ⟨htraced, -⟩ := tick_trace Configuration.standard [.load script] 1000 r
  have hverdict : (c.tick 1000 r).verdict = .running := by decide +kernel
  have hsum : min (([4294967290, 7] : List Milliseconds).map UInt32.toNat).sum 4294967295 =
      4294967295 := by decide +kernel
  change c.Traced 1000 r (c.tick 1000 r) (c.tick 1000 r).verdict at htraced
  rw [hverdict] at htraced
  cases htraced with
  | ended _ hhlt hmash _ hcrosses haudible hends =>
      cases hhlt
      cases hmash
      have hcount := hcrosses.pauses.symm.trans (by decide +kernel : _ = 2)
      rw [hcount] at haudible hends
      cases hends with
      | running _ hheater hpump _ houtcome =>
          refine ⟨?_, _, _, _, haudible, hpump, hheater⟩
          rw [houtcome [4294967290, 7] rfl, hsum]
          rfl

end Controller

end Brewhouse
