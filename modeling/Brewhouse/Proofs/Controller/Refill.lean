import Brewhouse.Proofs.Control.Filling
import Brewhouse.Proofs.Controller.History

/-!
How the mash tun is refilled. Only ticks that command the actuators show the governor the float switch,
and no other call touches it but the loading of a script. So after a low reading the pump runs until the
switch has read full for the timeout in such ticks, whatever idle and faulted ticks come between; and if
the timeout is zero it does not run at all.
-/

namespace Brewhouse

def Action.pump? : Action → Option Bool
  | .setPump on => some on
  | _ => none

/-- Whether an action commands the heater or the pump. Switching everything off does not count. -/
def Action.isCommand : Action → Bool
  | .setPump _ | .setHeater _ => true
  | _ => false

namespace Controller

open Control

variable {c : Controller}

/-- What a call shows the governor: the float switch, if it is a tick that commands the actuators. -/
def level? (c : Controller) : Call → Option LevelReading
  | .tick elapsed r =>
    if (c.tick elapsed r).actions.any Action.isCommand then some ⟨elapsed, r.mashTunFull⟩ else none
  | _ => none

def levels (c : Controller) : List Call → List LevelReading
  | [] => []
  | call :: rest => (c.level? call).toList ++ (c.answer call).1.levels rest

/-! ### One call -/

/-- What a script's step asks for is no command. -/
theorem crossed_commands (c : Controller) (x : Sample) :
    (c.crossed x).any Action.isCommand = false ∧ (c.crossed x).filterMap Action.pump? = [] := by
  unfold crossed
  induction (c.script.step x).signals with
  | nil => simp [Action.isCommand, Action.pump?]
  | cons signal rest ih =>
      cases signal <;> simpa [Signal.actions, Action.isCommand, Action.pump?] using ih

/-- A tick leaves the governor alone, or it shows it the switch and commands the pump once, as the
governor says. -/
theorem tick_governs (c : Controller) (elapsed : Milliseconds) (r : Readings) :
    ((c.tick elapsed r).actions.any Action.isCommand = false ∧
      (c.tick elapsed r).controller.pump = c.pump) ∨
    ((c.tick elapsed r).actions.any Action.isCommand = true ∧
      (c.tick elapsed r).controller.pump = c.pump.update elapsed r.mashTunFull ∧
      (c.tick elapsed r).actions.filterMap Action.pump? =
        [(c.tick elapsed r).controller.pump.pumpOn]) := by
  rcases tick_cases c elapsed r with
    ⟨-, htick⟩ | ⟨_, -, -, htick⟩ | ⟨_, _, -, -, -, htick⟩ | ⟨hlt, mash, -, -, -, htick⟩
  · rw [htick]
    exact Or.inl ⟨rfl, rfl⟩
  · rw [htick]
    exact Or.inl ⟨rfl, rfl⟩
  · rw [htick]
    exact Or.inl ⟨rfl, rfl⟩
  · obtain ⟨hquiet, hpump⟩ := crossed_commands c.counted ⟨elapsed, hlt, mash⟩
    rcases carryOn_cases c.counted ⟨elapsed, hlt, mash⟩ r with
      ⟨_, -, hcarry⟩ | ⟨-, -, hcarry⟩ | ⟨-, -, hcarry⟩ <;> rw [hcarry] at htick
    · rw [htick, endScript, List.any_append, hquiet]
      exact Or.inl ⟨rfl, rfl⟩
    · rw [htick, endScript, List.any_append, hquiet]
      exact Or.inl ⟨rfl, rfl⟩
    · rw [htick]
      unfold endRunning
      split
      · exact Or.inl ⟨hquiet, rfl⟩
      · rw [List.any_append, List.filterMap_append, hquiet, hpump]
        exact Or.inr ⟨rfl, rfl, rfl⟩

/-- The governor has been shown some readings since the script was loaded. -/
def Shown (c : Controller) (readings : List LevelReading) : Prop :=
  c.pump.Tracks c.configuration.pumpFullTimeout (fullSince readings)

theorem shown_fresh (configuration : Configuration) : (fresh configuration).Shown [] :=
  PumpGovernor.tracks_fresh _

theorem shown_loading {loading : Call} {script : Script} (h : loading.script? = some script) :
    (c.answer loading).1.Shown [] := by
  cases loading with
  | load script => exact PumpGovernor.tracks_fresh _
  | obey order =>
      cases order with
      | load script => exact PumpGovernor.tracks_fresh _
      | abort => cases h
  | tick elapsed r => cases h

theorem Shown.tick {readings : List LevelReading} (h : c.Shown readings) {elapsed : Milliseconds}
    {r : Readings} (hcommand : (c.tick elapsed r).actions.any Action.isCommand = true) :
    (c.tick elapsed r).controller.Shown (readings ++ [⟨elapsed, r.mashTunFull⟩]) := by
  rcases tick_governs c elapsed r with ⟨hquiet, -⟩ | ⟨-, hpump, -⟩
  · exact absurd (hquiet.symm.trans hcommand) Bool.false_ne_true
  · rw [Shown, hpump, configuration_tick]
    exact PumpGovernor.Tracks.update h elapsed r.mashTunFull

/-- A call that loads no script keeps the governor in step with the readings. -/
theorem Shown.answer {readings : List LevelReading} (h : c.Shown readings) {call : Call}
    (hcall : call.script? = none) :
    (c.answer call).1.Shown (readings ++ (c.level? call).toList) := by
  cases call with
  | load script => cases hcall
  | obey order =>
      cases order with
      | load script => cases hcall
      | abort =>
          change c.Shown (readings ++ [])
          rwa [List.append_nil]
  | tick elapsed r =>
      cases hcommand : (c.tick elapsed r).actions.any Action.isCommand with
      | true =>
          rw [level?, if_pos hcommand]
          exact h.tick hcommand
      | false =>
          rcases tick_governs c elapsed r with ⟨-, hkept⟩ | ⟨hcommand', -⟩
          · rw [level?, if_neg (Bool.eq_false_iff.mp hcommand), Option.toList_none, List.append_nil]
            change (c.tick elapsed r).controller.Shown readings
            rw [Shown, hkept, configuration_tick]
            exact h
          · exact absurd (hcommand.symm.trans hcommand') Bool.false_ne_true

/-! ### Runs -/

theorem Shown.run {readings : List LevelReading} (h : c.Shown readings) {calls : List Call}
    (hcalls : ∀ call ∈ calls, call.script? = none) :
    (c.run calls).Shown (readings ++ c.levels calls) := by
  induction calls generalizing c readings with
  | nil => rwa [levels, List.append_nil]
  | cons call rest ih =>
      rw [levels, ← List.append_assoc]
      exact ih (h.answer (hcalls call List.mem_cons_self)) fun later hlater =>
        hcalls later (List.mem_cons_of_mem _ hlater)

theorem exists_shown (configuration : Configuration) (calls : List Call) :
    ∃ readings, ((fresh configuration).run calls).Shown readings := by
  induction calls using List.reverseRecOn with
  | nil => exact ⟨[], shown_fresh configuration⟩
  | append_singleton earlier call ih =>
      obtain ⟨readings, hshown⟩ := ih
      rw [run_append]
      cases hcall : call.script? with
      | some script => exact ⟨[], shown_loading hcall⟩
      | none => exact ⟨_, hshown.answer hcall⟩

/-- A tick that commands the actuators commands the pump once. It is on if the switch, since it last
read low, has read full for less than the timeout. -/
theorem Shown.pump {readings : List LevelReading} (h : c.Shown readings) {elapsed : Milliseconds}
    {r : Readings} (hcommand : (c.tick elapsed r).actions.any Action.isCommand = true) {time : Nat}
    (htime : fullSince (readings ++ [⟨elapsed, r.mashTunFull⟩]) = some time) :
    (c.tick elapsed r).actions.filterMap Action.pump? =
      [decide (time < c.configuration.pumpFullTimeout.toNat)] := by
  have hshown := h.tick hcommand
  rw [Shown, htime, configuration_tick] at hshown
  rcases tick_governs c elapsed r with ⟨hquiet, -⟩ | ⟨-, -, hpump⟩
  · exact absurd (hquiet.symm.trans hcommand) Bool.false_ne_true
  · rw [hpump, List.cons_eq_cons, Bool.eq_iff_iff, hshown.pumpOn_iff]
    simp

/-- In a tick that commands the actuators the pump is switched once. If the mash tun reads low the pump
is on, unless the timeout is zero. If it reads full, and has read full in all such ticks since one in which
it was low and the script was the same, the pump is on as long as their times add up to less than the
timeout. -/
theorem pump_refills (configuration : Configuration) (calls : List Call) (elapsed : Milliseconds)
    (r : Readings)
    (hcommand : (((fresh configuration).run calls).tick elapsed r).actions.any Action.isCommand =
      true) :
    let pumped := (((fresh configuration).run calls).tick elapsed r).actions.filterMap Action.pump?
    (r.mashTunFull = false → pumped = [decide (0 < configuration.pumpFullTimeout)]) ∧
    ∀ earlier lowElapsed low later, calls = earlier ++ .tick lowElapsed low :: later →
      ((fresh configuration).run earlier).level? (.tick lowElapsed low) = some ⟨lowElapsed, false⟩ →
      (∀ call ∈ later, call.script? = none) →
      let since := ((fresh configuration).run (earlier ++ [.tick lowElapsed low])).levels later
      (∀ reading ∈ since, reading.full = true) → r.mashTunFull = true →
      pumped = [decide (totalTime since + elapsed.toNat < configuration.pumpFullTimeout.toNat)] := by
  intro pumped
  have hconfiguration := (fresh configuration).configuration_run calls
  change _ = configuration at hconfiguration
  constructor
  · intro hlow
    obtain ⟨readings, hshown⟩ := exists_shown configuration calls
    have htime : fullSince (readings ++ [⟨elapsed, r.mashTunFull⟩]) = some 0 :=
      fullSince_of_low hlow (List.forall_mem_nil _)
    have hpump := hshown.pump hcommand htime
    rw [hconfiguration] at hpump
    exact hpump
  · rintro earlier lowElapsed low later rfl hlow hlater since hfull hr
    obtain ⟨readings, hshown⟩ := exists_shown configuration earlier
    have hafter := (hshown.answer (show (Call.tick lowElapsed low).script? = none from rfl)).run
      hlater
    rw [hlow] at hafter
    have hrun : (fresh configuration).run (earlier ++ .tick lowElapsed low :: later) =
        (((fresh configuration).run earlier).answer (.tick lowElapsed low)).1.run later :=
      run_append ..
    have hsince : since =
        (((fresh configuration).run earlier).answer (.tick lowElapsed low)).1.levels later := by
      change levels _ later = _
      rw [run_append]
      rfl
    rw [← hrun, ← hsince, Option.toList_some, List.append_assoc, List.singleton_append] at hafter
    have htime : fullSince ((readings ++ ⟨lowElapsed, false⟩ :: since) ++
        [⟨elapsed, r.mashTunFull⟩]) = some (totalTime (since ++ [⟨elapsed, r.mashTunFull⟩])) := by
      rw [List.append_assoc, List.cons_append]
      exact fullSince_of_low rfl
        (List.forall_mem_append.mpr ⟨hfull, List.forall_mem_singleton.mpr hr⟩)
    have hpump := hafter.pump hcommand htime
    rw [hconfiguration, totalTime_concat] at hpump
    exact hpump

/-- After a low reading the pump outlasts a tick without a sensor, which counts for nothing, and runs
until the switch has read full for five seconds. -/
theorem pump_refills_of_low :
    let script := Script.ofStatements Configuration.standard.thermalModel [.hold (some (65, 60000))]
    let low : Readings := ⟨.ok 64, .ok 64, false, true⟩
    let full : Readings := ⟨.ok 64, .ok 64, true, true⟩
    let broken : Readings := ⟨.ok 64, .error (.disconnected .mashTun), true, true⟩
    let calls : List Call :=
      [.load script, .tick 1000 full, .tick 1000 low, .tick 9000 broken, .tick 4000 full]
    let pumped (elapsed : Milliseconds) (r : Readings) :=
      (((fresh Configuration.standard).run calls).tick elapsed r).actions.filterMap Action.pump?
    pumped 6000 low = [true] ∧ pumped 999 full = [true] ∧ pumped 1000 full = [false] := by
  intro script low full broken calls pumped
  have hcommand : ∀ tick ∈ [((6000 : Milliseconds), low), (999, full), (1000, full)],
      (((fresh Configuration.standard).run calls).tick tick.1 tick.2).actions.any Action.isCommand =
        true := by decide +kernel
  have hlow : ((fresh Configuration.standard).run [.load script, .tick 1000 full]).level?
      (.tick 1000 low) = some ⟨1000, false⟩ := by decide +kernel
  have hlater : ∀ call ∈ [Call.tick 9000 broken, .tick 4000 full], call.script? = none := by
    simp [Call.script?]
  have hsince : ((fresh Configuration.standard).run
      ([.load script, .tick 1000 full] ++ [.tick 1000 low])).levels
        [.tick 9000 broken, .tick 4000 full] = [⟨4000, true⟩] := by decide +kernel
  obtain ⟨hempty, -⟩ := pump_refills Configuration.standard calls 6000 low
    (hcommand (6000, low) (by simp))
  obtain ⟨-, hfull⟩ := pump_refills Configuration.standard calls 999 full
    (hcommand (999, full) (by simp))
  obtain ⟨-, hfull'⟩ := pump_refills Configuration.standard calls 1000 full
    (hcommand (1000, full) (by simp))
  have hpumped := hfull [.load script, .tick 1000 full] 1000 low _ rfl hlow hlater
  have hpumped' := hfull' [.load script, .tick 1000 full] 1000 low _ rfl hlow hlater
  rw [hsince] at hpumped hpumped'
  exact ⟨hempty rfl, hpumped (by simp) rfl, hpumped' (by simp) rfl⟩

/-- A configuration may have no timeout, and then the pump stays off over a mash tun that reads low. -/
theorem pump_off_without_timeout :
    let configuration : Configuration := { Configuration.standard with pumpFullTimeout := 0 }
    let script := Script.ofStatements configuration.thermalModel [.hold (some (20, 60000))]
    let low : Readings := ⟨.ok 20, .ok 20, false, true⟩
    let t := ((fresh configuration).run [.load script]).tick 1000 low
    configuration.fault? = none ∧ t.actions.any Action.isCommand = true ∧
      t.actions.filterMap Action.pump? = [false] := by
  decide +kernel

end Controller

end Brewhouse
