import Brewhouse.Proofs.Controller.History

/-!
Controllers that agree. The count of ticks and the last report are written down and never looked at, so
two controllers that agree in all else go on doing the same. Hence a tick that a sensor fault has ended
leaves no trace in what comes after it, and a script that is loaded finds nothing of the scripts before
it.
-/

namespace Brewhouse.Controller

/-- The controllers differ at most in the count of ticks and in the last report. -/
structure Agrees (c c' : Controller) : Prop where
  configuration : c'.configuration = c.configuration
  script : c'.script = c.script
  regulator : c'.regulator = c.regulator
  pump : c'.pump = c.pump
  state : c'.state = c.state
  duty : c'.duty = c.duty

theorem agrees_refl (c : Controller) : c.Agrees c :=
  ⟨rfl, rfl, rfl, rfl, rfl, rfl⟩

variable {c c' : Controller}

theorem Agrees.eq (h : c.Agrees c') : c' = { c with ticks := c'.ticks, last := c'.last } := by
  obtain ⟨hconfiguration, hscript, hregulator, hpump, hstate, hduty⟩ := h
  cases c'
  simp_all only

theorem Agrees.counted (h : c.Agrees c') : c.counted.Agrees c'.counted :=
  ⟨h.configuration, h.script, h.regulator, h.pump, h.state, h.duty⟩

/-! ### One call -/

theorem Agrees.carryOn (h : c.Agrees c') (x : Sample) (r : Readings) :
    (c'.carryOn x r).verdict = (c.carryOn x r).verdict ∧
      (c'.carryOn x r).actions = (c.carryOn x r).actions ∧
      (c.carryOn x r).controller.Agrees (c'.carryOn x r).controller := by
  rw [h.eq]
  simp only [Controller.carryOn]
  cases (c.script.step x).fault with
  | some fault => exact ⟨rfl, rfl, rfl, rfl, rfl, rfl, rfl, rfl⟩
  | none =>
      dsimp only
      split
      · exact ⟨rfl, rfl, rfl, rfl, rfl, rfl, rfl, rfl⟩
      · have hregulate (ticks : Nat) (last : Option Telemetry) :
            regulate? { c with script := (c.script.step x).script, ticks := ticks, last := last } x =
              regulate? { c with script := (c.script.step x).script } x := rfl
        unfold endRunning
        rw [hregulate]
        split
        · exact ⟨rfl, rfl, rfl, rfl, rfl, rfl, rfl, rfl⟩
        · exact ⟨rfl, rfl, rfl, rfl, rfl, rfl, rfl, rfl⟩

/-- The count of ticks is told in the notice of a sensor fault, and nowhere else. -/
theorem Agrees.tick (h : c.Agrees c') (elapsed : Milliseconds) (r : Readings) :
    (c'.tick elapsed r).verdict = (c.tick elapsed r).verdict ∧
      audible (c'.tick elapsed r).actions = audible (c.tick elapsed r).actions ∧
      ((∀ fault, (c.tick elapsed r).verdict ≠ .sensorFault fault) →
        (c'.tick elapsed r).actions = (c.tick elapsed r).actions) ∧
      (c.tick elapsed r).controller.Agrees (c'.tick elapsed r).controller := by
  have hrunning : c'.isRunning = c.isRunning := by rw [isRunning, isRunning, h.state]
  cases hrun : c.isRunning with
  | false =>
      rw [hrun] at hrunning
      simp only [Controller.tick, hrun, hrunning]
      exact ⟨rfl, rfl, fun _ => rfl, h⟩
  | true =>
      rw [hrun] at hrunning
      cases hhlt : r.hlt with
      | error fault =>
          simp only [Controller.tick, hrun, hrunning, hhlt]
          exact ⟨rfl, rfl, fun hfault => absurd rfl (hfault fault), h.counted⟩
      | ok hlt =>
          cases hmash : r.mash with
          | error fault =>
              simp only [Controller.tick, hrun, hrunning, hhlt, hmash]
              exact ⟨rfl, rfl, fun hfault => absurd rfl (hfault fault), h.counted⟩
          | ok mash =>
              simp only [Controller.tick, hrun, hrunning, hhlt, hmash]
              obtain ⟨hverdict, hactions, hagrees⟩ := h.counted.carryOn ⟨elapsed, hlt, mash⟩ r
              exact ⟨hverdict, congrArg audible hactions, fun _ => hactions, hagrees⟩

/-- Of a controller that loads a script, no more than the configuration is left. -/
theorem agrees_load (hconfiguration : c'.configuration = c.configuration) (script : Script) :
    (c.load script).1.Agrees (c'.load script).1 := by
  constructor <;> simp only [Controller.load, hconfiguration]

theorem Agrees.obey (h : c.Agrees c') (order : Order) :
    (c'.obey order).2 = (c.obey order).2 ∧ (c.obey order).1.Agrees (c'.obey order).1 := by
  cases order with
  | load script => exact ⟨rfl, agrees_load h.configuration script⟩
  | abort =>
      rw [h.eq]
      exact ⟨rfl, rfl, rfl, rfl, rfl, rfl, rfl⟩

/-- Controllers that agree give the same, notices apart, and the same notices too unless a sensor fault
ends the call. -/
theorem Agrees.exchange (h : c.Agrees c') (turn : Turn) :
    (c'.exchange turn).quiet = (c.exchange turn).quiet ∧
      ((c.exchange turn).isFaulted = false → c'.exchange turn = c.exchange turn) ∧
      (c.answer turn.call).1.Agrees (c'.answer turn.call).1 := by
  obtain ⟨call, waits⟩ := turn
  cases call with
  | load script => exact ⟨rfl, fun _ => rfl, agrees_load h.configuration script⟩
  | obey order =>
      obtain ⟨hactions, hagrees⟩ := h.obey order
      have hexchange : c'.exchange ⟨.obey order, waits⟩ = c.exchange ⟨.obey order, waits⟩ := by
        simp only [Controller.exchange, answer, hactions]
      exact ⟨congrArg Exchange.quiet hexchange, fun _ => hexchange, hagrees⟩
  | tick elapsed r =>
      obtain ⟨hverdict, haudible, hactions, hagrees⟩ := h.tick elapsed r
      have houtcome : (c'.tick elapsed r).outcome? waits = (c.tick elapsed r).outcome? waits := by
        rw [Tick.outcome?, Tick.outcome?, hverdict]
      refine ⟨?_, fun hsound => ?_, hagrees⟩
      · simp only [Exchange.quiet, Controller.exchange, answer, houtcome, haudible]
      · have hfault (fault : SensorFault) : (c.tick elapsed r).verdict ≠ .sensorFault fault := by
          intro hfault
          simp [Exchange.isFaulted, Controller.exchange, Tick.outcome?, hfault] at hsound
        simp only [Controller.exchange, answer, houtcome, hactions hfault]

theorem Agrees.history (h : c.Agrees c') (turns : List Turn) :
    (c'.history turns).map Exchange.quiet = (c.history turns).map Exchange.quiet ∧
      (c.follow turns).Agrees (c'.follow turns) := by
  induction turns generalizing c c' with
  | nil => exact ⟨rfl, h⟩
  | cons turn rest ih =>
      obtain ⟨hquiet, -, hanswer⟩ := h.exchange turn
      obtain ⟨hrest, hfollow⟩ := ih hanswer
      refine ⟨?_, hfollow⟩
      simp only [Controller.history, List.map_cons, hquiet, hrest]

/-! ### Runs without faulty ticks -/

/-- The turns without the ticks that a sensor fault has ended. -/
def unfaulted (c : Controller) : List Turn → List Turn
  | [] => []
  | turn :: rest =>
    let kept := (c.answer turn.call).1.unfaulted rest
    if (c.exchange turn).isFaulted then kept else turn :: kept

/-- A tick that a sensor fault has ended counts itself and leaves everything else alone. -/
theorem answer_of_isFaulted {turn : Turn} (h : (c.exchange turn).isFaulted = true) :
    (c.answer turn.call).1 = c.counted := by
  obtain ⟨elapsed, r, fault, reads, hcall, -, htick⟩ := exchange_of_isFaulted h
  rw [hcall, answer, htick]
  rfl

theorem Agrees.unfaulted (h : c.Agrees c') (hlast : c'.last = c.last) (turns : List Turn) :
    c'.history (c.unfaulted turns) = (c.history turns).filter (fun e => !e.isFaulted) ∧
      (c.follow turns).Agrees (c'.follow (c.unfaulted turns)) ∧
      (c'.follow (c.unfaulted turns)).last = (c.follow turns).last := by
  induction turns generalizing c c' with
  | nil => exact ⟨rfl, h, hlast⟩
  | cons turn rest ih =>
      by_cases hfaulted : (c.exchange turn).isFaulted
      · have hanswer := answer_of_isFaulted hfaulted
        have hcounted : (c.answer turn.call).1.Agrees c' := by
          rw [hanswer]
          exact ⟨h.configuration, h.script, h.regulator, h.pump, h.state, h.duty⟩
        obtain ⟨hhistory, hrest⟩ := ih hcounted (by rw [hanswer]; exact hlast)
        rw [Controller.unfaulted, if_pos hfaulted, Controller.history,
          List.filter_cons_of_neg (by rw [hfaulted]; decide)]
        exact ⟨hhistory, hrest⟩
      · obtain ⟨-, hexchange, hanswer⟩ := h.exchange turn
        have hsame := hexchange (Bool.eq_false_iff.mpr hfaulted)
        have hactions : (c'.answer turn.call).2 = (c.answer turn.call).2 :=
          congrArg Exchange.actions hsame
        have hanswered : (c'.answer turn.call).1.last = (c.answer turn.call).1.last := by
          rw [last_answer, last_answer, hactions, hlast]
        obtain ⟨hhistory, hrest⟩ := ih hanswer hanswered
        rw [Controller.unfaulted, if_neg hfaulted, Controller.history, Controller.history, hsame,
          hhistory, List.filter_cons_of_pos (by simpa using hfaulted)]
        exact ⟨rfl, hrest⟩

/-- The ticks that sensor faults have ended can be left out of a run. Every other call gives the same,
and the controller comes out of the run as it would have, but for its count of ticks. A tick that is left
out takes no more than the temperatures up to the first that fails, switches everything off and tells
that one fault. -/
theorem sensor_faults_leave_no_trace (c : Controller) (turns : List Turn) :
    let kept := c.unfaulted turns
    c.history kept = (c.history turns).filter (fun e => !e.isFaulted) ∧
      (c.follow turns).Agrees (c.follow kept) ∧
      (c.follow kept).last = (c.follow turns).last ∧
      ∀ earlier turn later, turns = earlier ++ turn :: later →
        ((c.follow earlier).exchange turn).isFaulted = true →
        ∃ elapsed r fault reads, turn.call = .tick elapsed r ∧ Fails r fault reads ∧
          ((c.follow earlier).exchange turn).quiet =
            ⟨some (.error (.sensor fault)), reads ++ [.allOff, .emit (.sensorFault fault)]⟩ := by
  intro kept
  obtain ⟨hhistory, hagrees, hlast⟩ := (agrees_refl c).unfaulted rfl turns
  refine ⟨hhistory, hagrees, hlast, fun earlier turn later _ hfaulted => ?_⟩
  obtain ⟨elapsed, r, fault, reads, hcall, hfails, htick⟩ := exchange_of_isFaulted hfaulted
  refine ⟨elapsed, r, fault, reads, hcall, hfails, ?_⟩
  simp only [Exchange.quiet, Controller.exchange, answer, hcall, htick, audible_endFaulty _ hfails]
  rfl

/-- A brewery that holds 65 °C goes on after a tick without the mash tun as if it had not taken place. -/
theorem sensor_faults_leave_no_trace_of_hold :
    let script := Script.ofStatements Configuration.standard.thermalModel [.hold (some (65, 60000))]
    let c := (fresh Configuration.standard).run [.load script]
    let sound : Turn := ⟨.tick 1000 ⟨.ok 20, .ok 20, true, true⟩, []⟩
    let broken : Turn := ⟨.tick 700 ⟨.ok 20, .error (.disconnected .mashTun), true, true⟩, []⟩
    c.unfaulted [sound, broken, sound] = [sound, sound] ∧
      (c.follow [sound, sound]).script = (c.follow [sound, broken, sound]).script ∧
      (c.follow [sound, sound]).regulator = (c.follow [sound, broken, sound]).regulator ∧
      (c.follow [sound, sound]).last = (c.follow [sound, broken, sound]).last ∧
      ((c.follow [sound]).exchange broken).quiet.actions =
        [.readTemperature .hotLiquor, .readTemperature .mashTun, .allOff,
          .emit (.sensorFault (.disconnected .mashTun))] := by
  intro script c sound broken
  obtain ⟨-, hagrees, hlast, hfaulted⟩ := sensor_faults_leave_no_trace c [sound, broken, sound]
  have hkept : c.unfaulted [sound, broken, sound] = [sound, sound] := by
    have hfirst : ¬(c.exchange sound).isFaulted := by decide +kernel
    have hbroken : ((c.follow [sound]).exchange broken).isFaulted := by decide +kernel
    have hsecond : ¬((c.follow [sound, broken]).exchange sound).isFaulted := by decide +kernel
    rw [unfaulted, if_neg hfirst]
    refine congrArg _ ?_
    rw [unfaulted]
    refine (if_pos hbroken).trans ?_
    rw [unfaulted]
    exact if_neg hsecond
  obtain ⟨_, _, fault, reads, hcall, hfails, hactions⟩ :=
    hfaulted [sound] broken [sound] rfl (by decide +kernel)
  rw [hkept] at hagrees hlast
  refine ⟨hkept, hagrees.script, hagrees.regulator, hlast, ?_⟩
  cases hcall
  cases hfails with
  | hlt h => cases h
  | mash hlt h hmash =>
      cases hmash
      rw [hactions]
      rfl

/-! ### Scripts that are loaded -/

theorem answer_of_script? {loading : Call} {script : Script} (c : Controller)
    (h : loading.script? = some script) : (c.answer loading).1 = (c.load script).1 := by
  cases loading with
  | load script' =>
      cases h
      rfl
  | obey order =>
      cases order with
      | load script' =>
          cases h
          rfl
      | abort => cases h
  | tick elapsed r => cases h

/-- A script that is loaded runs as if nothing had been before it. Whatever two controllers of one
configuration have gone through, from then on they give the same, notices apart, and they agree all the
way; their last reports are the same as soon as there is one. -/
theorem load_forgets (configuration : Configuration) (past past' : List Call) {loading loading' : Call}
    {script : Script} (h : loading.script? = some script) (h' : loading'.script? = some script)
    (turns : List Turn) :
    let c := (fresh configuration).run (past ++ [loading])
    let c' := (fresh configuration).run (past' ++ [loading'])
    (c'.history turns).map Exchange.quiet = (c.history turns).map Exchange.quiet ∧
      (c.follow turns).Agrees (c'.follow turns) ∧
      (reports (c.history turns) ≠ [] → (c'.follow turns).last = (c.follow turns).last) := by
  intro c c'
  have hc : c = (((fresh configuration).run past).load script).1 :=
    (run_append ..).trans (answer_of_script? _ h)
  have hc' : c' = (((fresh configuration).run past').load script).1 :=
    (run_append ..).trans (answer_of_script? _ h')
  have hagrees : c.Agrees c' := by
    rw [hc, hc']
    apply agrees_load
    rw [configuration_run, configuration_run]
  obtain ⟨hquiet, hfollow⟩ := hagrees.history turns
  refine ⟨hquiet, hfollow, fun hreports => ?_⟩
  have hsame : reports (c'.history turns) = reports (c.history turns) := by
    rw [← reports_map_quiet, hquiet, reports_map_quiet]
  rw [last_follow, last_follow, hsame, List.getLast?_eq_some_getLast hreports]
  rfl

/-- One controller loads a hold after a heat that it has given up with its heater on, the other one as
its first script. -/
theorem load_forgets_of_hold :
    let script := Script.ofStatements Configuration.standard.thermalModel [.hold (some (65, 60000))]
    let other := Script.ofStatements Configuration.standard.thermalModel [.heat (some 70)]
    let cold : Readings := ⟨.ok 20, .ok 20, true, true⟩
    let past : List Call := [.load other, .tick 1000 cold]
    let c := (fresh Configuration.standard).run (past ++ [.obey (.load script)])
    let c' := (fresh Configuration.standard).run ([] ++ [.load script])
    ((fresh Configuration.standard).run past).duty ≠ (fresh Configuration.standard).duty ∧
      c.last ≠ c'.last ∧
      (c.follow [⟨.tick 1000 cold, []⟩]).Agrees (c'.follow [⟨.tick 1000 cold, []⟩]) ∧
      (c'.follow [⟨.tick 1000 cold, []⟩]).last = (c.follow [⟨.tick 1000 cold, []⟩]).last := by
  intro script other cold past c c'
  have hload : (Call.obey (.load script)).script? = some script := rfl
  have hload' : (Call.load script).script? = some script := rfl
  obtain ⟨-, hagrees, hlast⟩ :=
    load_forgets Configuration.standard past [] hload hload' [⟨.tick 1000 cold, []⟩]
  exact ⟨by decide +kernel, by decide +kernel, hagrees, hlast (by decide +kernel)⟩

end Brewhouse.Controller
