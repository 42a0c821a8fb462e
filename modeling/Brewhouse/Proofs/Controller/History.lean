import Brewhouse.Proofs.Controller.Run

/-!
Runs as they are seen from outside. A call gives the outcome that a tick tells its caller, and the
actions asked for; a history is what the calls of a run have given. The report that a controller
remembers is the last one it has sent.
-/

namespace Brewhouse

def Action.isNote : Action → Bool
  | .note _ => true
  | _ => false

/-- Actions without those that leave a notice. -/
def audible (actions : List Action) : List Action :=
  actions.filter fun action => !action.isNote

@[simp]
theorem audible_append (some more : List Action) :
    audible (some ++ more) = audible some ++ audible more :=
  List.filter_append ..

theorem report?_audible (actions : List Action) :
    (audible actions).filterMap Action.report? = actions.filterMap Action.report? := by
  rw [audible, List.filterMap_filter]
  congr 1
  funext action
  cases action <;> rfl

namespace Controller

/-- A call, and for how long the operator is waited for at each pause in it. -/
structure Turn where
  call : Call
  waits : List Milliseconds

/-- What a call gives: the outcome, if it is a tick, and the actions. -/
structure Exchange where
  outcome? : Option (Except Fault TickOutcome)
  actions : List Action

def exchange (c : Controller) (turn : Turn) : Exchange where
  outcome? :=
    match turn.call with
    | .tick elapsed r => (c.tick elapsed r).outcome? turn.waits
    | _ => none
  actions := (c.answer turn.call).2

def follow (c : Controller) (turns : List Turn) : Controller :=
  c.run (turns.map Turn.call)

def history (c : Controller) : List Turn → List Exchange
  | [] => []
  | turn :: rest => c.exchange turn :: (c.answer turn.call).1.history rest

def reports (exchanges : List Exchange) : List Telemetry :=
  exchanges.flatMap fun e => e.actions.filterMap Action.report?

def Exchange.quiet (e : Exchange) : Exchange :=
  { e with actions := audible e.actions }

/-- Whether the call was a tick that a sensor fault has ended. -/
def Exchange.isFaulted (e : Exchange) : Bool :=
  match e.outcome? with
  | some (.error (.sensor _)) => true
  | _ => false

theorem run_append (c : Controller) (some more : List Call) :
    c.run (some ++ more) = (c.run some).run more :=
  List.foldl_append

/-! ### The configuration -/

theorem configuration_carryOn (c : Controller) (x : Sample) (r : Readings) :
    (c.carryOn x r).controller.configuration = c.configuration := by
  rcases carryOn_cases c x r with ⟨_, -, h⟩ | ⟨-, -, h⟩ | ⟨-, -, h⟩ <;> rw [h]
  · rfl
  · rfl
  · unfold endRunning
    split <;> rfl

/-- No call touches the configuration. -/
theorem configuration_answer (c : Controller) (call : Call) :
    (c.answer call).1.configuration = c.configuration := by
  cases call with
  | load script => rfl
  | obey order => cases order <;> rfl
  | tick elapsed r =>
      simp only [answer]
      rcases tick_cases c elapsed r with
        ⟨-, h⟩ | ⟨_, -, -, h⟩ | ⟨_, _, -, -, -, h⟩ | ⟨hlt, mash, -, -, -, h⟩ <;> rw [h]
      · rfl
      · rfl
      · exact configuration_carryOn c.counted _ r

theorem configuration_tick (c : Controller) (elapsed : Milliseconds) (r : Readings) :
    (c.tick elapsed r).controller.configuration = c.configuration :=
  c.configuration_answer (.tick elapsed r)

theorem configuration_run (c : Controller) (calls : List Call) :
    (c.run calls).configuration = c.configuration := by
  induction calls generalizing c with
  | nil => rfl
  | cons call rest ih => exact (ih _).trans (c.configuration_answer call)

/-! ### Sensor faults -/

/-- The readings fail: the fault is that of the first one to fail, and no other is taken after it. -/
inductive Fails (r : Readings) (fault : SensorFault) : List Action → Prop where
  | hlt (h : r.hlt = .error fault) : Fails r fault [.readTemperature .hotLiquor]
  | mash (hlt : Celsius) (h : r.hlt = .ok hlt) (hmash : r.mash = .error fault) :
      Fails r fault [.readTemperature .hotLiquor, .readTemperature .mashTun]

theorem audible_endFaulty (c : Controller) {r : Readings} {fault : SensorFault} {reads : List Action}
    (h : Fails r fault reads) :
    audible (c.endFaulty reads fault).actions = reads ++ [.allOff, .emit (.sensorFault fault)] := by
  cases h <;> rfl

/-- Once the readings are in, a tick ends in one of four ways, and a sensor fault is none of them. -/
theorem verdict_carryOn (c : Controller) (x : Sample) (r : Readings) (fault : SensorFault) :
    (c.carryOn x r).verdict ≠ .sensorFault fault := by
  intro hverdict
  rcases carryOn_cases c x r with ⟨_, -, h⟩ | ⟨-, -, h⟩ | ⟨-, -, h⟩ <;> rw [h] at hverdict
  · cases hverdict
  · cases hverdict
  · unfold endRunning at hverdict
    split at hverdict <;> cases hverdict

theorem tick_of_sensorFault {c : Controller} {elapsed : Milliseconds} {r : Readings}
    {fault : SensorFault} (h : (c.tick elapsed r).verdict = .sensorFault fault) :
    ∃ reads, Fails r fault reads ∧ c.tick elapsed r = c.counted.endFaulty reads fault := by
  rcases tick_cases c elapsed r with
    ⟨-, htick⟩ | ⟨_, -, hhlt, htick⟩ | ⟨_, _, -, hhlt, hmash, htick⟩ | ⟨_, _, -, -, -, htick⟩ <;>
    rw [htick] at h ⊢
  · cases h
  · cases h
    exact ⟨_, .hlt hhlt, rfl⟩
  · cases h
    exact ⟨_, .mash _ hhlt hmash, rfl⟩
  · exact absurd h (verdict_carryOn _ _ r fault)

/-- An exchange that a sensor fault has ended was a tick whose readings failed. -/
theorem exchange_of_isFaulted {c : Controller} {turn : Turn}
    (h : (c.exchange turn).isFaulted = true) :
    ∃ elapsed r fault reads, turn.call = .tick elapsed r ∧ Fails r fault reads ∧
      c.tick elapsed r = c.counted.endFaulty reads fault := by
  obtain ⟨call, waits⟩ := turn
  cases call with
  | load script => cases h
  | obey order => cases h
  | tick elapsed r =>
      cases hverdict : (c.tick elapsed r).verdict with
      | sensorFault fault =>
          obtain ⟨reads, hfails, htick⟩ := tick_of_sensorFault hverdict
          exact ⟨elapsed, r, fault, reads, rfl, hfails, htick⟩
      | running =>
          simp only [Exchange.isFaulted, exchange, Tick.outcome?, hverdict] at h
          split at h
          · next hsensor => split at hsensor <;> cases hsensor
          · cases h
      | _ => simp [Exchange.isFaulted, exchange, Tick.outcome?, hverdict] at h

/-! ### The last report -/

theorem last_carryOn (c : Controller) (x : Sample) (r : Readings) :
    (c.carryOn x r).controller.last =
      ((c.carryOn x r).actions.filterMap Action.report?).getLast?.or c.last := by
  have hquiet : (c.crossed x).filterMap Action.report? = [] := (c.crossed_actions x).2
  rcases carryOn_cases c x r with ⟨fault, -, h⟩ | ⟨-, -, h⟩ | ⟨-, -, h⟩ <;> rw [h]
  · rw [endScript, List.filterMap_append, hquiet]
    rfl
  · rw [endScript, List.filterMap_append, hquiet]
    rfl
  · unfold endRunning
    split
    · rw [hquiet]
      rfl
    · rw [List.filterMap_append, hquiet]
      rfl

/-- A controller remembers the last report it has sent. -/
theorem last_answer (c : Controller) (call : Call) :
    (c.answer call).1.last =
      ((c.answer call).2.filterMap Action.report?).getLast?.or c.last := by
  cases call with
  | load script => rfl
  | obey order =>
      cases order with
      | load script => rfl
      | abort =>
          simp only [answer, obey]
          split <;> rfl
  | tick elapsed r =>
      simp only [answer]
      rcases tick_cases c elapsed r with
        ⟨-, h⟩ | ⟨_, -, -, h⟩ | ⟨_, _, -, -, -, h⟩ | ⟨hlt, mash, -, -, -, h⟩ <;> rw [h]
      · rfl
      · rfl
      · rfl
      · exact last_carryOn c.counted _ r

/-- Notices are no reports. -/
theorem reports_map_quiet (exchanges : List Exchange) :
    reports (exchanges.map Exchange.quiet) = reports exchanges := by
  rw [reports, List.flatMap_map, reports]
  congr 1
  funext e
  exact report?_audible e.actions

theorem last_follow (c : Controller) (turns : List Turn) :
    (c.follow turns).last = (reports (c.history turns)).getLast?.or c.last := by
  induction turns generalizing c with
  | nil => rfl
  | cons turn rest ih =>
      change ((c.answer turn.call).1.follow rest).last = _
      rw [ih, last_answer, ← Option.or_assoc, ← List.getLast?_append]
      rfl

end Controller

end Brewhouse
