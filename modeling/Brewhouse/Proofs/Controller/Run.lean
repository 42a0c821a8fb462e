import Brewhouse.Controller
import Brewhouse.Proofs.Script.Cascade

/-!
Runs of the controller. A run is a list of calls: scripts loaded, orders followed, ticks. What holds
of the script under way is told from the scripts that were loaded, since nothing but a step changes
it; and a tick asks for the heater in one place only, after a step that left the script waiting.
-/

namespace Brewhouse

def Action.report? : Action → Option Telemetry
  | .emit (.telemetry report) => some report
  | _ => none

namespace Controller

/-! ### Runs -/

inductive Call where
  | load (script : Script)
  | obey (order : Order)
  | tick (elapsed : Milliseconds) (readings : Readings)

/-- The script that a call sets under way. -/
def Call.script? : Call → Option Script
  | .load script | .obey (.load script) => some script
  | _ => none

/-- A call that loads no script gives one up or is a tick. -/
theorem Call.eq_abort_or_tick {call : Call} (h : call.script? = none) :
    call = .obey .abort ∨ ∃ elapsed r, call = .tick elapsed r := by
  cases call with
  | load script => cases h
  | obey order =>
      cases order with
      | load script => cases h
      | abort => exact Or.inl rfl
  | tick elapsed r => exact Or.inr ⟨elapsed, r, rfl⟩

def answer (c : Controller) : Call → Controller × List Action
  | .load script => c.load script
  | .obey order => c.obey order
  | .tick elapsed readings => ((c.tick elapsed readings).controller, (c.tick elapsed readings).actions)

def run (c : Controller) (calls : List Call) : Controller :=
  calls.foldl (fun c call => (c.answer call).1) c

/-! ### Ticks

A tick ends in one of four ways before its script steps, and the rest of it in one of three after. -/

def counted (c : Controller) : Controller :=
  { c with ticks := c.ticks + 1 }

theorem tick_of_idle {c : Controller} (h : c.isRunning = false) (elapsed : Milliseconds) (r : Readings) :
    c.tick elapsed r = ⟨c, .idle, []⟩ := by
  rw [tick, h, if_neg Bool.false_ne_true]

theorem tick_cases (c : Controller) (elapsed : Milliseconds) (r : Readings) :
    (c.isRunning = false ∧ c.tick elapsed r = ⟨c, .idle, []⟩) ∨
    (∃ fault, c.isRunning = true ∧ r.hlt = .error fault ∧
      c.tick elapsed r = c.counted.endFaulty [.readTemperature .hotLiquor] fault) ∨
    (∃ hlt fault, c.isRunning = true ∧ r.hlt = .ok hlt ∧ r.mash = .error fault ∧
      c.tick elapsed r = c.counted.endFaulty
        [.readTemperature .hotLiquor, .readTemperature .mashTun] fault) ∨
    (∃ hlt mash, c.isRunning = true ∧ r.hlt = .ok hlt ∧ r.mash = .ok mash ∧
      c.tick elapsed r = c.counted.carryOn ⟨elapsed, hlt, mash⟩ r) := by
  cases hrun : c.isRunning with
  | false => exact Or.inl ⟨rfl, tick_of_idle hrun elapsed r⟩
  | true =>
      cases hhlt : r.hlt with
      | error fault =>
          exact Or.inr (Or.inl ⟨fault, rfl, rfl, by simp [tick, hrun, hhlt, counted]⟩)
      | ok hlt =>
          cases hmash : r.mash with
          | error fault =>
              exact Or.inr (Or.inr (Or.inl
                ⟨hlt, fault, rfl, rfl, rfl, by simp [tick, hrun, hhlt, hmash, counted]⟩))
          | ok mash =>
              exact Or.inr (Or.inr (Or.inr
                ⟨hlt, mash, rfl, rfl, rfl, by simp [tick, hrun, hhlt, hmash, counted]⟩))

def stepped (c : Controller) (x : Sample) : Controller :=
  { c with script := (c.script.step x).script }

/-- What a tick asks for up to the end of the script's step. -/
def crossed (c : Controller) (x : Sample) : List Action :=
  [.readTemperature .hotLiquor, .readTemperature .mashTun, .readLevel .mashTun,
    .readLevel .kettle] ++ (c.script.step x).signals.flatMap Signal.actions

theorem carryOn_cases (c : Controller) (x : Sample) (r : Readings) :
    (∃ fault, (c.script.step x).fault = some fault ∧
      c.carryOn x r = (c.stepped x).endScript x r .failed (.scriptFault fault) (c.crossed x)
        (.scriptFailed fault)) ∨
    ((c.script.step x).fault = none ∧ (c.script.step x).script.completed = true ∧
      c.carryOn x r = (c.stepped x).endScript x r .completed .finished (c.crossed x)
        .scriptCompleted) ∨
    ((c.script.step x).fault = none ∧ (c.script.step x).script.completed = false ∧
      c.carryOn x r = (c.stepped x).endRunning x r (c.crossed x)) := by
  cases hfault : (c.script.step x).fault with
  | some fault => exact Or.inl ⟨fault, rfl, by simp only [carryOn, hfault]; rfl⟩
  | none =>
      cases hdone : (c.script.step x).script.completed with
      | true => exact Or.inr (Or.inl ⟨rfl, rfl, by simp only [carryOn, hfault, hdone]; rfl⟩)
      | false => exact Or.inr (Or.inr ⟨rfl, rfl, by simp only [carryOn, hfault, hdone]; rfl⟩)

/-- A tick in which the script goes on ends without a result of the regulator, or with the report,
the pump and the heater. -/
theorem endRunning_cases (c : Controller) (x : Sample) (r : Readings) (crossed : List Action) :
    (c.regulate? x = none ∧ c.endRunning x r crossed = ⟨c, .unregulated, crossed⟩) ∨
    ∃ regulator duty report pumpOn, c.regulate? x = some (regulator, duty) ∧
      report.target = c.script.target ∧
      (c.endRunning x r crossed).controller.script = c.script ∧
      (c.endRunning x r crossed).actions =
        crossed ++ [.emit (.telemetry report), .setPump pumpOn, .setHeater duty] := by
  cases hregulate : c.regulate? x with
  | none => exact Or.inl ⟨rfl, by rw [endRunning, hregulate]⟩
  | some result =>
      right
      rw [endRunning, hregulate]
      refine ⟨result.1, result.2, _, _, rfl, ?_, rfl, rfl⟩
      rfl

theorem script_carryOn (c : Controller) (x : Sample) (r : Readings) :
    (c.carryOn x r).controller.script = (c.script.step x).script := by
  rcases carryOn_cases c x r with ⟨fault, -, h⟩ | ⟨-, -, h⟩ | ⟨-, -, h⟩
  · rw [h, endScript, stepped]
  · rw [h, endScript, stepped]
  · rw [h]
    rcases endRunning_cases (c.stepped x) x r (c.crossed x) with
      ⟨-, hend⟩ | ⟨_, _, _, _, -, -, hscript, -⟩
    · rw [hend, stepped]
    · exact hscript

/-- The script after a tick is the one before it, or the one after a step. -/
theorem script_tick (c : Controller) (elapsed : Milliseconds) (r : Readings) :
    (c.tick elapsed r).controller.script = c.script ∨
      ∃ x, (c.tick elapsed r).controller.script = (c.script.step x).script := by
  rcases tick_cases c elapsed r with
    ⟨-, h⟩ | ⟨_, -, -, h⟩ | ⟨_, _, -, -, -, h⟩ | ⟨hlt, mash, -, -, -, h⟩ <;> rw [h]
  · exact Or.inl rfl
  · exact Or.inl rfl
  · exact Or.inl rfl
  · exact Or.inr ⟨⟨elapsed, hlt, mash⟩, script_carryOn c.counted _ r⟩

theorem isRunning_of_tick {c : Controller} {elapsed : Milliseconds} {r : Readings}
    (h : (c.tick elapsed r).controller.isRunning = true) : c.isRunning = true := by
  rcases tick_cases c elapsed r with
    ⟨-, htick⟩ | ⟨_, hrun, -⟩ | ⟨_, _, hrun, -⟩ | ⟨_, _, hrun, -⟩
  · rwa [htick] at h
  all_goals exact hrun

/-! ### The script under way -/

/-- What holds of the model of the script under way holds after a call, if it holds of the model of
the script that the call loads. -/
theorem model_answer {P : ThermalModel → Prop} {c : Controller} {call : Call}
    (hc : c.isRunning = true → P c.script.model)
    (hcall : ∀ script, call.script? = some script → P script.model)
    (hrun : (c.answer call).1.isRunning = true) : P (c.answer call).1.script.model := by
  cases call with
  | load script => exact hcall script rfl
  | obey order =>
      cases order with
      | load script => exact hcall script rfl
      | abort => cases hrun
  | tick elapsed r =>
      have hbefore := hc (isRunning_of_tick hrun)
      rcases script_tick c elapsed r with hscript | ⟨x, hscript⟩ <;> rw [answer, hscript]
      · exact hbefore
      · rwa [Script.step_model]

theorem model_run {P : ThermalModel → Prop} {c : Controller} {calls : List Call}
    (hc : c.isRunning = true → P c.script.model)
    (hcalls : ∀ script ∈ calls.filterMap Call.script?, P script.model)
    (hrun : (c.run calls).isRunning = true) : P (c.run calls).script.model := by
  induction calls generalizing c with
  | nil => exact hc hrun
  | cons call rest ih =>
      refine ih (model_answer hc fun script hscript => hcalls script ?_) (fun script hscript => ?_) hrun
      · exact List.mem_filterMap.mpr ⟨call, List.mem_cons_self, hscript⟩
      · obtain ⟨later, hlater, hloads⟩ := List.mem_filterMap.mp hscript
        exact hcalls script (List.mem_filterMap.mpr ⟨later, List.mem_cons_of_mem _ hlater, hloads⟩)

/-! ### The heater -/

/-- What a script's step asks for is no heat and no report. -/
theorem crossed_actions (c : Controller) (x : Sample) :
    (∀ duty, .setHeater duty ∉ c.crossed x) ∧ (c.crossed x).filterMap Action.report? = [] := by
  unfold crossed
  induction (c.script.step x).signals with
  | nil => simp [Action.report?]
  | cons signal rest ih =>
      obtain ⟨hduty, hreport⟩ := ih
      cases signal <;> simpa [Signal.actions, Action.report?] using And.intro hduty hreport

/-- A tick asks for the heater only after a step that left the script waiting; the duty is the one
the regulator works out for the reading, and the one report of the tick shows the script's target. -/
theorem setHeater_mem_tick {c : Controller} {elapsed : Milliseconds} {r : Readings}
    {duty : Control.HeaterDuty} (h : .setHeater duty ∈ (c.tick elapsed r).actions) :
    ∃ (x : Sample) (regulator : Control.Regulator) (report : Telemetry),
      c.isRunning = true ∧ r.hlt = .ok x.hlt ∧
        (c.script.step x).fault = none ∧ (c.script.step x).script.completed = false ∧
        (c.counted.stepped x).regulate? x = some (regulator, duty) ∧
        (c.tick elapsed r).actions.filterMap Action.report? = [report] ∧
        report.target = (c.script.step x).script.target := by
  rcases tick_cases c elapsed r with
    ⟨-, htick⟩ | ⟨_, -, -, htick⟩ | ⟨_, _, -, -, -, htick⟩ | ⟨hlt, mash, hrun, hhlt, -, htick⟩ <;>
    rw [htick] at h ⊢
  · simp at h
  · simp [endFaulty] at h
  · simp [endFaulty] at h
  · obtain ⟨hquiet, hreports⟩ := crossed_actions c.counted ⟨elapsed, hlt, mash⟩
    rcases carryOn_cases c.counted ⟨elapsed, hlt, mash⟩ r with
      ⟨_, -, hcarry⟩ | ⟨-, -, hcarry⟩ | ⟨hfault, hgoes, hcarry⟩ <;> rw [hcarry] at h ⊢
    · simp [endScript, hquiet] at h
    · simp [endScript, hquiet] at h
    · rcases endRunning_cases (c.counted.stepped ⟨elapsed, hlt, mash⟩) ⟨elapsed, hlt, mash⟩ r
          (c.counted.crossed ⟨elapsed, hlt, mash⟩) with
        ⟨-, hend⟩ | ⟨regulator, duty', report, pumpOn, hregulate, htarget, -, hactions⟩
      · simp [hend, hquiet] at h
      · rw [hactions] at h ⊢
        obtain rfl : duty = duty' := by simpa [hquiet] using h
        exact ⟨⟨elapsed, hlt, mash⟩, regulator, report, hrun, hhlt, hfault, hgoes, hregulate,
          by simp [hreports, Action.report?], htarget⟩

end Controller

end Brewhouse
