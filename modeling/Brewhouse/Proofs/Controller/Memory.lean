import Brewhouse.Proofs.Controller.Agreement
import Brewhouse.Proofs.Controller.Ceiling
import Mathlib.Data.List.DropRight

/-!
The memory of the regulator. Ticks that drive the heater feed it their readings, and no other call
touches it but the loading of a script. It starts anew with each new target, so what it remembers is the
last block of ticks that have all had the present target, and nothing of what was before them.
-/

namespace Brewhouse

def Action.drivesHeater : Action → Bool
  | .setHeater _ => true
  | _ => false

/-- What a tick that drives the heater feeds the regulator: the target and the reading. -/
structure Feeding where
  target : Celsius
  hlt : Celsius
  elapsed : Milliseconds
  deriving DecidableEq

/-- The last feedings on end that have had a target, to the bit. -/
def lastBlock (target : Celsius) (fed : List Feeding) : List Feeding :=
  fed.rtakeWhile fun f => f.target.toBits == target.toBits

theorem lastBlock_concat_of_eq {target : Celsius} {f : Feeding} (fed : List Feeding)
    (h : f.target = target) : lastBlock target (fed ++ [f]) = lastBlock target fed ++ [f] :=
  List.rtakeWhile_concat_pos _ _ _ (by rw [h, beq_self_eq_true])

/-- There is no block for a target other than the last one. -/
theorem lastBlock_eq_nil {target : Celsius} {fed : List Feeding}
    (h : ∀ f, fed.getLast? = some f → f.target.toBits ≠ target.toBits) :
    lastBlock target fed = [] := by
  rw [lastBlock, List.rtakeWhile_eq_nil_iff]
  intro hfed hlast
  exact h _ (List.getLast?_eq_some_getLast hfed) (eq_of_beq hlast)

namespace Control.Regulator

/-- Takes the readings of some ticks in. -/
def feed? (r : Regulator) (fed : List Feeding) : Option Regulator :=
  fed.foldlM (fun r f => (r.next? f.hlt f.elapsed).map Prod.fst) r

theorem setpoint_next? {r r' : Regulator} {measured : Celsius} {elapsed : Milliseconds}
    {output : Float32} (h : r.next? measured elapsed = some (r', output)) :
    r'.setpoint = r.setpoint := by
  simp only [next?, Option.bind_eq_bind, Option.bind_eq_some_iff, Option.pure_def] at h
  obtain ⟨integral, -, h⟩ := h
  split at h
  · cases h
    rfl
  · obtain ⟨output', -, h⟩ := Option.bind_eq_some_iff.mp h
    cases h
    rfl

/-- The regulator has taken in the last block for its setpoint, and that is the present target. -/
structure Remembers (r : Regulator) (c : Configuration) (fed : List Feeding) : Prop where
  current : ∀ f, fed.getLast? = some f → f.target = r.setpoint
  memory : (c.regulator r.setpoint).feed? (lastBlock r.setpoint fed) = some r

theorem remembers_fresh (c : Configuration) (target : Celsius) :
    (c.regulator target).Remembers c [] :=
  ⟨fun _ h => (by cases h), rfl⟩

theorem Remembers.next {r r' : Regulator} {c : Configuration} {fed : List Feeding} {f : Feeding}
    {output : Float32} (h : r.Remembers c fed)
    (hnext : (if r.setpoint.toBits = f.target.toBits then r else c.regulator f.target).next? f.hlt
      f.elapsed = some (r', output)) : r'.Remembers c (fed ++ [f]) := by
  have hfeed : (if r.setpoint.toBits = f.target.toBits then r else c.regulator f.target).feed? [f] =
      some r' := by
    simp only [feed?, List.foldlM_cons, List.foldlM_nil, hnext]
    rfl
  have hsetpoint : r'.setpoint = f.target := by
    rw [setpoint_next? hnext]
    split
    · next hbits => exact Float32.toBits_inj.mp hbits
    · rfl
  refine ⟨fun f' hf' => ?_, ?_⟩
  · rw [List.getLast?_concat] at hf'
    cases hf'
    exact hsetpoint.symm
  · rw [hsetpoint, lastBlock_concat_of_eq fed rfl]
    split at hfeed
    · next hbits =>
      have htarget : r.setpoint = f.target := Float32.toBits_inj.mp hbits
      have hmemory := h.memory
      rw [htarget] at hmemory
      rw [feed?, List.foldlM_append]
      exact (congrArg (· >>= _) hmemory).trans hfeed
    · next hbits =>
      rw [lastBlock_eq_nil fun f' hf' => by rwa [h.current f' hf'], List.nil_append]
      exact hfeed

end Control.Regulator

namespace Controller

variable {c : Controller}

/-- What a call feeds the regulator, if it is a tick that drives the heater. -/
def feeding? (c : Controller) : Call → Option Feeding
  | .tick elapsed r =>
    if (c.tick elapsed r).actions.any Action.drivesHeater then
      match (c.tick elapsed r).controller.script.target, r.hlt with
      | some target, .ok hlt => some ⟨target, hlt, elapsed⟩
      | _, _ => none
    else none
  | _ => none

def feedings (c : Controller) : List Call → List Feeding
  | [] => []
  | call :: rest => (c.feeding? call).toList ++ (c.answer call).1.feedings rest

theorem next?_of_regulate? {x : Sample} {regulator : Control.Regulator} {duty : Control.HeaterDuty}
    {target : Celsius} (htarget : c.script.target = some target)
    (h : c.regulate? x = some (regulator, duty)) :
    ∃ output, (c.regulatorFor target).next? x.hlt x.elapsed = some (regulator, output) := by
  simp only [regulate?, htarget, Option.bind_eq_bind, Option.bind_eq_some_iff, Option.pure_def,
    Option.some.injEq, Prod.mk.injEq] at h
  obtain ⟨⟨regulator', output⟩, hnext, rfl, -⟩ := h
  exact ⟨output, hnext⟩

theorem any_drivesHeater (actions : List Action) :
    actions.any Action.drivesHeater = true ↔ ∃ duty, .setHeater duty ∈ actions := by
  rw [List.any_eq_true]
  constructor
  · rintro ⟨action, hmem, hdrives⟩
    cases action <;> cases hdrives
    exact ⟨_, hmem⟩
  · rintro ⟨duty, hmem⟩
    exact ⟨_, hmem, rfl⟩

/-- A tick that does not drive the heater leaves the regulator alone; one that does feeds it its reading
for the target it has come to. -/
theorem tick_feeds (c : Controller) (elapsed : Milliseconds) (r : Readings) :
    ((∀ duty, .setHeater duty ∉ (c.tick elapsed r).actions) ∧
      (c.tick elapsed r).controller.regulator = c.regulator) ∨
    ∃ target hlt duty output, r.hlt = .ok hlt ∧
      (c.tick elapsed r).verdict = .running ∧ .setHeater duty ∈ (c.tick elapsed r).actions ∧
      (c.tick elapsed r).controller.script.target = some target ∧
      (c.regulatorFor target).next? hlt elapsed =
        some ((c.tick elapsed r).controller.regulator, output) := by
  rcases tick_cases c elapsed r with
    ⟨-, htick⟩ | ⟨_, -, -, htick⟩ | ⟨_, _, -, -, -, htick⟩ | ⟨hlt, mash, -, hhlt, -, htick⟩
  · rw [htick]
    exact Or.inl ⟨by simp, rfl⟩
  · rw [htick]
    exact Or.inl ⟨by simp [endFaulty], rfl⟩
  · rw [htick]
    exact Or.inl ⟨by simp [endFaulty], rfl⟩
  · obtain ⟨hquiet, -⟩ := crossed_actions c.counted ⟨elapsed, hlt, mash⟩
    rcases carryOn_cases c.counted ⟨elapsed, hlt, mash⟩ r with
      ⟨_, -, hcarry⟩ | ⟨-, -, hcarry⟩ | ⟨hfault, hgoes, hcarry⟩ <;> rw [hcarry] at htick
    · rw [htick]
      exact Or.inl ⟨by simp [endScript, hquiet], rfl⟩
    · rw [htick]
      exact Or.inl ⟨by simp [endScript, hquiet], rfl⟩
    · cases hregulate : (c.counted.stepped ⟨elapsed, hlt, mash⟩).regulate? ⟨elapsed, hlt, mash⟩ with
      | none =>
          rw [endRunning, hregulate] at htick
          rw [htick]
          exact Or.inl ⟨hquiet, rfl⟩
      | some result =>
          obtain ⟨regulator, duty⟩ := result
          obtain ⟨goal, htarget⟩ := Script.step_target hfault hgoes
          obtain ⟨output, hnext⟩ := next?_of_regulate? htarget hregulate
          rw [endRunning, hregulate] at htick
          rw [htick]
          exact Or.inr ⟨_, hlt, duty, output, hhlt, rfl, by simp, htarget, hnext⟩

theorem feeding?_of_target {elapsed : Milliseconds} {r : Readings} {duty : Control.HeaterDuty}
    {target hlt : Celsius} (hduty : .setHeater duty ∈ (c.tick elapsed r).actions)
    (htarget : (c.tick elapsed r).controller.script.target = some target) (hhlt : r.hlt = .ok hlt) :
    c.feeding? (.tick elapsed r) = some ⟨target, hlt, elapsed⟩ := by
  rw [feeding?, if_pos ((any_drivesHeater _).mpr ⟨duty, hduty⟩), htarget, hhlt]

theorem feeding?_eq_none {elapsed : Milliseconds} {r : Readings}
    (h : ∀ duty, .setHeater duty ∉ (c.tick elapsed r).actions) :
    c.feeding? (.tick elapsed r) = none := by
  refine if_neg fun hdrives => ?_
  obtain ⟨duty, hduty⟩ := (any_drivesHeater _).mp hdrives
  exact h duty hduty

/-- A tick that is idle, faulted or the script's last feeds nothing. -/
theorem feeding?_of_verdict {elapsed : Milliseconds} {r : Readings}
    (h : (c.tick elapsed r).verdict ≠ .running) : c.feeding? (.tick elapsed r) = none := by
  rcases tick_feeds c elapsed r with ⟨hquiet, -⟩ | ⟨_, _, _, _, -, hverdict, -⟩
  · exact feeding?_eq_none hquiet
  · exact absurd hverdict h

/-- A call that loads no script keeps the memory of the regulator in step with the feedings. -/
theorem remembers_answer {fed : List Feeding} {call : Call}
    (h : c.regulator.Remembers c.configuration fed) (hcall : call.script? = none) :
    (c.answer call).1.regulator.Remembers c.configuration (fed ++ (c.feeding? call).toList) := by
  rcases Call.eq_abort_or_tick hcall with rfl | ⟨elapsed, r, rfl⟩
  · change c.regulator.Remembers c.configuration (fed ++ [])
    rwa [List.append_nil]
  · rcases tick_feeds c elapsed r with ⟨hquiet, hkept⟩ |
      ⟨target, hlt, duty, output, hhlt, -, hduty, htarget, hnext⟩
    · rw [feeding?_eq_none hquiet, Option.toList_none, List.append_nil, answer, hkept]
      exact h
    · rw [feeding?_of_target hduty htarget hhlt]
      exact h.next (f := ⟨target, hlt, elapsed⟩) hnext

theorem remembers_run {fed : List Feeding} {calls : List Call}
    (h : c.regulator.Remembers c.configuration fed) (hcalls : ∀ call ∈ calls, call.script? = none) :
    (c.run calls).regulator.Remembers c.configuration (fed ++ c.feedings calls) := by
  induction calls generalizing c fed with
  | nil => rwa [feedings, List.append_nil]
  | cons call rest ih =>
      have hanswer := remembers_answer h (hcalls call List.mem_cons_self)
      rw [← configuration_answer c call] at hanswer ⊢
      rw [feedings, ← List.append_assoc]
      exact ih hanswer fun later hlater => hcalls later (List.mem_cons_of_mem _ hlater)

/-- A script that is loaded finds a regulator without a memory. -/
theorem remembers_loading {loading : Call} {script : Script} (h : loading.script? = some script) :
    (c.answer loading).1.regulator.Remembers (c.answer loading).1.configuration [] := by
  rw [answer_of_script? c h]
  exact Control.Regulator.remembers_fresh _ 0

/-- A script that is running was loaded by a call, and none was loaded after it. -/
theorem exists_loading (hidle : c.isRunning = false) {calls : List Call}
    (hrun : (c.run calls).isRunning = true) :
    ∃ past loading later script, calls = past ++ loading :: later ∧
      loading.script? = some script ∧ ∀ call ∈ later, call.script? = none := by
  induction calls using List.reverseRecOn with
  | nil => exact absurd (hidle.symm.trans hrun) (by decide)
  | append_singleton earlier call ih =>
      cases hcall : call.script? with
      | some script => exact ⟨earlier, call, [], script, rfl, hcall, by simp⟩
      | none =>
          have hearlier : (c.run earlier).isRunning = true := by
            rw [run_append] at hrun
            rcases Call.eq_abort_or_tick hcall with rfl | ⟨elapsed, r, rfl⟩
            · cases hrun
            · exact isRunning_of_tick hrun
          obtain ⟨past, loading, later, script, rfl, hloading, hlater⟩ := ih hearlier
          exact ⟨past, loading, later ++ [call], script, by simp, hloading,
            List.forall_mem_append.mpr ⟨hlater, List.forall_mem_singleton.mpr hcall⟩⟩

/-- No loading comes after one that none is said to come after. -/
theorem loading_last {loading loading' : Call} {script : Script} {later later' between : List Call}
    (hlater : ∀ call ∈ later, call.script? = none) (hloading : loading'.script? = some script)
    (hcalls : loading :: later = between ++ loading' :: later') :
    between = [] ∧ loading = loading' ∧ later = later' := by
  cases between with
  | nil =>
      obtain ⟨rfl, rfl⟩ := List.cons.inj hcalls
      exact ⟨rfl, rfl, rfl⟩
  | cons call between =>
      obtain ⟨rfl, rfl⟩ := List.cons.inj hcalls
      rw [hlater loading' (by simp)] at hloading
      cases hloading

theorem loading_unique {past past' later later' : List Call} {loading loading' : Call}
    {script script' : Script} (hcalls : past ++ loading :: later = past' ++ loading' :: later')
    (hloading : loading.script? = some script) (hloading' : loading'.script? = some script')
    (hlater : ∀ call ∈ later, call.script? = none) (hlater' : ∀ call ∈ later', call.script? = none) :
    past = past' ∧ loading = loading' ∧ later = later' := by
  rcases List.append_eq_append_iff.mp hcalls with ⟨between, rfl, hrest⟩ | ⟨between, rfl, hrest⟩
  · obtain ⟨rfl, rfl, rfl⟩ := loading_last hlater hloading' hrest
    exact ⟨(List.append_nil _).symm, rfl, rfl⟩
  · obtain ⟨rfl, rfl, rfl⟩ := loading_last hlater' hloading hrest
    exact ⟨List.append_nil _, rfl, rfl⟩

theorem feedings_append (c : Controller) (earlier later : List Call) :
    c.feedings (earlier ++ later) = c.feedings earlier ++ (c.run earlier).feedings later := by
  induction earlier generalizing c with
  | nil => rfl
  | cons call rest ih =>
      rw [List.cons_append, feedings, feedings, ih, List.append_assoc]
      rfl

theorem remembers_since_loading (configuration : Configuration) (past : List Call) {loading : Call}
    {script : Script} {later : List Call} (hloading : loading.script? = some script)
    (hlater : ∀ call ∈ later, call.script? = none) :
    ((fresh configuration).run (past ++ loading :: later)).regulator.Remembers configuration
      (((fresh configuration).run (past ++ [loading])).feedings later) := by
  have hloaded : ((fresh configuration).run (past ++ [loading])).regulator.Remembers
      ((fresh configuration).run (past ++ [loading])).configuration [] := by
    rw [run_append]
    exact remembers_loading hloading
  have hfollowed := remembers_run hloaded hlater
  rw [configuration_run, ← run_append, List.append_assoc, List.singleton_append] at hfollowed
  exact hfollowed

/-- What the regulator remembers of a run. After a tick that drives the heater it is a new regulator for
the present target that has been fed, one after the other, the last block of readings that were taken for
this target since the script was loaded. Idle and faulted ticks feed nothing, so they are in no block and
break none. -/
theorem regulator_remembers_block (configuration : Configuration) (calls : List Call) :
    (∀ (c : Controller) elapsed r, (c.tick elapsed r).verdict ≠ .running →
      c.feeding? (.tick elapsed r) = none) ∧
    ∀ elapsed r duty,
      .setHeater duty ∈ (((fresh configuration).run calls).tick elapsed r).actions →
      ∃ past loading later script target hlt, calls = past ++ loading :: later ∧
        loading.script? = some script ∧ (∀ call ∈ later, call.script? = none) ∧
        (((fresh configuration).run calls).tick elapsed r).controller.script.target = some target ∧
        r.hlt = .ok hlt ∧
        let fed := ((fresh configuration).run (past ++ [loading])).feedings
          (later ++ [.tick elapsed r])
        fed.getLast? = some ⟨target, hlt, elapsed⟩ ∧
        (configuration.regulator target).feed? (lastBlock target fed) =
          some (((fresh configuration).run calls).tick elapsed r).controller.regulator := by
  refine ⟨fun c elapsed r hverdict => feeding?_of_verdict hverdict, fun elapsed r duty h => ?_⟩
  obtain ⟨-, -, -, hrun, -⟩ := setHeater_mem_tick h
  obtain ⟨past, loading, later, script, rfl, hloading, hlater⟩ := exists_loading rfl hrun
  have hcalls : ∀ call ∈ later ++ [.tick elapsed r], call.script? = none :=
    List.forall_mem_append.mpr ⟨hlater, List.forall_mem_singleton.mpr rfl⟩
  have hremembers : (((fresh configuration).run (past ++ loading :: later)).tick elapsed
      r).controller.regulator.Remembers configuration
      (((fresh configuration).run (past ++ [loading])).feedings (later ++ [.tick elapsed r])) := by
    have hsince := remembers_since_loading configuration past hloading hcalls
    rw [← List.cons_append, ← List.append_assoc, run_append] at hsince
    exact hsince
  have hrun_later : ((fresh configuration).run (past ++ [loading])).run later =
      (fresh configuration).run (past ++ loading :: later) := by
    rw [← run_append, List.append_assoc, List.singleton_append]
  rcases tick_feeds ((fresh configuration).run (past ++ loading :: later)) elapsed r with
    ⟨hquiet, -⟩ | ⟨target, hlt, duty', output, hhlt, -, hduty, htarget, -⟩
  · exact absurd h (hquiet duty)
  · have hfed : (((fresh configuration).run (past ++ [loading])).feedings
        (later ++ [.tick elapsed r])).getLast? = some ⟨target, hlt, elapsed⟩ := by
      rw [feedings_append, hrun_later, feedings, feeding?_of_target hduty htarget hhlt]
      exact List.getLast?_concat
    have hsetpoint := hremembers.current _ hfed
    have hmemory := hremembers.memory
    rw [← show target = _ from hsetpoint] at hmemory
    exact ⟨past, loading, later, script, target, hlt, rfl, hloading, hlater, htarget, hhlt, hfed,
      hmemory⟩

/-- A tick without the mash tun is left out of the block for 65 °C, which goes on over the end of a hold;
neither the hold at 60 °C before it nor the same target in the script before has a part in it. -/
theorem regulator_remembers_block_of_holds :
    let script := Script.ofStatements Configuration.standard.thermalModel
      [.hold (some (60, 1500)), .hold (some (65, 1000)), .hold (some (65, 60000))]
    let other := Script.ofStatements Configuration.standard.thermalModel [.hold (some (65, 60000))]
    let warm : Readings := ⟨.ok 64, .ok 64, true, true⟩
    let broken : Readings := ⟨.ok 64, .error (.disconnected .mashTun), true, true⟩
    let cool : Readings := ⟨.ok 62, .ok 63, true, true⟩
    let earlier : List Call := [.load other, .tick 1000 cool]
    let later : List Call := [.tick 1000 warm, .tick 600 warm, .tick 700 broken, .tick 1000 cool]
    let calls := earlier ++ .load script :: later
    (((fresh Configuration.standard).run calls).tick 400 cool).controller.script.cursor = 2 ∧
      (Configuration.standard.regulator 65).feed? [⟨65, 64, 600⟩, ⟨65, 62, 1000⟩, ⟨65, 62, 400⟩] =
        some (((fresh Configuration.standard).run calls).tick 400 cool).controller.regulator := by
  intro script other warm broken cool earlier later calls
  have hduty : .setHeater ⟨305, 1000⟩ ∈
      (((fresh Configuration.standard).run calls).tick 400 cool).actions := by decide +kernel
  have htarget : (((fresh Configuration.standard).run calls).tick 400 cool).controller.script.target =
      some 65 := by decide +kernel
  have hlater : ∀ call ∈ later, call.script? = none := by simp [later, Call.script?]
  obtain ⟨past, loading, rest, loaded, target, hlt, hcalls, hloading, hrest, htarget', -, -,
    hmemory⟩ := (regulator_remembers_block Configuration.standard calls).2 400 cool _ hduty
  obtain ⟨rfl, rfl, rfl⟩ := loading_unique hcalls rfl hloading hlater hrest
  have hblock : lastBlock 65 (((fresh Configuration.standard).run
      (earlier ++ [.load script])).feedings (later ++ [.tick 400 cool])) =
      [⟨65, 64, 600⟩, ⟨65, 62, 1000⟩, ⟨65, 62, 400⟩] := by decide +kernel
  rw [htarget, Option.some.injEq] at htarget'
  rw [← htarget', hblock] at hmemory
  exact ⟨by decide +kernel, hmemory⟩

end Controller

end Brewhouse
