import Brewhouse.Proofs.Controller.History
import Brewhouse.Proofs.Place

/-!
The life of scripts as it is told. Of all events four tell where a script is in its life: it is loaded,
and it comes to its end, fails or is given up. A call moves the run state along with the ones it sends,
so whoever hears them knows whether a script is running; and all other events come from a script that
is running.
-/

namespace Brewhouse

def Action.event? : Action → Option Event
  | .emit event => some event
  | _ => none

namespace Event

def opens : Event → Bool
  | .scriptLoaded .. => true
  | _ => false

/-- A script is at its end, in one way or another. -/
def closes : Event → Bool
  | .scriptCompleted | .scriptFailed _ | .scriptAborted => true
  | _ => false

/-- The event tells where a script is in its life. -/
def isMilestone (e : Event) : Bool :=
  e.opens || e.closes

end Event

def milestones (actions : List Action) : List Event :=
  (actions.filterMap Action.event?).filter Event.isMilestone

@[simp]
theorem milestones_append (some more : List Action) :
    milestones (some ++ more) = milestones some ++ milestones more := by
  rw [milestones, List.filterMap_append, List.filter_append]
  rfl

theorem milestones_signals (signals : List Signal) :
    milestones (signals.flatMap Signal.actions) = [] := by
  induction signals with
  | nil => rfl
  | cons signal rest ih =>
      rw [List.flatMap_cons, milestones_append, ih]
      cases signal <;> rfl

/-! ### One call -/

/-- How the run state moves in a call, and the milestones that are told of it. -/
inductive Passage : RunState → List Event → RunState → Prop where
  | stays (state : RunState) : Passage state [] state
  | loads (state : RunState) (phase : Phase) (statements : Nat) :
      Passage state [.scriptLoaded phase statements] .running
  | completes : Passage .running [.scriptCompleted] .completed
  | fails (fault : ScriptFault) : Passage .running [.scriptFailed fault] .failed
  | aborts : Passage .running [.scriptAborted] .awaitingScript
  /-- Nothing was running that could have been given up. -/
  | clears {state : RunState} (hidle : state ≠ .running) : Passage state [] .awaitingScript

namespace Controller

variable {c : Controller}

theorem milestones_crossed (c : Controller) (x : Sample) : milestones (c.crossed x) = [] := by
  rw [crossed, milestones_append, milestones_signals]
  rfl

theorem passage_carryOn (hrunning : c.state = .running) (x : Sample) (r : Readings) :
    Passage c.state (milestones (c.carryOn x r).actions) (c.carryOn x r).controller.state := by
  rw [hrunning]
  rcases carryOn_cases c x r with ⟨fault, -, h⟩ | ⟨-, -, h⟩ | ⟨-, -, h⟩ <;> rw [h]
  · rw [endScript, milestones_append, milestones_crossed]
    exact .fails fault
  · rw [endScript, milestones_append, milestones_crossed]
    exact .completes
  · have hstepped : (c.stepped x).state = .running := hrunning
    unfold endRunning
    split
    · rw [milestones_crossed, hstepped]
      exact .stays .running
    · rw [milestones_append, milestones_crossed]
      change Passage .running [] (c.stepped x).state
      rw [hstepped]
      exact .stays .running

theorem passage_tick (c : Controller) (elapsed : Milliseconds) (r : Readings) :
    Passage c.state (milestones (c.tick elapsed r).actions)
      (c.tick elapsed r).controller.state := by
  rcases tick_cases c elapsed r with
    ⟨-, h⟩ | ⟨_, -, -, h⟩ | ⟨_, _, -, -, -, h⟩ | ⟨hlt, mash, hrun, -, -, h⟩ <;> rw [h]
  · exact .stays c.state
  · exact .stays c.state
  · exact .stays c.state
  · exact passage_carryOn (c := c.counted) (eq_of_beq hrun) ⟨elapsed, hlt, mash⟩ r

theorem passage_answer (c : Controller) (call : Call) :
    Passage c.state (milestones (c.answer call).2) (c.answer call).1.state := by
  cases call with
  | load script => exact .loads ..
  | obey order =>
      cases order with
      | load script => exact .loads ..
      | abort =>
          cases hrun : c.isRunning with
          | true =>
              have hstate : c.state = .running := eq_of_beq hrun
              simp only [answer, obey, hrun, hstate]
              exact .aborts
          | false =>
              have hidle : c.state ≠ .running := fun hstate => by simp [isRunning, hstate] at hrun
              simp only [answer, obey, hrun]
              exact .clears hidle
  | tick elapsed r => exact c.passage_tick elapsed r

/-- A controller with no script running sends no event but a milestone. -/
theorem isMilestone_of_idle (hidle : c.isRunning = false) (call : Call) {e : Event}
    (he : e ∈ (c.answer call).2.filterMap Action.event?) : e.isMilestone = true := by
  cases call with
  | load script =>
      obtain rfl : e = .scriptLoaded script.phase script.statements.length :=
        List.mem_singleton.mp he
      rfl
  | obey order =>
      cases order with
      | load script =>
          obtain rfl : e = .scriptLoaded script.phase script.statements.length :=
            List.mem_singleton.mp he
          rfl
      | abort =>
          simp only [answer, obey, hidle] at he
          cases he
  | tick elapsed r =>
      rw [answer, tick_of_idle hidle] at he
      cases he

/-! ### Runs -/

def told (c : Controller) : List Call → List Event
  | [] => []
  | call :: rest => milestones (c.answer call).2 ++ (c.answer call).1.told rest

end Controller

/-- Every end that is told of follows at once on the loading of the script. -/
def Paired (told : List Event) : Prop :=
  ∀ earlier e later, told = earlier ++ e :: later → e.closes = true →
    ∃ loaded, earlier.getLast? = some loaded ∧ loaded.opens = true

theorem Paired.concat {told : List Event} {e : Event} (h : Paired told)
    (he : e.closes = true → ∃ loaded, told.getLast? = some loaded ∧ loaded.opens = true) :
    Paired (told ++ [e]) := by
  intro earlier e' later hsplit hcloses
  rcases concat_eq_append_cons_iff.mp hsplit with ⟨rfl, rfl, -⟩ | ⟨before, htold, -⟩
  · exact he hcloses
  · exact h earlier e' before htold hcloses

/-- The milestones told so far agree with the run state. -/
structure Mirrors (told : List Event) (state : RunState) : Prop where
  paired : Paired told
  running : state = .running ↔ ∃ loaded, told.getLast? = some loaded ∧ loaded.opens = true
  completed : state = .completed → told.getLast? = some .scriptCompleted
  failed : state = .failed → ∃ fault, told.getLast? = some (.scriptFailed fault)
  /-- A script that is running has been loaded, and its end is still to be told. -/
  counted : told.countP Event.closes + (if state = .running then 1 else 0) ≤
    told.countP Event.opens

theorem mirrors_nil : Mirrors [] .awaitingScript where
  paired earlier e later hsplit := by simp at hsplit
  running := by simp
  completed h := by cases h
  failed h := by cases h
  counted := by simp

/-- A running script has come to its end, and the news of it leaves nothing running. -/
theorem Mirrors.close {told : List Event} {state : RunState} {e : Event} (h : Mirrors told .running)
    (hcloses : e.closes = true) (hidle : state ≠ .running)
    (hcompleted : state = .completed → e = .scriptCompleted)
    (hfailed : state = .failed → ∃ fault, e = .scriptFailed fault) : Mirrors (told ++ [e]) state where
  paired := h.paired.concat fun _ => h.running.mp rfl
  running := by
    cases e <;> simp_all [Event.opens, Event.closes]
  completed hstate := by rw [List.getLast?_concat, hcompleted hstate]
  failed hstate := by
    obtain ⟨fault, rfl⟩ := hfailed hstate
    exact ⟨fault, List.getLast?_concat⟩
  counted := by
    have hcounted := h.counted
    rw [if_pos rfl] at hcounted
    rw [if_neg hidle, List.countP_append, List.countP_append, List.countP_singleton, if_pos hcloses]
    omega

theorem Mirrors.passage {told news : List Event} {state state' : RunState} (h : Mirrors told state)
    (hpassage : Passage state news state') : Mirrors (told ++ news) state' := by
  have hcounted := h.counted
  cases hpassage with
  | stays => rwa [List.append_nil]
  | loads phase statements =>
      refine ⟨h.paired.concat fun hcloses => ?_, by simp [Event.opens], fun hstate => ?_,
        fun hstate => ?_, ?_⟩
      · cases hcloses
      · cases hstate
      · cases hstate
      · simp [List.countP_append, Event.opens, Event.closes] at hcounted ⊢
        omega
  | completes => exact h.close rfl (by decide) (fun _ => rfl) (fun hstate => by cases hstate)
  | fails fault => exact h.close rfl (by decide) (fun hstate => by cases hstate) (fun _ => ⟨fault, rfl⟩)
  | aborts =>
      exact h.close rfl (by decide) (fun hstate => by cases hstate) (fun hstate => by cases hstate)
  | clears hidle =>
      rw [List.append_nil]
      refine ⟨h.paired, by simpa [hidle] using h.running, fun hstate => ?_, fun hstate => ?_, ?_⟩
      · cases hstate
      · cases hstate
      · simpa [hidle] using hcounted

namespace Controller

theorem mirrors_run {c : Controller} {before : List Event} (h : Mirrors before c.state)
    (calls : List Call) : Mirrors (before ++ c.told calls) (c.run calls).state := by
  induction calls generalizing c before with
  | nil => rwa [told, List.append_nil]
  | cons call rest ih =>
      rw [told, ← List.append_assoc]
      exact ih (h.passage (c.passage_answer call))

/-- The milestones of a run mirror its state. An end is told of right after the script was loaded, so
there is at most one for each script and none without one. A script is running if and only if the last
milestone is its loading, and a run is completed or failed only if the last milestone says so. All other
events are sent by calls that have found a script running. -/
theorem milestones_mirror_state (configuration : Configuration) (calls : List Call) :
    let c := (fresh configuration).run calls
    let heard := (fresh configuration).told calls
    Paired heard ∧
      heard.countP Event.closes ≤ heard.countP Event.opens ∧
      (c.isRunning = true ↔ ∃ loaded, heard.getLast? = some loaded ∧ loaded.opens = true) ∧
      (c.state = .completed → heard.getLast? = some .scriptCompleted) ∧
      (c.state = .failed → ∃ fault, heard.getLast? = some (.scriptFailed fault)) ∧
      ∀ call e, c.isRunning = false → e ∈ (c.answer call).2.filterMap Action.event? →
        e.isMilestone = true := by
  intro c heard
  have hfresh : Mirrors [] (fresh configuration).state := mirrors_nil
  have hmirrors : Mirrors heard c.state := mirrors_run hfresh calls
  have hcounted := hmirrors.counted
  refine ⟨hmirrors.paired, by omega, ?_, hmirrors.completed, hmirrors.failed, ?_⟩
  · rw [isRunning, beq_iff_eq]
    exact hmirrors.running
  · intro call e hidle he
    exact isMilestone_of_idle hidle call he

/-- A script is given up when there is none, and one is put in place of another; it pauses and fails in
the same tick, and is given up too late. -/
theorem milestones_mirror_state_of_failure :
    let tag := Tag.ofChars 'B' 'O' 'I'
    let hold := Script.ofStatements .standard [.hold (some (65, 60000))]
    let broken := Script.ofStatements .standard [.pause, .unknown tag]
    let calls : List Call := [.obey .abort, .load hold, .load broken,
      .tick 1000 ⟨.ok 20, .ok 20, true, true⟩, .obey .abort]
    let loadings : List Event := [.scriptLoaded .initialising 1, .scriptLoaded .initialising 2]
    (fresh .standard).told calls = loadings ++ [.scriptFailed (.unknownCommand tag)] ∧
      (∃ loaded, loadings.getLast? = some loaded ∧ loaded.opens = true) ∧
      ((fresh .standard).run calls).isRunning = false := by
  intro tag hold broken calls loadings
  have hheard : (fresh .standard).told calls =
      loadings ++ [.scriptFailed (.unknownCommand tag)] := by decide +kernel
  obtain ⟨hpaired, -, hrunning, -⟩ := milestones_mirror_state .standard calls
  refine ⟨hheard, hpaired loadings _ [] hheard rfl, Bool.eq_false_iff.mpr fun hrun => ?_⟩
  obtain ⟨loaded, hlast, hopens⟩ := hrunning.mp hrun
  rw [hheard, List.getLast?_concat] at hlast
  cases hlast
  cases hopens

end Controller

end Brewhouse
