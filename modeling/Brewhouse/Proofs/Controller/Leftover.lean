import Brewhouse.Proofs.Controller.History
import Mathlib.Data.List.Induction

/-!
The duty that a controller shows while no script is running. Loading a script clears it, and so does a
script that ends or fails. A script that is given up leaves it as it was: everything has been switched
off, and the controller still shows the duty of the last tick, until another script is loaded.
-/

namespace Brewhouse.Controller

open Control

variable {c : Controller}

/-! ### One call -/

/-- A tick that has ended a script has cleared the duty. -/
theorem tick_ends {elapsed : Milliseconds} {r : Readings} (hrun : c.isRunning = true)
    (hidle : (c.tick elapsed r).controller.isRunning = false) :
    (c.tick elapsed r).controller.state ≠ .awaitingScript ∧
      (c.tick elapsed r).controller.duty = .idle c.configuration.heaterPeriod := by
  rcases tick_cases c elapsed r with
    ⟨hnone, -⟩ | ⟨_, -, -, htick⟩ | ⟨_, _, -, -, -, htick⟩ | ⟨hlt, mash, -, -, -, htick⟩
  · exact absurd (hnone.symm.trans hrun) Bool.false_ne_true
  · rw [htick] at hidle
    exact absurd (hidle.symm.trans hrun) Bool.false_ne_true
  · rw [htick] at hidle
    exact absurd (hidle.symm.trans hrun) Bool.false_ne_true
  · rw [htick] at hidle ⊢
    rcases carryOn_cases c.counted ⟨elapsed, hlt, mash⟩ r with
      ⟨_, -, hcarry⟩ | ⟨-, -, hcarry⟩ | ⟨-, -, hcarry⟩ <;> rw [hcarry] at hidle ⊢
    · exact ⟨by simp [endScript], rfl⟩
    · exact ⟨by simp [endScript], rfl⟩
    · refine absurd (hidle.symm.trans ?_) Bool.false_ne_true
      unfold endRunning
      split <;> exact hrun

/-- While nothing is running, a call that loads nothing leaves the duty alone. -/
theorem duty_of_idle (hidle : c.isRunning = false) {call : Call} (hcall : call.script? = none) :
    (c.answer call).1.isRunning = false ∧ (c.answer call).1.duty = c.duty ∧
      (c.state = .awaitingScript → (c.answer call).1.state = .awaitingScript) := by
  rcases Call.eq_abort_or_tick hcall with rfl | ⟨elapsed, r, rfl⟩
  · exact ⟨rfl, rfl, fun _ => rfl⟩
  · rw [answer, tick_of_idle hidle]
    exact ⟨hidle, rfl, id⟩

/-! ### Runs -/

/-- After the past calls a script was running, and the next one gave it up. None was loaded since. -/
def GivenUp (c : Controller) (calls past : List Call) : Prop :=
  ∃ later, calls = past ++ .obey .abort :: later ∧ (c.run past).isRunning = true ∧
    ∀ call ∈ later, call.script? = none

theorem GivenUp.concat {calls past : List Call} (h : GivenUp c calls past) {call : Call}
    (hcall : call.script? = none) : GivenUp c (calls ++ [call]) past := by
  obtain ⟨later, rfl, hrun, hlater⟩ := h
  refine ⟨later ++ [call], by simp, hrun, ?_⟩
  exact List.forall_mem_append.mpr ⟨hlater, List.forall_mem_singleton.mpr hcall⟩

/-- A script that was given up has left its duty. -/
theorem GivenUp.duty {calls past : List Call} (h : GivenUp c calls past) :
    (c.run calls).state = .awaitingScript ∧ (c.run calls).duty = (c.run past).duty := by
  obtain ⟨later, rfl, -, hlater⟩ := h
  have hkept (d : Controller) (hd : d.state = .awaitingScript) :
      (d.run later).state = .awaitingScript ∧ (d.run later).duty = d.duty := by
    induction later generalizing d with
    | nil => exact ⟨hd, rfl⟩
    | cons call rest ih =>
        obtain ⟨hcall, hrest⟩ := List.forall_mem_cons.mp hlater
        obtain ⟨-, hduty, hstate⟩ := duty_of_idle (c := d) (by rw [isRunning, hd]; rfl) hcall
        obtain ⟨hlast, hlastDuty⟩ := ih hrest _ (hstate hd)
        exact ⟨hlast, hlastDuty.trans hduty⟩
  rw [run_append]
  exact hkept ((c.run past).answer (.obey .abort)).1 rfl

/-- What a controller without a running script shows is no duty, unless a script was given up. -/
theorem duty_idle_or_givenUp (configuration : Configuration) (calls : List Call)
    (hidle : ((fresh configuration).run calls).isRunning = false) :
    ((fresh configuration).run calls).duty = .idle configuration.heaterPeriod ∨
      ∃ past, GivenUp (fresh configuration) calls past := by
  induction calls using List.reverseRecOn with
  | nil => exact Or.inl rfl
  | append_singleton earlier call ih =>
      cases hcall : call.script? with
      | some script =>
          rw [run_append] at hidle
          cases call with
          | load script => cases hidle
          | obey order =>
              cases order with
              | load script => cases hidle
              | abort => cases hcall
          | tick elapsed r => cases hcall
      | none =>
          cases hrun : ((fresh configuration).run earlier).isRunning with
          | false =>
              rw [run_append]
              rcases ih hrun with hduty | ⟨past, hpast⟩
              · exact Or.inl ((duty_of_idle hrun hcall).2.1.trans hduty)
              · exact Or.inr ⟨past, hpast.concat hcall⟩
          | true =>
              rcases Call.eq_abort_or_tick hcall with rfl | ⟨elapsed, r, rfl⟩
              · exact Or.inr ⟨earlier, [], rfl, hrun, List.forall_mem_nil _⟩
              · rw [run_append] at hidle ⊢
                have hduty := (tick_ends hrun hidle).2
                rw [configuration_run] at hduty
                exact Or.inl hduty

/-- Where nothing is running the heater shows no duty, unless the last script that was running has been given
up: then the duty is the one that was shown before. So it is off unless the heater was on in the tick
before the script was given up, and it always is after a script that ended or failed. -/
theorem duty_off_unless_given_up (configuration : Configuration) (calls : List Call)
    (hidle : ((fresh configuration).run calls).isRunning = false) :
    let c := (fresh configuration).run calls
    (c.duty.on = 0 ↔ ∀ past, GivenUp (fresh configuration) calls past →
      ((fresh configuration).run past).duty.on = 0) ∧
    (∀ past, GivenUp (fresh configuration) calls past →
      c.state = .awaitingScript ∧ c.duty = ((fresh configuration).run past).duty) ∧
    (c.state ≠ .awaitingScript → c.duty = .idle configuration.heaterPeriod) := by
  intro c
  have hcases := duty_idle_or_givenUp configuration calls hidle
  refine ⟨⟨fun hoff past hpast => ?_, fun hpasts => ?_⟩, fun past hpast => hpast.duty, fun hstate => ?_⟩
  · rw [← hpast.duty.2]
    exact hoff
  · rcases hcases with hduty | ⟨past, hpast⟩
    · rw [hduty]
      rfl
    · rw [hpast.duty.2]
      exact hpasts past hpast
  · rcases hcases with hduty | ⟨past, hpast⟩
    · exact hduty
    · exact absurd hpast.duty.1 hstate

/-- A script that comes to its end leaves no duty, and one that is given up leaves that of its last tick. -/
theorem duty_off_unless_given_up_of_heat :
    let script := Script.ofStatements .standard [.heat (some 65)]
    let cold : Readings := ⟨.ok 60, .ok 20, true, true⟩
    let hot : Readings := ⟨.ok 70, .ok 20, true, true⟩
    let past : List Call := [.load script, .tick 1000 cold]
    let ended := (fresh .standard).run (past ++ [.tick 1000 hot])
    let left := (fresh .standard).run (past ++ [.obey .abort, .tick 1000 cold])
    ended.isRunning = false ∧ ended.duty = .idle 1000 ∧
      left.isRunning = false ∧ left.duty = ((fresh .standard).run past).duty := by
  intro script cold hot past ended left
  have hended : ended.isRunning = false := by decide +kernel
  have hleft : left.isRunning = false := by decide +kernel
  have hcompleted : ended.state ≠ .awaitingScript := by decide +kernel
  have hgiven : GivenUp (fresh .standard) (past ++ [.obey .abort, .tick 1000 cold]) past :=
    ⟨[.tick 1000 cold], rfl, by decide +kernel, List.forall_mem_singleton.mpr rfl⟩
  exact ⟨hended, (duty_off_unless_given_up .standard _ hended).2.2 hcompleted, hleft,
    ((duty_off_unless_given_up .standard _ hleft).2.1 past hgiven).2⟩

/-- The heater is on for all of its window, and the script is given up. Nothing is running any more and
everything is off, but the duty is still a full one. -/
theorem duty_left_by_abort :
    let script := Script.ofStatements .standard [.heat (some 65)]
    let c := (fresh .standard).run [.load script, .tick 1000 ⟨.ok 20, .ok 20, true, true⟩]
    (c.answer (.obey .abort)).2 = [.allOff, .note (.scriptAborted 0), .emit .scriptAborted] ∧
      (c.answer (.obey .abort)).1.state = .awaitingScript ∧
      (c.answer (.obey .abort)).1.duty = ⟨1000, 1000⟩ := by
  decide +kernel

end Brewhouse.Controller
