import Brewhouse.Proofs.Controller.Run
import Brewhouse.Proofs.Script.Refreshes

/-!
The target that is shown. After every step that leaves a script waiting, the target is that of the
statement under the cursor, worked out from the readings of that step. So a controller whose script goes
on always has a target to regulate to.
-/

namespace Brewhouse

namespace Controller

/-- A tick that comes to the regulator has a target for it. -/
theorem target_of_tick {c : Controller} {elapsed : Milliseconds} {r : Readings}
    (h : (c.tick elapsed r).verdict = .running ∨ (c.tick elapsed r).verdict = .unregulated) :
    ∃ target, (c.tick elapsed r).controller.script.target = some target := by
  rcases tick_cases c elapsed r with
    ⟨-, htick⟩ | ⟨_, -, -, htick⟩ | ⟨_, _, -, -, -, htick⟩ | ⟨hlt, mash, -, -, -, htick⟩ <;>
    rw [htick] at h ⊢
  · simp at h
  · simp [endFaulty] at h
  · simp [endFaulty] at h
  · rcases carryOn_cases c.counted ⟨elapsed, hlt, mash⟩ r with
      ⟨_, -, hcarry⟩ | ⟨-, -, hcarry⟩ | ⟨hfault, hgoes, -⟩
    · rw [hcarry] at h
      simp [endScript] at h
    · rw [hcarry] at h
      simp [endScript] at h
    · obtain ⟨target, htarget⟩ := Script.step_target hfault hgoes
      exact ⟨_, (congrArg Script.target (script_carryOn c.counted _ r)).trans htarget⟩

end Controller

namespace Script

/-- The target that is shown is always that of the active statement for the readings of the last step:
an offset target once ramp-up was complete just before that target was worked out. Ramp-up is complete
from the first target on that the tank had reached when it was worked out while mashing with water, so
the second target of a step sees what the first has brought about. A tick that comes to the regulator
has a target. -/
theorem target_of_active (s : Script) (samples : List Sample) (x : Sample) :
    let before := s.run samples
    let after := (before.step x).script
    ((before.step x).fault = none → after.completed = false →
      ∃ last, (before.refreshes x).getLast? = some last ∧
        after.target = some (after.targetFor x last.before.rampedUp)) ∧
    (before.rampedUp = true → after.rampedUp = true) ∧
    (∀ earlier f later, s.refreshesOver (samples ++ [x]) = earlier ++ f :: later →
      f.before.rampedUp = (s.rampedUp || earlier.any Refresh.reaches)) ∧
    after.rampedUp = (s.rampedUp || (s.refreshesOver (samples ++ [x])).any Refresh.reaches) ∧
    (before.refreshes x).length ≤ 2 ∧
    (∀ first second, before.refreshes x = [first, second] → first.reaches = true →
      second.before.rampedUp = true ∧
        ((before.step x).fault = none → after.completed = false →
          after.target = some (after.targetFor x true))) ∧
    ∀ (c : Controller) (elapsed : Milliseconds) (r : Readings),
      (c.tick elapsed r).verdict = .running ∨ (c.tick elapsed r).verdict = .unregulated →
        ∃ target, (c.tick elapsed r).controller.script.target = some target := by
  intro before after
  have hafter : s.run (samples ++ [x]) = after := List.foldl_append
  have hrun : Latched s.rampedUp (s.refreshesOver (samples ++ [x])) after.rampedUp :=
    hafter ▸ s.latched_run (samples ++ [x])
  have hstep : Latched before.rampedUp (before.refreshes x) after.rampedUp :=
    latched_cascade x _ false before
  refine ⟨step_refreshed, fun hramped => ?_, fun earlier f later hsplit => ?_, hrun.after_eq,
    before.length_refreshes_le x, fun first second hrefreshes hreaches => ?_,
    fun _ _ _ => Controller.target_of_tick⟩
  · rw [hstep.after_eq, hramped, Bool.true_or]
  · exact (hsplit ▸ hrun).before_eq
  · have hpair : Latched before.rampedUp ([first] ++ second :: []) after.rampedUp := by
      rwa [hrefreshes] at hstep
    have hsecond : second.before.rampedUp = true := by
      rw [hpair.before_eq, List.any_cons, hreaches, Bool.true_or, Bool.or_true]
    refine ⟨hsecond, fun hfault hgoes => ?_⟩
    obtain ⟨last, hlast, htarget⟩ := step_refreshed hfault hgoes
    rw [hrefreshes] at hlast
    obtain rfl : second = last := Option.some.inj hlast
    rwa [hsecond] at htarget

/-- A tank at 70 °C has reached the ramp-up target of 55 °C for a setpoint of 60 °C, so the hold behind
it is shown with an offset target. -/
theorem target_of_active_of_heat :
    let s := ofStatements .standard
      [.mash, .mashWater (some 16000), .heat (some 60), .pause, .hold (some (62, 1000))]
    let x : Sample := ⟨1000, 70, 60⟩
    (s.step x).script.cursor = 4 ∧ (s.refreshes x).map (·.before.rampedUp) = [false, true] ∧
      (s.step x).script.rampedUp = true ∧ (s.step x).script.target = some 64 := by
  intro s x
  obtain ⟨-, -, -, hramped, -, hoffset, -⟩ := target_of_active s [] x
  obtain ⟨first, second, hpair⟩ : ∃ first second, s.refreshes x = [first, second] :=
    List.length_eq_two.mp (by decide +kernel)
  have hreaches : first.reaches = true := by
    have hfirst : ((s.refreshes x).head?.map Refresh.reaches) = some true := by decide +kernel
    simpa [hpair] using hfirst
  obtain ⟨-, htarget⟩ := hoffset first second hpair hreaches
  refine ⟨by decide +kernel, by decide +kernel, hramped.trans (by decide +kernel), ?_⟩
  exact (htarget (by decide +kernel) (by decide +kernel)).trans (by decide +kernel)

end Script

end Brewhouse
