import Brewhouse.Control
import Brewhouse.Proofs.Exact.Word

/-!
The pump governor and the history of its switch. The governor's timer shows for how long the switch has
read full since it last read low, and stays at the timeout from there on; so the pump runs while that
time, counted without a bound, is below the timeout.
-/

namespace Brewhouse.Control

/-- A reading of the float switch, and the time since the reading before it. -/
structure LevelReading where
  elapsed : Milliseconds
  full : Bool
  deriving DecidableEq

/-- For how long the switch has read full since it last read low; `none` if it has never read low. -/
def fullSince (readings : List LevelReading) : Option Nat :=
  readings.foldl (fun since r => if r.full then since.map (· + r.elapsed.toNat) else some 0) none

def totalTime (readings : List LevelReading) : Nat :=
  (readings.map fun r => r.elapsed.toNat).sum

theorem totalTime_concat (readings : List LevelReading) (r : LevelReading) :
    totalTime (readings ++ [r]) = totalTime readings + r.elapsed.toNat := by
  simp [totalTime]

theorem fullSince_concat (readings : List LevelReading) (r : LevelReading) :
    fullSince (readings ++ [r]) =
      if r.full then (fullSince readings).map (· + r.elapsed.toNat) else some 0 := by
  rw [fullSince, List.foldl_append]
  rfl

/-- What the switch has read before a low reading does not matter. -/
theorem fullSince_of_low {before after : List LevelReading} {low : LevelReading}
    (hlow : low.full = false) (hfull : ∀ r ∈ after, r.full = true) :
    fullSince (before ++ low :: after) = some (totalTime after) := by
  induction after using List.reverseRecOn with
  | nil => rw [fullSince_concat, hlow]; rfl
  | append_singleton after r ih =>
      obtain ⟨hafter, hr⟩ := List.forall_mem_append.mp hfull
      rw [← List.cons_append, ← List.append_assoc, fullSince_concat, ih hafter,
        hr r (List.mem_singleton_self r), totalTime_concat]
      rfl

namespace PumpGovernor

/-- The timer of a governor shows for how long the switch has read full. -/
def Tracks (g : PumpGovernor) (timeout : Milliseconds) (since : Option Nat) : Prop :=
  g.timeout = timeout ∧ g.fullFor.toNat = min (since.getD timeout.toNat) timeout.toNat

theorem tracks_fresh (timeout : Milliseconds) : (fresh timeout).Tracks timeout none :=
  ⟨rfl, (Nat.min_self _).symm⟩

variable {g : PumpGovernor} {timeout : Milliseconds} {since : Option Nat}

/-- A low reading starts the time anew, and a full one adds to it. -/
theorem Tracks.step (h : g.Tracks timeout since) (elapsed : Milliseconds) (full : Bool) :
    (g.update elapsed full).Tracks timeout
      (if full then since.map (· + elapsed.toNat) else some 0) := by
  obtain ⟨htimeout, htimer⟩ := h
  cases full with
  | false => exact ⟨htimeout, by simp [PumpGovernor.update]⟩
  | true =>
      have hbound := timeout.toNat_lt
      have hsum := Exact.Word.toNat_saturatingAdd g.fullFor elapsed
      refine ⟨htimeout, ?_⟩
      -- a sum past the largest word is past the timeout, where the timer stops anyway
      have htop : (g.update elapsed true).fullFor.toNat =
          min (g.fullFor.toNat + elapsed.toNat) timeout.toNat := by
        simp only [PumpGovernor.update, if_true, htimeout, UInt32.lt_iff_toNat_lt]
        split <;> omega
      rw [htop, htimer]
      cases since with
      | none => simp only [Option.getD_none, if_true, Option.map_none]; omega
      | some time => simp only [Option.getD_some, if_true, Option.map_some]; omega

theorem Tracks.update {readings : List LevelReading} (h : g.Tracks timeout (fullSince readings))
    (elapsed : Milliseconds) (full : Bool) :
    (g.update elapsed full).Tracks timeout (fullSince (readings ++ [⟨elapsed, full⟩])) := by
  rw [fullSince_concat]
  exact h.step elapsed full

/-- The pump runs while the switch, since it last read low, has read full for less than the timeout. -/
theorem Tracks.pumpOn_iff (h : g.Tracks timeout since) :
    g.pumpOn = true ↔ ∃ time, since = some time ∧ time < timeout.toNat := by
  obtain ⟨rfl, htimer⟩ := h
  rw [pumpOn, decide_eq_true_iff, UInt32.lt_iff_toNat_lt, htimer]
  cases since with
  | none => simp
  | some time => simp

end PumpGovernor

end Brewhouse.Control
