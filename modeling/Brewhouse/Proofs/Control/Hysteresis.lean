import Brewhouse.Proofs.Control.Filling
import Brewhouse.Proofs.Place

/-!
The hysteresis of the pump, whatever is asked of the governor and in whatever order. A reset makes the
governor forget, so that only what came after it counts; from there on the pump runs exactly while there
has been a low reading and the full readings after the last one add up to less than the timeout.
-/

namespace Brewhouse.Control.PumpGovernor

inductive Call where
  | update (elapsed : Milliseconds) (full : Bool)
  | reset
  deriving DecidableEq

def answer (g : PumpGovernor) : Call → PumpGovernor × Option Bool
  | .update elapsed full => (g.update elapsed full, some (g.update elapsed full).pumpOn)
  | .reset => (g.reset, none)

def run (g : PumpGovernor) (calls : List Call) : PumpGovernor :=
  calls.foldl (fun g call => (g.answer call).1) g

/-! ### The history of the calls -/

def Call.elapsed : Call → Milliseconds
  | .update elapsed _ => elapsed
  | .reset => 0

/-- There has been a low reading, with no reset after it, and the readings after the last one, which
have all been full, have taken `time`. -/
def FullSinceLow (calls : List Call) (time : Nat) : Prop :=
  ∃ before low after, calls = before ++ .update low false :: after ∧
    .reset ∉ after ∧ (∀ elapsed, .update elapsed false ∉ after) ∧
      time = (after.map fun call => call.elapsed.toNat).sum

theorem fullSinceLow_full {calls : List Call} {elapsed : Milliseconds} {time : Nat} :
    FullSinceLow (calls ++ [.update elapsed true]) time ↔
      ∃ before, FullSinceLow calls before ∧ time = before + elapsed.toNat := by
  constructor
  · rintro ⟨before, low, after, hcalls, hreset, hfull, rfl⟩
    rcases concat_eq_append_cons_iff.mp hcalls with ⟨-, hlow, -⟩ | ⟨rest, rfl, rfl⟩
    · cases hlow
    · rw [List.mem_append, not_or] at hreset
      refine ⟨_, ⟨before, low, rest, rfl, hreset.1, fun e he => ?_, rfl⟩, ?_⟩
      · exact hfull e (List.mem_append_left _ he)
      · simp [Call.elapsed]
  · rintro ⟨_, ⟨before, low, after, rfl, hreset, hfull, rfl⟩, rfl⟩
    refine ⟨before, low, after ++ [.update elapsed true], ?_, ?_, fun e he => ?_, ?_⟩
    · rw [List.append_assoc, List.cons_append]
    · simpa using hreset
    · exact hfull e (by simpa using he)
    · simp [Call.elapsed]

theorem fullSinceLow_low {calls : List Call} {elapsed : Milliseconds} {time : Nat} :
    FullSinceLow (calls ++ [.update elapsed false]) time ↔ time = 0 := by
  constructor
  · rintro ⟨before, low, after, hcalls, -, hfull, rfl⟩
    rcases concat_eq_append_cons_iff.mp hcalls with ⟨-, -, rfl⟩ | ⟨rest, -, rfl⟩
    · rfl
    · exact absurd (List.mem_append_right rest List.mem_cons_self) (hfull elapsed)
  · rintro rfl
    exact ⟨calls, elapsed, [], rfl, List.not_mem_nil, fun _ => List.not_mem_nil, rfl⟩

theorem not_fullSinceLow_reset {calls : List Call} {time : Nat} :
    ¬FullSinceLow (calls ++ [.reset]) time := by
  rintro ⟨before, low, after, hcalls, hreset, -, -⟩
  rcases concat_eq_append_cons_iff.mp hcalls with ⟨-, hlow, -⟩ | ⟨rest, -, rfl⟩
  · cases hlow
  · exact hreset (List.mem_append_right rest List.mem_cons_self)

/-! ### The timer -/

/-- What a call makes of the time since the last low reading. -/
def Call.since (since : Option Nat) : Call → Option Nat
  | .update elapsed full => if full then since.map (· + elapsed.toNat) else some 0
  | .reset => none

theorem foldl_since_eq_some_iff {calls : List Call} {time : Nat} :
    calls.foldl Call.since none = some time ↔ FullSinceLow calls time := by
  induction calls using List.reverseRecOn generalizing time with
  | nil =>
      refine iff_of_false (by simp) ?_
      rintro ⟨before, low, after, hcalls, -⟩
      exact List.append_ne_nil_of_right_ne_nil before (List.cons_ne_nil _ after) hcalls.symm
  | append_singleton calls call ih =>
      rw [List.foldl_append, List.foldl_cons, List.foldl_nil]
      cases call with
      | reset => exact iff_of_false (by simp [Call.since]) not_fullSinceLow_reset
      | update elapsed full =>
          cases full with
          | false => simp [Call.since, fullSinceLow_low, eq_comm]
          | true => simp [Call.since, fullSinceLow_full, ih, eq_comm]

variable {g : PumpGovernor} {timeout : Milliseconds} {since : Option Nat}

theorem Tracks.answer (h : g.Tracks timeout since) (call : Call) :
    (g.answer call).1.Tracks timeout (call.since since) := by
  cases call with
  | update elapsed full => exact h.step elapsed full
  | reset =>
      have htimeout : g.timeout = timeout := h.1
      rw [← htimeout]
      exact tracks_fresh g.timeout

theorem Tracks.run (h : g.Tracks timeout since) (calls : List Call) :
    (g.run calls).Tracks timeout (calls.foldl Call.since since) := by
  induction calls generalizing g since with
  | nil => exact h
  | cons call rest ih => exact ih (h.answer call)

/-- The pump runs exactly while there has been a low reading since the governor was new or reset, and the
full readings after the last one add up to less than the timeout; and that is what an update tells. -/
theorem pumpOn_iff_fullSinceLow (timeout : Milliseconds) (calls : List Call) :
    (((fresh timeout).run calls).pumpOn = true ↔
      ∃ time, FullSinceLow calls time ∧ time < timeout.toNat) ∧
    ∀ elapsed full, ∃ told,
      (((fresh timeout).run calls).answer (.update elapsed full)).2 = some told ∧
        (told = true ↔
          ∃ time, FullSinceLow (calls ++ [.update elapsed full]) time ∧ time < timeout.toNat) := by
  have htracks : ∀ calls, ((fresh timeout).run calls).pumpOn = true ↔
      ∃ time, FullSinceLow calls time ∧ time < timeout.toNat := by
    intro calls
    rw [((tracks_fresh timeout).run calls).pumpOn_iff]
    simp only [foldl_since_eq_some_iff]
  refine ⟨htracks calls, fun elapsed full => ⟨_, rfl, ?_⟩⟩
  rw [← htracks, run, run, List.foldl_append]
  rfl

/-- A bounce of the switch starts the timeout anew, and a reset ends it. -/
example :
    let bounced : List Call :=
      [.update 1000 false, .update 2000 true, .update 100 false, .update 2500 true]
    ((fresh 3000).run bounced).pumpOn = true ∧
      ((fresh 3000).run (bounced ++ [.update 500 true])).pumpOn = false ∧
      ((fresh 3000).run (bounced ++ [.reset])).pumpOn = false := by
  decide

end Brewhouse.Control.PumpGovernor
