import Brewhouse.Proofs.Exact.Word
import Brewhouse.Proofs.Script.Effects

/-!
The timing of holds. A hold is charged for every step in which it is the timed statement that the
script comes to first, and for no other; it lets the script go on in the first step in which the times
charged add up to its duration, and what they exceed it by is lost. The counter never holds anything
but the time of the hold under the cursor, so its largest value never shows.
-/

namespace Brewhouse

open Exact

def spanned (samples : List Sample) : Nat :=
  (samples.map fun x => x.elapsed.toNat).sum

theorem spanned_concat (samples : List Sample) (x : Sample) :
    spanned (samples ++ [x]) = spanned samples + x.elapsed.toNat := by
  rw [spanned, List.map_append, List.sum_append]
  rfl

namespace Script

/-- The place of the first statement that is not instant. -/
def reached (s : Script) : Nat :=
  s.cursor + s.instants.length

/-- The counter is at zero, or holds a time that the hold under the cursor still waits for. -/
def Timed (s : Script) : Prop :=
  s.elapsedInInterval = 0 ∨
    ∃ payload, s.active? = some (.hold payload) ∧
      s.elapsedInInterval < (Statement.hold payload).duration

/-! ### The counter -/

theorem charged_toNat (s : Script) (x : Sample) :
    (s.charged x).toNat = min (s.elapsedInInterval.toNat + x.elapsed.toNat) 4294967295 :=
  Word.toNat_saturatingAdd ..

/-- Up to a duration the counter is the sum itself. -/
theorem charged_lt_iff (s : Script) (x : Sample) (duration : Milliseconds) :
    s.charged x < duration ↔ s.elapsedInInterval.toNat + x.elapsed.toNat < duration.toNat := by
  have hduration := duration.toNat_lt
  rw [UInt32.lt_iff_toNat_lt, charged_toNat]
  omega

theorem settle_of_active? {s : Script} {statement : Statement} (h : s.active? = some statement)
    (hinstant : statement.isInstant = false) : s.instants = [] ∧ s.settle = s := by
  have hnone : s.instants = [] := by
    rw [instants, drop_cursor_of_active? h, List.takeWhile_cons_of_neg (by simp [hinstant])]
  exact ⟨hnone, by rw [settle, hnone]; rfl⟩

theorem Timed.settle {s : Script} (h : s.Timed) : s.settle.Timed := by
  rcases h with hzero | ⟨payload, hactive, hlt⟩
  · exact Or.inl (by rwa [settle_elapsedInInterval])
  · rw [(settle_of_active? hactive rfl).2]
    exact Or.inr ⟨payload, hactive, hlt⟩

theorem Timed.elapsed_eq_zero {s : Script} (h : s.Timed)
    (hnot : ∀ payload, s.active? ≠ some (.hold payload)) : s.elapsedInInterval = 0 := by
  rcases h with hzero | ⟨payload, hactive, -⟩
  · exact hzero
  · exact absurd hactive (hnot payload)

@[simp]
theorem charged_settle (s : Script) (x : Sample) : s.settle.charged x = s.charged x := by
  rw [charged, settle_elapsedInInterval, charged]

@[simp]
theorem coast_elapsed (s : Script) (x : Sample) :
    (s.coast x).script.elapsedInInterval = s.elapsedInInterval := by
  unfold coast
  split <;> exact s.settle_elapsedInInterval

theorem cursor_le_coast {s : Script} (x : Sample) (h : s.cursor ≤ s.statements.length) :
    s.cursor ≤ (s.coast x).script.cursor := by
  have hsettle : s.cursor ≤ s.settle.cursor := by
    rw [settle_cursor]
    omega
  unfold coast
  split
  · exact hsettle
  · exact h.trans (by rw [abandon, settle_statements])
  · exact hsettle

/-! ### The counter in a step -/

theorem step_script (s : Script) (x : Sample) : (s.step x).script = (s.staged x).script :=
  congrArg Effect.script (effect_step s x)

theorem step_kept {s : Script} {x : Sample} {statement : Statement}
    (hactive : s.settle.active? = some statement) (htimed : statement.isTimed = true)
    (hkept : s.settle.letsPass x statement = false) :
    (s.step x).script = s.settle.tried x statement := by
  rw [step_script, staged_of_timed x hactive htimed, hkept]
  rfl

theorem step_passed {s : Script} {x : Sample} {statement : Statement}
    (hactive : s.settle.active? = some statement) (htimed : statement.isTimed = true)
    (hpassed : s.settle.letsPass x statement = true) :
    (s.step x).script = (((s.settle.tried x statement).leave statement).coast x).script := by
  rw [step_script, staged_of_timed x hactive htimed, hpassed]
  rfl

/-- After a step the counter is at zero unless the step was charged to a hold that still waits. -/
theorem step_counter {s : Script} (hs : s.Timed) (x : Sample) :
    (s.step x).script.elapsedInInterval = 0 ∨
      ∃ payload, s.settle.active? = some (.hold payload) ∧
        s.charged x < (Statement.hold payload).duration ∧
        (s.step x).script = s.settle.tried x (.hold payload) := by
  cases hactive : s.settle.active? with
  | none =>
      left
      rw [step_script, staged, hactive]
      exact hs.settle.elapsed_eq_zero (by simp [hactive])
  | some statement =>
      cases statement with
      | unknown tag =>
          left
          rw [step_script, staged, hactive]
          exact hs.settle.elapsed_eq_zero (by simp [hactive])
      | heat setpoint =>
          left
          have hzero := hs.settle.elapsed_eq_zero (by simp [hactive])
          cases hpass : s.settle.letsPass x (.heat setpoint) with
          | false =>
              rw [step_kept hactive rfl hpass]
              exact hzero
          | true =>
              rw [step_passed hactive rfl hpass, coast_elapsed]
              exact hzero
      | hold payload =>
          cases hpass : s.settle.letsPass x (.hold payload) with
          | false =>
              refine Or.inr ⟨payload, rfl, ?_, step_kept hactive rfl hpass⟩
              simpa [letsPass] using hpass
          | true =>
              left
              rw [step_passed hactive rfl hpass, coast_elapsed]
              rfl
      | _ => cases settle_active? hactive

theorem Timed.step {s : Script} (hs : s.Timed) (x : Sample) : (s.step x).script.Timed := by
  rcases step_counter hs x with hzero | ⟨payload, hactive, hlt, hscript⟩
  · exact Or.inl hzero
  · rw [hscript]
    refine Or.inr ⟨payload, hactive, ?_⟩
    change s.settle.charged x < _
    rwa [charged_settle]

theorem Timed.run {s : Script} (hs : s.Timed) (samples : List Sample) : (s.run samples).Timed := by
  induction samples generalizing s with
  | nil => exact hs
  | cons x rest ih => exact ih (hs.step x)

theorem Reachable.timed {s : Script} (h : s.Reachable) : s.Timed := by
  induction h with
  | empty | reset => exact Or.inl rfl
  | @add s statement hs ih =>
      unfold Script.add
      split
      · rcases ih with hzero | ⟨payload, hactive, hlt⟩
        · exact Or.inl hzero
        · refine Or.inr ⟨payload, ?_, hlt⟩
          exact (List.getElem?_append_left (List.getElem?_eq_some_iff.mp hactive).1).trans hactive
      · exact ih
  | setPhase | setMashWater => assumption
  | step x _ ih => exact ih.step x

/-! ### One hold -/

theorem active?_settle {s : Script} {place : Nat} (h : s.reached = place) :
    s.settle.active? = s.statements[place]? := by
  rw [active?, settle_statements, settle_cursor, ← reached, h]

/-- A hold that waits is reached first in the next step, too. -/
theorem reached_tried {s : Script} {x : Sample} {payload : Option (Celsius × Milliseconds)}
    (hactive : s.settle.active? = some (.hold payload)) :
    (s.settle.tried x (.hold payload)).reached = s.reached := by
  have hnone : (s.settle.tried x (.hold payload)).instants = [] :=
    (settle_of_active? hactive (by rfl)).1
  rw [reached, hnone, tried_cursor, settle_cursor]
  rfl

section Hold

variable {s : Script} {x : Sample} {place : Nat} {payload : Option (Celsius × Milliseconds)}

theorem step_of_hold_lt (hreached : s.reached = place)
    (hhold : s.statements[place]? = some (.hold payload))
    (hlt : s.elapsedInInterval.toNat + x.elapsed.toNat <
      (Statement.hold payload).duration.toNat) :
    (s.step x).script.reached = place ∧ (s.step x).script.cursor = place ∧
      (s.step x).script.elapsedInInterval.toNat =
        s.elapsedInInterval.toNat + x.elapsed.toNat := by
  have hactive := (active?_settle hreached).trans hhold
  have hcharged := (s.charged_lt_iff x _).mpr hlt
  have hkept : s.settle.letsPass x (.hold payload) = false := by simpa [letsPass] using hcharged
  rw [step_kept hactive rfl hkept]
  refine ⟨(reached_tried hactive).trans hreached, ?_, ?_⟩
  · rw [tried_cursor, settle_cursor, ← reached, hreached]
  · change (s.settle.charged x).toNat = _
    rw [charged_settle, charged_toNat]
    have := (Statement.hold payload).duration.toNat_lt
    omega

theorem step_of_hold_le (hreached : s.reached = place)
    (hhold : s.statements[place]? = some (.hold payload))
    (hle : (Statement.hold payload).duration.toNat ≤
      s.elapsedInInterval.toNat + x.elapsed.toNat) :
    place < (s.step x).script.cursor ∧ (s.step x).script.elapsedInInterval = 0 := by
  have hactive := (active?_settle hreached).trans hhold
  have hcharged : ¬s.charged x < (Statement.hold payload).duration := by
    rw [charged_lt_iff]
    omega
  have hpassed : s.settle.letsPass x (.hold payload) = true := by simpa [letsPass] using hcharged
  rw [step_passed hactive rfl hpassed]
  constructor
  · have hplace := (List.getElem?_eq_some_iff.mp hhold).1
    have hnext : ((s.settle.tried x (.hold payload)).leave (.hold payload)).cursor = place + 1 := by
      rw [leave_cursor, tried_cursor, settle_cursor, ← reached, hreached]
    rw [← Nat.succ_le_iff, Nat.succ_eq_add_one, ← hnext]
    apply cursor_le_coast
    rw [hnext, leave_statements, tried_statements, settle_statements]
    exact hplace
  · rw [coast_elapsed]
    rfl

end Hold

/-- A run in two parts. -/
theorem run_append (s : Script) (some more : List Sample) :
    s.run (some ++ more) = (s.run some).run more :=
  List.foldl_append

/-- Where a hold is reached first for the first time, nothing has been charged to it. -/
theorem elapsed_of_first {s : Script} {past : List Sample} {place : Nat}
    (hs : s.elapsedInInterval = 0) (hreached : (s.run past).reached = place)
    (hfirst : ∀ m < past.length, (s.run (past.take m)).reached ≠ place) :
    (s.run past).elapsedInInterval = 0 := by
  rcases List.eq_nil_or_concat past with rfl | ⟨earlier, x, rfl⟩
  · exact hs
  · rw [List.concat_eq_append] at *
    have htimed : (s.run earlier).Timed := Timed.run (Or.inl hs) earlier
    rw [run_append] at hreached ⊢
    rcases step_counter htimed x with hzero | ⟨payload, hactive, -, hscript⟩
    · exact hzero
    · have hearlier := hfirst earlier.length (by simp)
      rw [List.take_left] at hearlier
      exact absurd (((reached_tried hactive).symm.trans (congrArg reached hscript.symm)).trans
        hreached) hearlier

/-- As long as the times charged do not add up to its duration, a hold is reached first again and the
counter is their sum. -/
theorem run_of_hold {s : Script} {place : Nat} {payload : Option (Celsius × Milliseconds)}
    (hs : s.elapsedInInterval = 0) (hreached : s.reached = place)
    (hhold : s.statements[place]? = some (.hold payload)) {spell : List Sample}
    (hspell : spell = [] ∨ spanned spell < (Statement.hold payload).duration.toNat) :
    (s.run spell).reached = place ∧ (s.run spell).elapsedInInterval.toNat = spanned spell := by
  induction spell using List.reverseRecOn with
  | nil => exact ⟨hreached, by rw [run, List.foldl_nil, hs]; rfl⟩
  | append_singleton spell x ih =>
      have hlt : spanned (spell ++ [x]) < (Statement.hold payload).duration.toNat := by
        simpa using hspell
      rw [spanned_concat] at hlt ⊢
      obtain ⟨hreached', helapsed⟩ := ih (Or.inr (by omega))
      have hstep := step_of_hold_lt (x := x) hreached' ((run_statements s spell) ▸ hhold) (by omega)
      rw [run_append, ← helapsed]
      exact ⟨hstep.1, hstep.2.2⟩

/-! ### What a step charges -/

theorem countP_instants (s : Script) : s.instants.countP Statement.isTimed = 0 := by
  rw [List.countP_eq_zero]
  intro statement hmem
  have hinstant : statement.isInstant = true := List.mem_takeWhile_imp hmem
  simp only [Statement.isInstant, Bool.and_eq_true, Bool.not_eq_true'] at hinstant
  simp [hinstant.1]

/-- A step leaves at most one timed statement behind. It leaves none behind if the counter is not at
zero after it, and then the time is that of the hold reached first, charged once. -/
theorem step_charges {s : Script} (hs : s.Timed) (x : Sample) :
    ∃ crossed ahead, s.statements.drop s.cursor = crossed ++ ahead ∧
      s.Crosses crossed ahead (s.step x) ∧ crossed.countP Statement.isTimed ≤ 1 ∧
      ((s.step x).script.elapsedInInterval ≠ 0 → crossed.countP Statement.isTimed = 0 ∧
        (s.step x).script.cursor = s.reached ∧
        (s.step x).script.elapsedInInterval = s.charged x) := by
  obtain ⟨crossed, ahead, hsplit, hfew, hcrosses⟩ := s.step_crosses x
  refine ⟨crossed, ahead, hsplit, hcrosses, hfew, fun hcounter => ?_⟩
  rcases step_counter hs x with hzero | ⟨payload, hactive, -, hscript⟩
  · exact absurd hzero hcounter
  · have hcursor : (s.step x).script.cursor = s.reached := by
      rw [hscript, tried_cursor, settle_cursor, ← reached]
    have hroom : s.reached < s.statements.length := by
      have := (List.getElem?_eq_some_iff.mp hactive).1
      rwa [settle_statements, settle_cursor, ← reached] at this
    have hlength : crossed.length = s.instants.length := by
      rcases hcrosses.ends with ⟨-, -, hend⟩ | ⟨_, _, -, -, -, hend⟩
      · rw [hcursor, reached] at hend
        omega
      · omega
    have hinstants : crossed = s.instants := by
      have htake := List.takeWhile_append_dropWhile (p := Statement.isInstant)
        (l := s.statements.drop s.cursor)
      exact (List.append_inj (hsplit.symm.trans htake.symm) hlength).1
    refine ⟨by rw [hinstants, countP_instants], hcursor, ?_⟩
    rw [hscript, ← charged_settle]
    rfl

/-! ### Scripts of holds -/

/-- The steps of length `elapsed` that a hold takes with a time charged to it already. -/
def stepsFor (elapsed : Milliseconds) (spent : Nat) (statement : Statement) : Nat :=
  max 1 ((statement.duration.toNat - spent) ⌈/⌉ elapsed.toNat)

/-- The steps of length `elapsed` that a script of holds takes to its end. -/
def stepsLeft (s : Script) (elapsed : Milliseconds) : Nat :=
  match s.statements.drop s.cursor with
  | [] => 0
  | statement :: rest =>
    stepsFor elapsed s.elapsedInInterval.toNat statement + (rest.map (stepsFor elapsed 0)).sum

theorem stepsFor_of_lt {elapsed : Milliseconds} {spent : Nat} {statement : Statement}
    (helapsed : 0 < elapsed.toNat) (h : spent + elapsed.toNat < statement.duration.toNat) :
    stepsFor elapsed (spent + elapsed.toNat) statement + 1 = stepsFor elapsed spent statement := by
  have hrest : statement.duration.toNat - spent =
      (statement.duration.toNat - (spent + elapsed.toNat)) + elapsed.toNat := by omega
  have hpos : 1 ≤ (statement.duration.toNat - (spent + elapsed.toNat)) ⌈/⌉ elapsed.toNat := by
    by_contra hnone
    have := (ceilDiv_le_iff_le_mul helapsed).mp (Nat.le_of_not_lt hnone)
    omega
  have hceil (left : Nat) :
      (left + elapsed.toNat) ⌈/⌉ elapsed.toNat = left ⌈/⌉ elapsed.toNat + 1 := by
    rw [Nat.ceilDiv_eq_add_pred_div, Nat.ceilDiv_eq_add_pred_div, ← Nat.add_div_right _ helapsed]
    congr 1
    omega
  rw [stepsFor, stepsFor, hrest, hceil]
  omega

theorem stepsFor_of_le {elapsed : Milliseconds} {spent : Nat} {statement : Statement}
    (helapsed : 0 < elapsed.toNat) (h : statement.duration.toNat ≤ spent + elapsed.toNat) :
    stepsFor elapsed spent statement = 1 := by
  have hone : (statement.duration.toNat - spent) ⌈/⌉ elapsed.toNat ≤ 1 :=
    (ceilDiv_le_iff_le_mul helapsed).mpr (by omega)
  exact Nat.max_eq_left hone

section Holds

variable {s : Script} (hholds : ∀ statement ∈ s.statements, ∃ payload, statement = .hold payload)
include hholds

theorem exists_hold_of_goes (hgoes : s.completed = false) :
    ∃ payload, s.active? = some (.hold payload) ∧ s.reached = s.cursor := by
  have hroom : s.cursor < s.statements.length := by simpa [completed] using hgoes
  obtain ⟨payload, hhold⟩ := hholds _ (List.getElem_mem hroom)
  have hactive : s.active? = some (.hold payload) := by
    rw [active?, List.getElem?_eq_getElem hroom, hhold]
  refine ⟨payload, hactive, ?_⟩
  rw [reached, (settle_of_active? hactive rfl).1]
  rfl

/-- In a script of holds no step passes more than one. -/
theorem step_cursor_le (x : Sample) : (s.step x).script.cursor ≤ s.cursor + 1 := by
  obtain ⟨crossed, ahead, hsplit, hfew, hcrosses⟩ := s.step_crosses x
  have hmem : ∀ statement ∈ crossed, statement ∈ s.statements := by
    intro statement h
    apply List.mem_of_mem_drop (i := s.cursor)
    rw [hsplit]
    exact List.mem_append_left _ h
  have hall : crossed.countP Statement.isTimed = crossed.length := by
    rw [List.countP_eq_length]
    intro statement h
    obtain ⟨payload, rfl⟩ := hholds statement (hmem statement h)
    rfl
  have hfault : (s.step x).fault = none := by
    apply step_fault x
    intro statement h
    obtain ⟨payload, rfl⟩ := hholds statement h
    rfl
  rcases hcrosses.ends with ⟨-, -, hend⟩ | ⟨_, _, -, hfails, -⟩
  · omega
  · rw [hfault] at hfails
    cases hfails

theorem stepsLeft_step {elapsed : Milliseconds} {x : Sample} (helapsed : 0 < elapsed)
    (hx : x.elapsed = elapsed) (hgoes : s.completed = false) :
    (s.step x).script.stepsLeft elapsed + 1 = s.stepsLeft elapsed := by
  obtain ⟨payload, hactive, hreached⟩ := exists_hold_of_goes hholds hgoes
  have hpos : 0 < elapsed.toNat := UInt32.lt_iff_toNat_lt.mp helapsed
  have hdrop := drop_cursor_of_active? hactive
  by_cases hlt : s.elapsedInInterval.toNat + x.elapsed.toNat <
      (Statement.hold payload).duration.toNat
  · obtain ⟨-, hcursor, hcounter⟩ := step_of_hold_lt hreached hactive hlt
    rw [hx] at hlt hcounter
    rw [stepsLeft, step_statements, hcursor, hdrop, stepsLeft, hdrop]
    simp only [hcounter, ← stepsFor_of_lt hpos hlt]
    omega
  · have hle := Nat.le_of_not_lt hlt
    obtain ⟨hpast, hcounter⟩ := step_of_hold_le hreached hactive hle
    have hcursor : (s.step x).script.cursor = s.cursor + 1 :=
      (step_cursor_le hholds x).antisymm hpast
    rw [hx] at hle
    rw [stepsLeft, step_statements, hcursor, stepsLeft, hdrop, hcounter]
    simp only [stepsFor_of_le hpos hle]
    cases s.statements.drop (s.cursor + 1) with
    | nil => rfl
    | cons statement rest =>
        rw [List.map_cons, List.sum_cons]
        change stepsFor elapsed 0 statement + _ + 1 = _
        omega

end Holds

theorem stepsLeft_eq_zero_iff (s : Script) (elapsed : Milliseconds) :
    s.stepsLeft elapsed = 0 ↔ s.completed = true := by
  rw [completed, decide_eq_true_iff, ← List.drop_eq_nil_iff, stepsLeft]
  cases s.statements.drop s.cursor with
  | nil => simp
  | cons statement rest =>
      have : 1 ≤ stepsFor elapsed s.elapsedInInterval.toNat statement := Nat.le_max_left ..
      simp only [reduceCtorEq, iff_false]
      omega

/-- A script of holds that is stepped evenly comes to its end in the step it should. -/
theorem completed_run_iff {s : Script} {elapsed : Milliseconds} {samples : List Sample}
    (hholds : ∀ statement ∈ s.statements, ∃ payload, statement = .hold payload)
    (helapsed : 0 < elapsed) (hsamples : ∀ x ∈ samples, x.elapsed = elapsed) :
    (s.run samples).completed = true ↔ s.stepsLeft elapsed ≤ samples.length := by
  induction samples generalizing s with
  | nil => rw [← stepsLeft_eq_zero_iff _ elapsed, List.length_nil, Nat.le_zero]; rfl
  | cons x rest ih =>
      obtain ⟨hx, hrest⟩ := List.forall_mem_cons.mp hsamples
      have hnext := ih (s := (s.step x).script) (by rwa [step_statements]) hrest
      change ((s.step x).script.run rest).completed = true ↔ _
      rw [hnext, List.length_cons]
      cases hdone : s.completed with
      | false =>
          have := stepsLeft_step hholds helapsed hx hdone
          omega
      | true =>
          have hzero := (s.stepsLeft_eq_zero_iff elapsed).mpr hdone
          rw [step_of_completed x (of_decide_eq_true hdone), hzero]
          simp

theorem stepsLeft_of_start {s : Script} (elapsed : Milliseconds) (hcursor : s.cursor = 0)
    (hcounter : s.elapsedInInterval = 0) :
    s.stepsLeft elapsed = (s.statements.map (stepsFor elapsed 0)).sum := by
  rw [stepsLeft, hcursor, List.drop_zero, hcounter]
  cases s.statements <;> rfl

/-! ### The timing -/

/-- The counter is at zero or holds a time that the hold under the cursor still waits for; a step
charges one hold at most, and nothing of what it exceeds the duration by. From the first step in which
a hold is reached first, it is reached first and charged in each, until the first in which the times
charged add up to its duration lets the script go on. So a script of holds that is stepped evenly takes
for each hold as many steps as its duration asks for, and one at least. -/
theorem hold_timing {s : Script} (hs : s.Reachable) :
    s.Timed ∧
      (∀ x, ∃ crossed ahead, s.statements.drop s.cursor = crossed ++ ahead ∧
        s.Crosses crossed ahead (s.step x) ∧ crossed.countP Statement.isTimed ≤ 1 ∧
        ((s.step x).script.elapsedInInterval ≠ 0 → crossed.countP Statement.isTimed = 0 ∧
          (s.step x).script.cursor = s.reached ∧
          (s.step x).script.elapsedInInterval = s.charged x)) ∧
      (s.elapsedInInterval = 0 → ∀ past place payload,
        s.statements[place]? = some (.hold payload) → (s.run past).reached = place →
        (∀ m < past.length, (s.run (past.take m)).reached ≠ place) →
        ∀ spell x,
          let duration := (Statement.hold payload).duration.toNat
          let after := s.run (past ++ (spell ++ [x]))
          spell = [] ∨ spanned spell < duration →
            (s.run (past ++ spell)).reached = place ∧
              (spanned (spell ++ [x]) < duration → after.cursor = place ∧
                after.elapsedInInterval.toNat = spanned (spell ++ [x])) ∧
              (duration ≤ spanned (spell ++ [x]) → place < after.cursor ∧
                after.elapsedInInterval = 0)) ∧
      (s.cursor = 0 → s.elapsedInInterval = 0 →
        (∀ statement ∈ s.statements, ∃ payload, statement = .hold payload) →
        ∀ (elapsed : Milliseconds) (samples : List Sample), 0 < elapsed →
          (∀ x ∈ samples, x.elapsed = elapsed) →
          ((s.run samples).completed = true ↔
            (s.statements.map fun statement =>
              max 1 (statement.duration.toNat ⌈/⌉ elapsed.toNat)).sum ≤ samples.length)) := by
  refine ⟨hs.timed, step_charges hs.timed, ?_, ?_⟩
  · intro hzero past place payload hhold hreached hfirst spell x duration after hspell
    have hstart := elapsed_of_first hzero hreached hfirst
    have hplace : (s.run past).statements[place]? = some (.hold payload) :=
      run_statements s past ▸ hhold
    obtain ⟨hagain, hcounter⟩ := run_of_hold hstart hreached hplace hspell
    have hplace' : ((s.run past).run spell).statements[place]? = some (.hold payload) :=
      run_statements (s.run past) spell ▸ hplace
    have hsum : spanned (spell ++ [x]) =
        ((s.run past).run spell).elapsedInInterval.toNat + x.elapsed.toNat := by
      rw [spanned_concat, hcounter]
    have hafter : after = (((s.run past).run spell).step x).script :=
      (run_append s past _).trans (run_append (s.run past) spell [x])
    rw [run_append, hafter, hsum]
    exact ⟨hagain, fun hlt => (step_of_hold_lt hagain hplace' hlt).2, step_of_hold_le hagain hplace'⟩
  · intro hcursor hcounter hholds elapsed samples helapsed hsamples
    rw [completed_run_iff hholds helapsed hsamples, stepsLeft_of_start elapsed hcursor hcounter]
    rfl

/-- Stepped by a second, holds of two and a half seconds, of none and of one second take three steps,
one and one; the first of them still waits after two. -/
theorem hold_timing_of_three :
    let s := ofStatements .standard
      [.hold (some (60, 2500)), .hold none, .hold (some (60, 1000))]
    let x : Sample := ⟨1000, 60, 60⟩
    s.Reachable ∧ s.Timed ∧
      ((s.run [x, x]).cursor = 0 ∧ (s.run [x, x]).elapsedInInterval.toNat = 2000) ∧
      (0 < (s.run [x, x, x]).cursor ∧ (s.run [x, x, x]).elapsedInInterval = 0) ∧
      ∀ n, (s.run (List.replicate n x)).completed = true ↔ 5 ≤ n := by
  intro s x
  have hs : s.Reachable := Reachable.ofStatements _ _
  have hzero : s.elapsedInInterval = 0 := rfl
  obtain ⟨htimed, -, hhold, hholds⟩ := hold_timing hs
  have hfirst := hhold hzero [] 0 (some (60, 2500)) rfl (by decide +kernel) (by simp)
  refine ⟨hs, htimed, ?_, ?_, fun n => ?_⟩
  · exact (hfirst [x] x (Or.inr (by decide +kernel))).2.1 (by decide +kernel)
  · exact (hfirst [x, x] x (Or.inr (by decide +kernel))).2.2 (by decide +kernel)
  · have hall : ∀ statement ∈ s.statements, ∃ payload, statement = .hold payload := by
      simp [s, ofStatements, add, empty, capacity]
    have hsteps := hholds rfl hzero hall 1000 (List.replicate n x) (by decide)
      (fun y hy => by rw [List.eq_of_mem_replicate hy])
    have hsum : (s.statements.map fun statement =>
        max 1 (statement.duration.toNat ⌈/⌉ (1000 : Milliseconds).toNat)).sum = 5 := by
      decide +kernel
    rwa [hsum, List.length_replicate] at hsteps

end Script

end Brewhouse
