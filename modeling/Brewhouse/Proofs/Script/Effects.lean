import Mathlib
import Brewhouse.Proofs.Script.Stages

/-!
What a script has done by now is told by the statements that it has left behind: each of them has
taken effect once, in order, whether they were left behind in one step or in many. A script that has
failed has its cursor at the end, but only the statements before the first one outside the vocabulary
have taken effect.
-/

namespace Brewhouse

namespace Statement

def phase? : Statement → Option Phase
  | .initialise => some .initialising
  | .mash => some .mashing
  | .sparge => some .sparging
  | _ => none

def noted? : Statement → Option Millilitres
  | .mashWater volume => some (volume.getD 0)
  | _ => none

/-- What the last of some statements sets that sets anything, and the value from before if none of
them does. -/
def lastSet {α : Type} (f : Statement → Option α) (before : α) (statements : List Statement) : α :=
  (statements.filterMap f).getLast?.getD before

variable {α : Type} (f : Statement → Option α)

theorem lastSet_append (before : α) (some more : List Statement) :
    lastSet f before (some ++ more) = lastSet f (lastSet f before some) more := by
  rw [lastSet, List.filterMap_append, List.getLast?_append, Option.getD_or]
  rfl

theorem lastSet_cons (before : α) (statement : Statement) (rest : List Statement) :
    lastSet f before (statement :: rest) = lastSet f ((f statement).getD before) rest := by
  rw [← List.singleton_append, lastSet_append]
  cases h : f statement <;> simp [lastSet, h]

end Statement

namespace Script

open Statement (lastSet lastSet_append lastSet_cons)

/-- The statements that have taken effect. -/
def done (s : Script) : List Statement :=
  if s.failure = none then s.statements.take s.cursor
  else s.statements.takeWhile fun statement => statement.command.isKnown

/-- The statement that ends the script unless the script ends before it. -/
def firstUnknown? (s : Script) : Option Statement :=
  s.statements.find? fun statement => !statement.command.isKnown

def steps (s : Script) : List Sample → List Step
  | [] => []
  | x :: rest => s.step x :: (s.step x).script.steps rest

/-! ### What instant statements set -/

theorem passAll_sets (s : Script) (statements : List Statement) :
    (s.passAll statements).phase = lastSet Statement.phase? s.phase statements ∧
      (s.passAll statements).mashWater = lastSet Statement.noted? s.mashWater statements := by
  induction statements generalizing s with
  | nil => exact ⟨rfl, rfl⟩
  | cons statement rest ih =>
      rw [passAll, List.foldl_cons, ← passAll, lastSet_cons, lastSet_cons]
      have hrest := ih (s.pass statement).advance
      cases statement <;> exact hrest

/-! ### What one step leaves behind -/

theorem carryOut_onward_effect {x : Sample} {timed timed' : Bool} {s s' : Script}
    {statement : Statement} {signals : List Signal}
    (h : carryOut x timed s statement = .onward s' timed' signals) :
    statement.command.isKnown = true ∧ s'.phase = statement.phase?.getD s.phase ∧
      s'.mashWater = statement.noted?.getD s.mashWater ∧ s'.failure = s.failure ∧
      signals.count .pause = [statement].count .pause ∧
      timed'.toNat = timed.toNat + [statement].countP Statement.isTimed := by
  cases statement <;> simp only [carryOut] at h
  case unknown => cases h
  case heat =>
    split at h
    · cases h
    · next hgoes =>
      cases h
      obtain rfl : timed = false := by simp at hgoes; exact hgoes.1
      refine ⟨rfl, rfl, rfl, rfl, ?_, rfl⟩
      rw [List.count_append, count_retargetSignals]
      rfl
  case hold =>
    split at h
    · cases h
    · next hfirst =>
      obtain rfl : timed = false := by simpa using hfirst
      split at h
      · cases h
      · cases h
        exact ⟨rfl, rfl, rfl, rfl, count_retargetSignals .., rfl⟩
  all_goals
    cases h
    exact ⟨rfl, rfl, rfl, rfl, rfl, rfl⟩

/-- The step has left the statements in `crossed` behind and ends in front of the ones in `ahead`, or
fails at the first of them. -/
structure Crosses (s : Script) (crossed ahead : List Statement) (t : Step) : Prop where
  known : ∀ statement ∈ crossed, statement.command.isKnown = true
  phase : t.script.phase = lastSet Statement.phase? s.phase crossed
  mashWater : t.script.mashWater = lastSet Statement.noted? s.mashWater crossed
  pauses : t.pauses = crossed.count .pause
  ends : (t.fault = none ∧ t.script.failure = s.failure ∧
      t.script.cursor = s.cursor + crossed.length) ∨
    ∃ tag more, ahead = .unknown tag :: more ∧ t.fault = some (.unknownCommand tag) ∧
      t.script.failure = some tag ∧ t.script.cursor = s.statements.length

/-- At most one timed statement is left behind, and none once one was tried. -/
theorem cascade_crosses (x : Sample) (rest : List Statement) (timed : Bool) (s : Script) :
    ∃ crossed ahead, rest = crossed ++ ahead ∧
      timed.toNat + crossed.countP Statement.isTimed ≤ 1 ∧
      s.Crosses crossed ahead (cascade x rest timed s) := by
  -- `timed` counts as one of the timed statements, so that the bound carries through the induction
  induction rest generalizing timed s with
  | nil =>
      exact ⟨[], [], rfl, timed.toNat_le, List.forall_mem_nil _, rfl, rfl, rfl,
        Or.inl ⟨rfl, rfl, rfl⟩⟩
  | cons statement rest ih =>
      rw [cascade]
      cases hmove : carryOut x timed s statement with
      | onward s' timed' signals =>
          obtain ⟨hstatements, hcursor, -⟩ := carryOut_onward hmove
          obtain ⟨hknown, hphase, hwater, hfailure, hpauses, htimed⟩ := carryOut_onward_effect hmove
          obtain ⟨crossed, ahead, rfl, hfew, hrest⟩ := ih timed' s'.advance
          refine ⟨statement :: crossed, ahead, rfl, ?_,
            List.forall_mem_cons.mpr ⟨hknown, hrest.known⟩, ?_, ?_, ?_, ?_⟩
          · rwa [← List.singleton_append, List.countP_append, ← Nat.add_assoc, ← htimed]
          · rw [lastSet_cons, ← hphase]
            exact hrest.phase
          · rw [lastSet_cons, ← hwater]
            exact hrest.mashWater
          · change (signals ++ s'.advance.completionSignals ++
              (cascade x (crossed ++ ahead) timed' s'.advance).signals).count .pause = _
            rw [List.count_append, List.count_append, hpauses, count_completionSignals, Nat.add_zero,
              ← Step.pauses, hrest.pauses, ← List.count_append, List.singleton_append]
          · have hnext : s'.advance.cursor = s.cursor + 1 := congrArg (· + 1) hcursor
            rcases hrest.ends with ⟨hfault, hnone, hend⟩ | ⟨tag, more, hahead, hfault, htag, hend⟩
            · refine Or.inl ⟨hfault, hnone.trans hfailure, hend.trans ?_⟩
              rw [hnext, List.length_cons]
              omega
            · exact Or.inr ⟨tag, more, hahead, hfault, htag,
                hend.trans (congrArg List.length hstatements)⟩
      | stay s' signals =>
          obtain ⟨-, rfl, elapsed, rfl⟩ := carryOut_stay hmove
          exact ⟨[], statement :: rest, rfl, timed.toNat_le, List.forall_mem_nil _, rfl, rfl,
            count_retargetSignals .., Or.inl ⟨rfl, rfl, rfl⟩⟩
      | fail s' tag =>
          obtain ⟨rfl, rfl⟩ := carryOut_fail hmove
          exact ⟨[], _, rfl, timed.toNat_le, List.forall_mem_nil _, rfl, rfl, rfl,
            Or.inr ⟨tag, rest, rfl, rfl, rfl, rfl⟩⟩

theorem step_crosses (s : Script) (x : Sample) :
    ∃ crossed ahead, s.statements.drop s.cursor = crossed ++ ahead ∧
      crossed.countP Statement.isTimed ≤ 1 ∧ s.Crosses crossed ahead (s.step x) := by
  obtain ⟨crossed, ahead, hsplit, hfew, hcrosses⟩ :=
    cascade_crosses x (s.statements.drop s.cursor) false s
  exact ⟨crossed, ahead, hsplit, by simpa using hfew, hcrosses⟩

theorem step_of_completed {s : Script} (x : Sample) (h : s.statements.length ≤ s.cursor) :
    s.step x = ⟨s, none, []⟩ := by
  rw [step, List.drop_of_length_le h]
  rfl

/-! ### What a run has left behind -/

/-- The script and the steps it has come through agree: what has taken effect has done so once. -/
structure Account (start s : Script) (past : List Step) : Prop where
  cursor_le : s.cursor ≤ s.statements.length
  known : s.failure = none →
    ∀ statement ∈ s.statements.take s.cursor, statement.command.isKnown = true
  failed : ∀ tag, s.failure = some tag →
    s.cursor = s.statements.length ∧ s.firstUnknown? = some (.unknown tag)
  phase : s.phase = lastSet Statement.phase? start.phase s.done
  mashWater : s.mashWater = lastSet Statement.noted? start.mashWater s.done
  pauses : (past.map Step.pauses).sum = s.done.count .pause
  faults : past.filterMap Step.fault = (s.failure.map ScriptFault.unknownCommand).toList

/-- In a script that has failed, the statements that have taken effect are those before the one it
failed at, which is the first outside the vocabulary. -/
theorem done_of_failed {s : Script} {before more : List Statement} {tag tag' : Tag}
    (hfailure : s.failure = some tag')
    (hknown : ∀ statement ∈ before, statement.command.isKnown = true)
    (hstatements : s.statements = before ++ .unknown tag :: more) :
    s.done = before ∧ s.firstUnknown? = some (.unknown tag) := by
  constructor
  · rw [done, if_neg (by simp [hfailure]), hstatements, List.takeWhile_append_of_pos hknown,
      List.takeWhile_cons_of_neg (by simp [Statement.command, Command.isKnown]), List.append_nil]
  · have hnone : before.find? (fun statement => !statement.command.isKnown) = none :=
      List.find?_eq_none.mpr fun statement h => by simp [hknown statement h]
    rw [firstUnknown?, hstatements, List.find?_append, hnone]
    rfl

/-- What a step leaves behind joins what has taken effect before. -/
theorem Account.crosses {start s : Script} {past : List Step} (h : Account start s past)
    (hfailure : s.failure = none) (x : Sample) :
    ∃ crossed ahead, s.statements = (s.done ++ crossed) ++ ahead ∧ s.done.length = s.cursor ∧
      (∀ statement ∈ s.done ++ crossed, statement.command.isKnown = true) ∧
      s.Crosses crossed ahead (s.step x) ∧ (s.step x).script.done = s.done ++ crossed := by
  obtain ⟨crossed, ahead, hsplit, -, hcrosses⟩ := s.step_crosses x
  have hbefore : s.done = s.statements.take s.cursor := if_pos hfailure
  have hall : s.statements = (s.done ++ crossed) ++ ahead := by
    rw [hbefore, List.append_assoc, ← hsplit, List.take_append_drop]
  have hlength : s.done.length = s.cursor := by
    rw [hbefore, List.length_take]
    exact Nat.min_eq_left h.cursor_le
  have hknown : ∀ statement ∈ s.done ++ crossed, statement.command.isKnown = true := by
    intro statement hmem
    rcases List.mem_append.mp hmem with hold | hnew
    · exact h.known hfailure statement (hbefore ▸ hold)
    · exact hcrosses.known statement hnew
  refine ⟨crossed, ahead, hall, hlength, hknown, hcrosses, ?_⟩
  rcases hcrosses.ends with ⟨-, hnone, hcursor⟩ | ⟨tag, more, rfl, -, htag, -⟩
  · rw [done, if_pos (hnone.trans hfailure), step_statements, hcursor, List.take_add, hsplit,
      List.take_left, ← hbefore]
  · exact (done_of_failed htag hknown ((step_statements s x).trans hall)).1

theorem Account.step {start s : Script} {past : List Step} (h : Account start s past) (x : Sample) :
    Account start (s.step x).script (past ++ [s.step x]) := by
  cases hfailure : s.failure with
  | some tag =>
      rw [step_of_completed x (h.failed tag hfailure).1.ge]
      refine ⟨h.cursor_le, h.known, h.failed, h.phase, h.mashWater, ?_, ?_⟩
      · rw [List.map_append, List.sum_append, h.pauses]
        rfl
      · rw [List.filterMap_append, h.faults]
        exact List.append_nil _
  | none =>
      obtain ⟨crossed, ahead, hall, hlength, hknown, hcrosses, hdone⟩ := h.crosses hfailure x
      have htotal := congrArg List.length hall
      rw [List.length_append, List.length_append, hlength] at htotal
      have hstatements := step_statements s x
      refine ⟨?_, ?_, ?_, ?_, ?_, ?_, ?_⟩
      · rw [hstatements]
        rcases hcrosses.ends with ⟨-, -, hcursor⟩ | ⟨_, _, -, -, -, hcursor⟩ <;> omega
      · intro hnone
        have hbefore : (s.step x).script.done = _ := if_pos hnone
        rwa [← hbefore, hdone]
      · intro tag htag
        rcases hcrosses.ends with ⟨-, hnone, -⟩ | ⟨tag', more, rfl, -, htag', hcursor⟩
        · rw [hnone, hfailure] at htag
          cases htag
        · obtain rfl : tag = tag' := Option.some.inj (htag.symm.trans htag')
          exact ⟨hcursor.trans (congrArg List.length hstatements.symm),
            (done_of_failed htag' hknown (hstatements.trans hall)).2⟩
      · rw [hdone, lastSet_append, ← h.phase]
        exact hcrosses.phase
      · rw [hdone, lastSet_append, ← h.mashWater]
        exact hcrosses.mashWater
      · rw [hdone, List.count_append, ← h.pauses, ← hcrosses.pauses, List.map_append,
          List.sum_append]
        rfl
      · rw [List.filterMap_append, h.faults, hfailure]
        rcases hcrosses.ends with ⟨hfault, hnone, -⟩ | ⟨tag, _, -, hfault, htag, -⟩
        · simp [hfault, hnone, hfailure]
        · simp [hfault, htag]

theorem Account.run {start s : Script} {past : List Step} (h : Account start s past)
    (samples : List Sample) : Account start (s.run samples) (past ++ s.steps samples) := by
  induction samples generalizing s past with
  | nil => rwa [steps, List.append_nil]
  | cons x rest ih =>
      have hrest := ih (h.step x)
      rwa [List.append_assoc, List.singleton_append] at hrest

theorem foldl_add_eq (s : Script) (statements : List Statement) :
    ∃ taken, statements.foldl add s = { s with statements := taken } := by
  induction statements generalizing s with
  | nil => exact ⟨s.statements, rfl⟩
  | cons statement rest ih =>
      obtain ⟨taken, htaken⟩ := ih (s.add statement)
      refine ⟨taken, htaken.trans ?_⟩
      unfold add
      split <;> rfl

theorem account_start (model : ThermalModel) (statements : List Statement) :
    Account (ofStatements model statements) (ofStatements model statements) [] := by
  obtain ⟨taken, htaken⟩ := foldl_add_eq (empty model) statements
  rw [ofStatements, htaken]
  exact
    { cursor_le := Nat.zero_le _
      known := fun _ => List.forall_mem_nil _
      failed := fun _ hfailure => absurd hfailure (Option.some_ne_none _).symm
      phase := rfl
      mashWater := rfl
      pauses := rfl
      faults := rfl }

theorem Account.cursor_le_step {start s : Script} {past : List Step} (h : Account start s past)
    (x : Sample) : s.cursor ≤ (s.step x).script.cursor := by
  cases hfailure : s.failure with
  | some tag => rw [step_of_completed x (h.failed tag hfailure).1.ge]
  | none =>
      obtain ⟨_, _, -, -, -, hcrosses, -⟩ := h.crosses hfailure x
      rcases hcrosses.ends with ⟨-, -, hcursor⟩ | ⟨_, _, -, -, -, hcursor⟩
      · omega
      · exact h.cursor_le.trans hcursor.ge

theorem Account.cursor_le_run {start s : Script} {past : List Step} (h : Account start s past)
    (samples : List Sample) : s.cursor ≤ (s.run samples).cursor := by
  induction samples generalizing s past with
  | nil => exact le_rfl
  | cons x rest ih => exact (h.cursor_le_step x).trans (ih (h.step x))

/-- Every statement takes effect once and in order. Phase, mash water and pauses of a run are told by
the statements that the cursor has left behind; a run that meets a statement outside the vocabulary
fails once, at the first of them, and ends there. -/
theorem statements_take_effect_once (model : ThermalModel) (statements : List Statement)
    (samples : List Sample) :
    let start := ofStatements model statements
    let s := start.run samples
    let past := start.steps samples
    (∀ further, s.cursor ≤ (s.run further).cursor) ∧
      s.cursor ≤ s.statements.length ∧
      (s.completed = true ↔ s.cursor = s.statements.length) ∧
      s.phase = lastSet Statement.phase? start.phase s.done ∧
      s.mashWater = lastSet Statement.noted? start.mashWater s.done ∧
      (past.map Step.pauses).sum = s.done.count .pause ∧
      (s.failure.isSome = true ↔ (past.filterMap Step.fault).length = 1) ∧
      ∀ tag, s.failure = some tag →
        past.filterMap Step.fault = [.unknownCommand tag] ∧
          s.firstUnknown? = some (.unknown tag) ∧ ∀ x, s.step x = ⟨s, none, []⟩ := by
  intro start s past
  have h : Account start s past := (account_start model statements).run samples
  refine ⟨h.cursor_le_run, h.cursor_le, ?_, h.phase, h.mashWater, h.pauses, ?_, fun tag htag => ?_⟩
  · rw [completed, decide_eq_true_iff]
    exact ⟨h.cursor_le.antisymm, Eq.ge⟩
  · rw [h.faults]
    cases s.failure <;> simp
  · obtain ⟨hend, hfirst⟩ := h.failed tag htag
    exact ⟨by rw [h.faults, htag]; rfl, hfirst, fun x => step_of_completed x hend.ge⟩

/-- Two steps through a hold to a statement outside the vocabulary, which keeps the last one from
taking effect. -/
theorem statements_take_effect_once_of_unknown :
    let unknown := Tag.ofChars 'X' 'Y' 'Z'
    let start := ofStatements .standard [.mash, .pause, .hold (some (60, 1000)), .mashWater (some 500),
      .pause, .unknown unknown, .sparge]
    let samples : List Sample := [⟨600, 60, 60⟩, ⟨600, 60, 60⟩]
    let s := start.run samples
    s.failure = some unknown ∧ s.cursor = 7 ∧ s.completed = true ∧ s.phase = .mashing ∧
      ((start.steps samples).map Step.pauses).sum = 2 ∧
      (start.steps samples).filterMap Step.fault = [.unknownCommand unknown] ∧
      ∀ x, s.step x = ⟨s, none, []⟩ := by
  intro unknown start samples s
  have hfailure : s.failure = some unknown := by decide +kernel
  have hcursor : s.cursor = s.statements.length := by decide +kernel
  have hdone : s.done = [.mash, .pause, .hold (some (60, 1000)), .mashWater (some 500), .pause] := by
    decide +kernel
  obtain ⟨-, -, hcompleted, hphase, -, hpauses, -, hfailed⟩ := statements_take_effect_once .standard
    [.mash, .pause, .hold (some (60, 1000)), .mashWater (some 500), .pause, .unknown unknown, .sparge]
    samples
  obtain ⟨hfaults, -, hstays⟩ := hfailed unknown hfailure
  refine ⟨hfailure, by decide +kernel, hcompleted.mpr hcursor, hphase.trans ?_, hpauses.trans ?_,
    hfaults, hstays⟩
  · change lastSet Statement.phase? start.phase s.done = _
    rw [hdone]
    rfl
  · change s.done.count .pause = 2
    rw [hdone]
    rfl

end Script

end Brewhouse
