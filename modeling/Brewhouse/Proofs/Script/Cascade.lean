import Brewhouse.Script
import Mathlib.Tactic.Common

/-!
How a step goes through the statements. Instant statements are passed one by one; a step that does
not fail ends behind the last statement or on a timed one whose target it has just worked out.
Statements that lie behind the cursor have no part in it.
-/

namespace Brewhouse

/-- Whether a statement is carried out and left behind at once. -/
def Statement.isInstant (s : Statement) : Bool :=
  !s.isTimed && s.command.isKnown

namespace Script

/-! ### One statement -/

theorem carryOut_onward {x : Sample} {timed timed' : Bool} {s s' : Script} {statement : Statement}
    {signals : List Signal} (h : carryOut x timed s statement = .onward s' timed' signals) :
    s'.statements = s.statements ∧ s'.cursor = s.cursor ∧ s'.model = s.model := by
  cases statement <;> simp only [carryOut] at h
  case unknown => cases h
  case heat =>
    split at h
    · cases h
    · cases h
      exact ⟨rfl, rfl, rfl⟩
  case hold =>
    split at h
    · cases h
    · split at h
      · cases h
      · cases h
        exact ⟨rfl, rfl, rfl⟩
  all_goals
    cases h
    exact ⟨rfl, rfl, rfl⟩

/-- A step ends in front of a timed statement, with the statement's target worked out. -/
theorem carryOut_stay {x : Sample} {timed : Bool} {s s' : Script} {statement : Statement}
    {signals : List Signal} (h : carryOut x timed s statement = .stay s' signals) :
    statement.isTimed = true ∧ signals = s.retargetSignals statement.setpoint x ∧
      ∃ elapsed, s' = { s.retarget statement.setpoint x with elapsedInInterval := elapsed } := by
  cases statement <;> simp only [carryOut] at h
  case heat =>
    split at h
    · cases h
      exact ⟨rfl, rfl, _, rfl⟩
    · cases h
  case hold =>
    split at h
    · cases h
      exact ⟨rfl, rfl, _, rfl⟩
    · split at h
      · cases h
        exact ⟨rfl, rfl, _, rfl⟩
      · cases h
  all_goals cases h

theorem carryOut_fail {x : Sample} {timed : Bool} {s s' : Script} {statement : Statement}
    {tag : Tag} (h : carryOut x timed s statement = .fail s' tag) :
    statement = .unknown tag ∧
      s' = { s with failure := some tag, cursor := s.statements.length } := by
  cases statement <;> simp only [carryOut] at h
  case unknown =>
    cases h
    exact ⟨rfl, rfl⟩
  case heat => split at h <;> cases h
  case hold =>
    split at h
    · cases h
    · split at h <;> cases h
  all_goals cases h

def pass (s : Script) : Statement → Script
  | .initialise => { s with phase := .initialising }
  | .mash => { s with phase := .mashing }
  | .sparge => { s with phase := .sparging }
  | .mashWater volume => { s with mashWater := volume.getD 0 }
  | _ => s

theorem carryOut_instant (x : Sample) (timed : Bool) (s : Script) {statement : Statement}
    (h : statement.isInstant = true) :
    ∃ signals, signals.count .pause = [statement].count .pause ∧
      carryOut x timed s statement = .onward (s.pass statement) timed signals := by
  cases statement
  case heat | hold | unknown => cases h
  all_goals exact ⟨_, rfl, rfl⟩

/-! ### Cascades -/

def Step.outcome (s : Step) : Script × Option ScriptFault :=
  (s.script, s.fault)

theorem cascade_onward {x : Sample} {timed timed' : Bool} {s s' : Script} {statement : Statement}
    {signals : List Signal} (rest : List Statement)
    (h : carryOut x timed s statement = .onward s' timed' signals) :
    (cascade x (statement :: rest) timed s).outcome = (cascade x rest timed' s'.advance).outcome := by
  rw [cascade, h]
  rfl

theorem cascade_stay {x : Sample} {timed : Bool} {s s' : Script} {statement : Statement}
    {signals : List Signal} (rest : List Statement)
    (h : carryOut x timed s statement = .stay s' signals) :
    (cascade x (statement :: rest) timed s).outcome = (s', none) := by
  rw [cascade, h]
  rfl

theorem cascade_fail {x : Sample} {timed : Bool} {s s' : Script} {statement : Statement}
    {tag : Tag} (rest : List Statement) (h : carryOut x timed s statement = .fail s' tag) :
    (cascade x (statement :: rest) timed s).outcome = (s', some (.unknownCommand tag)) := by
  rw [cascade, h]
  rfl

/-- The working out of a target: the script just before it, and the statement it is worked out for. -/
structure Refresh where
  before : Script
  statement : Statement
  sample : Sample

/-- The targets that a cascade works out, in order: one at every timed statement it comes to. -/
def refreshesFrom (x : Sample) : List Statement → Bool → Script → List Refresh
  | [], _, _ => []
  | statement :: rest, timed, s =>
    let refresh := if statement.isTimed then [⟨s, statement, x⟩] else []
    match carryOut x timed s statement with
    | .onward s timed _ => refresh ++ refreshesFrom x rest timed s.advance
    | _ => refresh

/-- Where a cascade that did not fail has ended: behind all statements, or on a timed one, and the
target worked out for that one is the last it has worked out. -/
theorem cascade_refreshed (x : Sample) (rest : List Statement) (timed : Bool) (s : Script)
    (hrest : rest = s.statements.drop s.cursor)
    (hfault : (cascade x rest timed s).fault = none) :
    (cascade x rest timed s).script.completed = true ∨
      ∃ (before : Script) (statement : Statement) (elapsed : Milliseconds),
        (refreshesFrom x rest timed s).getLast? = some ⟨before, statement, x⟩ ∧
        before.active? = some statement ∧ statement.isTimed = true ∧ before.model = s.model ∧
        (cascade x rest timed s).script =
          { before.retarget statement.setpoint x with elapsedInInterval := elapsed } := by
  induction rest generalizing timed s with
  | nil =>
      left
      have := congrArg List.length hrest
      rw [List.length_nil, List.length_drop] at this
      exact decide_eq_true (by change s.statements.length ≤ s.cursor; omega)
  | cons statement rest ih =>
      have hactive : s.active? = some statement := by
        rw [active?, ← List.head?_drop, ← hrest, List.head?_cons]
      have htail : rest = s.statements.drop (s.cursor + 1) := by
        rw [← List.tail_drop, ← hrest, List.tail_cons]
      cases hmove : carryOut x timed s statement with
      | onward s' timed' signals =>
          obtain ⟨hstatements, hcursor, hmodel⟩ := carryOut_onward hmove
          have houtcome := Prod.mk.inj (cascade_onward rest hmove)
          have hnext : rest = s'.advance.statements.drop s'.advance.cursor := by
            simpa only [advance, hstatements, hcursor] using htail
          rw [houtcome.1, ← hmodel]
          rcases ih timed' s'.advance hnext (houtcome.2.symm.trans hfault) with
            hdone | ⟨before, last, elapsed, hlast, hends⟩
          · exact Or.inl hdone
          · refine Or.inr ⟨before, last, elapsed, ?_, hends⟩
            simp only [refreshesFrom, hmove]
            rw [List.getLast?_append, hlast]
            rfl
      | stay s' signals =>
          obtain ⟨htimed, -, elapsed, rfl⟩ := carryOut_stay hmove
          refine Or.inr ⟨s, statement, elapsed, ?_, hactive, htimed, rfl,
            (Prod.mk.inj (cascade_stay rest hmove)).1⟩
          simp only [refreshesFrom, hmove, htimed]
          rfl
      | fail s' tag =>
          rw [(Prod.mk.inj (cascade_fail rest hmove)).2] at hfault
          cases hfault

theorem cascade_ends (x : Sample) (rest : List Statement) (timed : Bool) (s : Script)
    (hrest : rest = s.statements.drop s.cursor)
    (hfault : (cascade x rest timed s).fault = none) :
    (cascade x rest timed s).script.completed = true ∨
      ∃ (before : Script) (statement : Statement) (elapsed : Milliseconds),
        before.active? = some statement ∧ statement.isTimed = true ∧ before.model = s.model ∧
        (cascade x rest timed s).script =
          { before.retarget statement.setpoint x with elapsedInInterval := elapsed } := by
  rcases cascade_refreshed x rest timed s hrest hfault with
    hdone | ⟨before, statement, elapsed, -, hends⟩
  · exact Or.inl hdone
  · exact Or.inr ⟨before, statement, elapsed, hends⟩

/-- No step touches the statements of a script or its thermal model. -/
theorem cascade_keeps (x : Sample) (rest : List Statement) (timed : Bool) (s : Script) :
    (cascade x rest timed s).script.statements = s.statements ∧
      (cascade x rest timed s).script.model = s.model := by
  induction rest generalizing timed s with
  | nil => exact ⟨rfl, rfl⟩
  | cons statement rest ih =>
      cases hmove : carryOut x timed s statement with
      | onward s' timed' signals =>
          obtain ⟨hstatements, -, hmodel⟩ := carryOut_onward hmove
          rw [(Prod.mk.inj (cascade_onward rest hmove)).1, ← hstatements, ← hmodel]
          exact ih timed' s'.advance
      | stay s' signals =>
          obtain ⟨-, -, elapsed, rfl⟩ := carryOut_stay hmove
          rw [(Prod.mk.inj (cascade_stay rest hmove)).1]
          exact ⟨rfl, rfl⟩
      | fail s' tag =>
          obtain ⟨-, rfl⟩ := carryOut_fail hmove
          rw [(Prod.mk.inj (cascade_fail rest hmove)).1]
          exact ⟨rfl, rfl⟩

@[simp]
theorem step_statements (s : Script) (x : Sample) :
    (s.step x).script.statements = s.statements :=
  (cascade_keeps x _ _ s).1

@[simp]
theorem step_model (s : Script) (x : Sample) : (s.step x).script.model = s.model :=
  (cascade_keeps x _ _ s).2

/-- A script that goes on after a step waits at a timed statement. -/
theorem step_active {s : Script} {x : Sample} (hfault : (s.step x).fault = none)
    (hgoes : (s.step x).script.completed = false) :
    ∃ statement, (s.step x).script.active? = some statement ∧ statement.isTimed = true := by
  rcases cascade_ends x _ false s rfl hfault with
    hdone | ⟨before, statement, elapsed, hactive, htimed, -, hscript⟩
  · rw [step, hdone] at hgoes
    cases hgoes
  · refine ⟨statement, ?_, htimed⟩
    rw [step, hscript]
    exact hactive

/-! ### Targets -/

/-- Every target is cut at the ceiling. -/
theorem exists_aim_eq_cap (s : Script) (setpoint : Celsius) (x : Sample) :
    ∃ target, s.aim setpoint x = s.model.cap target := by
  unfold aim
  split
  · split <;> exact ⟨_, rfl⟩
  · exact ⟨_, rfl⟩

/-- A script that goes on after a step has a target, cut at the ceiling. -/
theorem step_target {s : Script} {x : Sample} (hfault : (s.step x).fault = none)
    (hgoes : (s.step x).script.completed = false) :
    ∃ target, (s.step x).script.target = some (s.model.cap target) := by
  rcases cascade_ends x _ false s rfl hfault with hdone | ⟨before, statement, _, -, -, hmodel, hscript⟩
  · rw [step, hdone] at hgoes
    cases hgoes
  · obtain ⟨target, htarget⟩ := exists_aim_eq_cap before statement.setpoint x
    refine ⟨target, ?_⟩
    rw [step, hscript, ← hmodel, ← htarget]
    rfl

end Script

end Brewhouse
