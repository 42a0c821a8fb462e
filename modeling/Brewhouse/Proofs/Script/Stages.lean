import Brewhouse.Proofs.Script.Prologue
import Mathlib.Data.List.TakeWhile

/-!
A step in three stages. The script passes the instant statements that come next, tries the timed
statement they lead to, and, if that one lets it go on, passes the instant statements behind it and
stops in front of the next timed one. A statement outside the vocabulary ends the script wherever it
is reached. The stages say nothing of the loop that goes through them, and the number of statements
that the loop may look at never cuts a step short.
-/

namespace Brewhouse

/-- A statement that is not instant is timed or ends the script. -/
theorem Statement.timed_or_unknown {statement : Statement} (h : statement.isInstant = false) :
    statement.isTimed = true ∨ ∃ tag, statement = .unknown tag := by
  cases statement
  case heat | hold => exact Or.inl rfl
  case unknown tag => exact Or.inr ⟨tag, rfl⟩
  all_goals cases h

namespace Script

/-! ### Scripts that come about -/

/-- The scripts that come about: statements are added, phase and mash water set, and steps taken in
any order, and a script may be emptied at any time. -/
inductive Reachable : Script → Prop where
  | empty (model : ThermalModel) : Reachable (.empty model)
  | add {s : Script} (statement : Statement) : Reachable s → Reachable (s.add statement)
  | setPhase {s : Script} (phase : Phase) : Reachable s → Reachable { s with phase := phase }
  | setMashWater {s : Script} (volume : Millilitres) :
      Reachable s → Reachable { s with mashWater := volume }
  | reset {s : Script} : Reachable s → Reachable s.reset
  | step {s : Script} (x : Sample) : Reachable s → Reachable (s.step x).script

theorem length_add_le {s : Script} (statement : Statement) (h : s.statements.length ≤ capacity) :
    (s.add statement).statements.length ≤ capacity := by
  unfold add
  split
  · next hroom => rwa [List.length_append, List.length_singleton]
  · exact h

theorem Reachable.length_le {s : Script} (h : s.Reachable) : s.statements.length ≤ capacity := by
  induction h with
  | empty | reset => exact Nat.zero_le _
  | add statement _ ih => exact length_add_le statement ih
  | setPhase | setMashWater => assumption
  | step x _ ih => rwa [step_statements]

theorem Reachable.ofStatements (model : ThermalModel) (statements : List Statement) :
    (ofStatements model statements).Reachable := by
  suffices ∀ s : Script, s.Reachable → (statements.foldl Script.add s).Reachable from
    this _ (.empty model)
  induction statements with
  | nil => exact fun s hs => hs
  | cons statement rest ih => exact fun s hs => ih _ (hs.add statement)

/-! ### The stages -/

/-- What a step comes to when its notices are left aside. -/
structure Effect where
  script : Script
  fault : Option ScriptFault
  pauses : Nat

def Step.pauses (t : Step) : Nat :=
  t.signals.count .pause

def Step.effect (t : Step) : Effect :=
  ⟨t.script, t.fault, t.pauses⟩

def instants (s : Script) : List Statement :=
  (s.statements.drop s.cursor).takeWhile Statement.isInstant

/-- The script with the instant statements passed that come next. -/
def settle (s : Script) : Script :=
  s.passAll s.instants

/-- The script ended by a statement outside the vocabulary. -/
def abandon (s : Script) (tag : Tag) : Script :=
  { s with failure := some tag, cursor := s.statements.length }

def charged (s : Script) (x : Sample) : Milliseconds :=
  Exact.Word.saturatingAdd s.elapsedInInterval x.elapsed

/-- The script once a timed statement was tried: the target is the statement's, and a hold is charged
for the time. -/
def tried (s : Script) (x : Sample) : Statement → Script
  | .hold payload =>
    { s.retarget (Statement.hold payload).setpoint x with elapsedInInterval := s.charged x }
  | statement => s.retarget statement.setpoint x

/-- Whether a timed statement lets the script go on: the tank is not below the target, or the time
charged reaches the duration. -/
def letsPass (s : Script) (x : Sample) : Statement → Bool
  | .hold payload => (Statement.hold payload).duration ≤ s.charged x
  | statement => !(x.hlt < s.aim statement.setpoint x : Bool)

/-- The script behind a timed statement, where the counter of a hold starts anew. -/
def leave (s : Script) : Statement → Script
  | .hold _ => { s with cursor := s.cursor + 1, elapsedInInterval := 0 }
  | _ => { s with cursor := s.cursor + 1 }

/-- The last stage: up to the next timed statement, whose target is worked out and no more. -/
def coast (s : Script) (x : Sample) : Effect :=
  match s.settle.active? with
  | none => ⟨s.settle, none, s.instants.count .pause⟩
  | some (.unknown tag) =>
    ⟨s.settle.abandon tag, some (.unknownCommand tag), s.instants.count .pause⟩
  | some statement =>
    ⟨s.settle.retarget statement.setpoint x, none, s.instants.count .pause⟩

/-- A step stage by stage. -/
def staged (s : Script) (x : Sample) : Effect :=
  match s.settle.active? with
  | none => ⟨s.settle, none, s.instants.count .pause⟩
  | some (.unknown tag) =>
    ⟨s.settle.abandon tag, some (.unknownCommand tag), s.instants.count .pause⟩
  | some statement =>
    if s.settle.letsPass x statement then
      let rest := ((s.settle.tried x statement).leave statement).coast x
      { rest with pauses := s.instants.count .pause + rest.pauses }
    else ⟨s.settle.tried x statement, none, s.instants.count .pause⟩

/-! ### Passing instant statements -/

@[simp]
theorem settle_statements (s : Script) : s.settle.statements = s.statements := by
  rw [settle, passAll_eq]

theorem settle_cursor (s : Script) : s.settle.cursor = s.cursor + s.instants.length := by
  rw [settle, passAll_eq]

@[simp]
theorem settle_elapsedInInterval (s : Script) :
    s.settle.elapsedInInterval = s.elapsedInInterval := by
  rw [settle, passAll_eq]

/-- Where the instant statements end. -/
theorem drop_settle (s : Script) :
    s.settle.statements.drop s.settle.cursor =
      (s.statements.drop s.cursor).dropWhile Statement.isInstant := by
  rw [settle_statements, settle_cursor, ← List.drop_drop]
  conv_lhs => rw [← List.takeWhile_append_dropWhile (p := Statement.isInstant)
    (l := s.statements.drop s.cursor)]
  exact List.drop_left

theorem active?_eq_head? (s : Script) : s.active? = (s.statements.drop s.cursor).head? := by
  rw [active?, List.head?_drop]

/-- The statement that the instant ones lead to. -/
theorem settle_active? {s : Script} {statement : Statement}
    (h : s.settle.active? = some statement) : statement.isInstant = false := by
  rw [active?_eq_head?, drop_settle] at h
  have hnot := List.head?_dropWhile_not Statement.isInstant (s.statements.drop s.cursor)
  rw [h] at hnot
  simpa using hnot

/-- A step goes on from the first statement that is not instant. -/
theorem cascade_settle (x : Sample) (timed : Bool) (s : Script) :
    ∃ signals, signals.count .pause = s.instants.count .pause ∧
      cascade x (s.statements.drop s.cursor) timed s =
        { cascade x (s.settle.statements.drop s.settle.cursor) timed s.settle with
          signals := signals ++
            (cascade x (s.settle.statements.drop s.settle.cursor) timed s.settle).signals } := by
  have hinstant : ∀ statement ∈ s.instants, statement.isInstant = true :=
    fun statement h => List.mem_takeWhile_imp h
  obtain ⟨signals, hcount, hcascade⟩ := cascade_passAll x
    ((s.statements.drop s.cursor).dropWhile Statement.isInstant) timed s hinstant
  refine ⟨signals, hcount, ?_⟩
  rw [drop_settle, settle, ← hcascade, instants, List.takeWhile_append_dropWhile]

theorem drop_cursor_of_active? {s : Script} {statement : Statement}
    (h : s.active? = some statement) :
    s.statements.drop s.cursor = statement :: s.statements.drop (s.cursor + 1) := by
  rw [active?_eq_head?, List.head?_eq_some_iff] at h
  obtain ⟨rest, hrest⟩ := h
  rw [← List.tail_drop, hrest, List.tail_cons]

theorem drop_cursor_of_active?_none {s : Script} (h : s.active? = none) :
    s.statements.drop s.cursor = [] := by
  rwa [active?_eq_head?, List.head?_eq_none_iff] at h

/-! ### The loop and the stages -/

theorem count_retargetSignals (s : Script) (setpoint : Celsius) (x : Sample) :
    (s.retargetSignals setpoint x).count .pause = 0 := by
  unfold retargetSignals
  split <;> rfl

/-- After a timed statement was tried, the next one is shown and no more. -/
theorem carryOut_shown (x : Sample) (s : Script) {statement : Statement}
    (h : statement.isTimed = true) :
    carryOut x true s statement = .stay (s.retarget statement.setpoint x)
      (s.retargetSignals statement.setpoint x) := by
  cases statement
  case heat | hold => rfl
  all_goals cases h

theorem carryOut_kept {x : Sample} {s : Script} {statement : Statement}
    (htimed : statement.isTimed = true) (h : s.letsPass x statement = false) :
    ∃ signals, signals.count .pause = 0 ∧
      carryOut x false s statement = .stay (s.tried x statement) signals := by
  refine ⟨_, count_retargetSignals s statement.setpoint x, ?_⟩
  cases statement
  case heat setpoint =>
    have hcold : x.hlt < s.aim (Statement.heat setpoint).setpoint x := by simpa [letsPass] using h
    exact if_pos (decide_eq_true hcold)
  case hold payload =>
    have hshort : s.charged x < (Statement.hold payload).duration := by simpa [letsPass] using h
    exact if_pos hshort
  all_goals cases htimed

theorem carryOut_passed {x : Sample} {s : Script} {statement : Statement}
    (htimed : statement.isTimed = true) (h : s.letsPass x statement = true) :
    ∃ s' signals, signals.count .pause = 0 ∧
      carryOut x false s statement = .onward s' true signals ∧
      s'.advance = (s.tried x statement).leave statement := by
  cases statement
  case heat setpoint =>
    have hwarm : ¬x.hlt < s.aim (Statement.heat setpoint).setpoint x := by
      simpa [letsPass] using h
    refine ⟨s.retarget (Statement.heat setpoint).setpoint x, _, ?_,
      if_neg fun hcold => hwarm (of_decide_eq_true hcold), rfl⟩
    rw [List.count_append, count_retargetSignals]
    rfl
  case hold payload =>
    have hlong : ¬s.charged x < (Statement.hold payload).duration := by simpa [letsPass] using h
    exact ⟨{ s.retarget (Statement.hold payload).setpoint x with elapsedInInterval := 0 }, _,
      count_retargetSignals s (Statement.hold payload).setpoint x, if_neg hlong, rfl⟩
  all_goals cases htimed

@[simp]
theorem tried_statements (s : Script) (x : Sample) (statement : Statement) :
    (s.tried x statement).statements = s.statements := by
  cases statement <;> rfl

@[simp]
theorem tried_cursor (s : Script) (x : Sample) (statement : Statement) :
    (s.tried x statement).cursor = s.cursor := by
  cases statement <;> rfl

@[simp]
theorem leave_statements (s : Script) (statement : Statement) :
    (s.leave statement).statements = s.statements := by
  cases statement <;> rfl

@[simp]
theorem leave_cursor (s : Script) (statement : Statement) :
    (s.leave statement).cursor = s.cursor + 1 := by
  cases statement <;> rfl

theorem effect_settle (x : Sample) (timed : Bool) (s : Script) :
    (cascade x (s.statements.drop s.cursor) timed s).effect =
      { (cascade x (s.settle.statements.drop s.settle.cursor) timed s.settle).effect with
        pauses := s.instants.count .pause +
          (cascade x (s.settle.statements.drop s.settle.cursor) timed s.settle).effect.pauses } := by
  obtain ⟨signals, hcount, hcascade⟩ := cascade_settle x timed s
  rw [hcascade, Step.effect, Step.pauses, List.count_append, hcount]
  rfl

theorem effect_of_none (x : Sample) (timed : Bool) {s : Script} (h : s.active? = none) :
    (cascade x (s.statements.drop s.cursor) timed s).effect = ⟨s, none, 0⟩ := by
  rw [drop_cursor_of_active?_none h]
  rfl

theorem effect_of_unknown (x : Sample) (timed : Bool) {s : Script} {tag : Tag}
    (h : s.active? = some (.unknown tag)) :
    (cascade x (s.statements.drop s.cursor) timed s).effect =
      ⟨s.abandon tag, some (.unknownCommand tag), 0⟩ := by
  rw [drop_cursor_of_active? h]
  rfl

theorem effect_of_timed (x : Sample) {s : Script} {statement : Statement}
    (h : s.active? = some statement) (htimed : statement.isTimed = true) :
    (cascade x (s.statements.drop s.cursor) true s).effect =
      ⟨s.retarget statement.setpoint x, none, 0⟩ := by
  rw [drop_cursor_of_active? h, cascade, carryOut_shown x s htimed, Step.effect,
    Step.pauses, count_retargetSignals]

theorem coast_of_timed {s : Script} {statement : Statement} (x : Sample)
    (h : s.settle.active? = some statement) (htimed : statement.isTimed = true) :
    s.coast x = ⟨s.settle.retarget statement.setpoint x, none, s.instants.count .pause⟩ := by
  rw [coast, h]
  cases statement
  case heat | hold => rfl
  all_goals cases htimed

theorem staged_of_timed {s : Script} {statement : Statement} (x : Sample)
    (h : s.settle.active? = some statement) (htimed : statement.isTimed = true) :
    s.staged x =
      if s.settle.letsPass x statement then
        { ((s.settle.tried x statement).leave statement).coast x with
          pauses := s.instants.count .pause +
            (((s.settle.tried x statement).leave statement).coast x).pauses }
      else ⟨s.settle.tried x statement, none, s.instants.count .pause⟩ := by
  rw [staged, h]
  cases statement
  case heat | hold => rfl
  all_goals cases htimed

/-- Behind a timed statement a step does what the last stage does. -/
theorem effect_coast (s : Script) (x : Sample) :
    (cascade x (s.statements.drop s.cursor) true s).effect = s.coast x := by
  rw [effect_settle]
  cases hactive : s.settle.active? with
  | none =>
      rw [effect_of_none x true hactive, coast, hactive]
      rfl
  | some statement =>
      rcases Statement.timed_or_unknown (settle_active? hactive) with htimed | ⟨tag, rfl⟩
      · rw [effect_of_timed x hactive htimed, coast_of_timed x hactive htimed]
        rfl
      · rw [effect_of_unknown x true hactive, coast, hactive]
        rfl

theorem effect_of_kept {x : Sample} {s : Script} {statement : Statement}
    (h : s.active? = some statement) (htimed : statement.isTimed = true)
    (hkept : s.letsPass x statement = false) :
    (cascade x (s.statements.drop s.cursor) false s).effect =
      ⟨s.tried x statement, none, 0⟩ := by
  obtain ⟨signals, hcount, hmove⟩ := carryOut_kept htimed hkept
  rw [drop_cursor_of_active? h, cascade, hmove, Step.effect, Step.pauses, hcount]

theorem effect_of_passed {x : Sample} {s : Script} {statement : Statement}
    (h : s.active? = some statement) (htimed : statement.isTimed = true)
    (hpassed : s.letsPass x statement = true) :
    (cascade x (s.statements.drop s.cursor) false s).effect =
      ((s.tried x statement).leave statement).coast x := by
  obtain ⟨s', signals, hcount, hmove, hnext⟩ := carryOut_passed htimed hpassed
  have hdrop : s.statements.drop (s.cursor + 1) =
      ((s.tried x statement).leave statement).statements.drop
        ((s.tried x statement).leave statement).cursor := by simp
  rw [drop_cursor_of_active? h, cascade, hmove, ← effect_coast, hdrop, ← hnext]
  simp [Step.effect, Step.pauses, hcount, count_completionSignals]

/-- What a step does is what its stages do. -/
theorem effect_step (s : Script) (x : Sample) : (s.step x).effect = s.staged x := by
  rw [step, effect_settle]
  cases hactive : s.settle.active? with
  | none =>
      rw [effect_of_none x false hactive, staged, hactive]
      rfl
  | some statement =>
      rcases Statement.timed_or_unknown (settle_active? hactive) with htimed | ⟨tag, rfl⟩
      · rw [staged_of_timed x hactive htimed]
        cases hpass : s.settle.letsPass x statement with
        | false =>
            rw [effect_of_kept hactive htimed hpass]
            rfl
        | true =>
            rw [effect_of_passed hactive htimed hpass]
            rfl
      · rw [effect_of_unknown x false hactive, staged, hactive]
        rfl

/-! ### The bound of the loop -/

/-- A step in which the loop looks at the statement under the cursor no more than so many times. -/
def stepWithin (x : Sample) : Nat → Bool → Script → Step
  | 0, _, s => ⟨s, none, []⟩
  | looks + 1, timed, s =>
    match s.active? with
    | none => ⟨s, none, []⟩
    | some statement =>
      match carryOut x timed s statement with
      | .onward s timed signals =>
        let onward := stepWithin x looks timed s.advance
        { onward with signals := signals ++ s.advance.completionSignals ++ onward.signals }
      | .stay s signals => ⟨s, none, signals⟩
      | .fail s tag => ⟨s, some (.unknownCommand tag), [.note (.unknownCommand tag)]⟩

/-- As many looks as there are statements left are enough. -/
theorem stepWithin_eq_cascade (x : Sample) {looks : Nat} (timed : Bool) (s : Script)
    (h : s.statements.length - s.cursor ≤ looks) :
    stepWithin x looks timed s = cascade x (s.statements.drop s.cursor) timed s := by
  induction looks generalizing timed s with
  | zero =>
      rw [List.drop_of_length_le (by omega)]
      rfl
  | succ looks ih =>
      rw [stepWithin]
      cases hactive : s.active? with
      | none =>
          rw [drop_cursor_of_active?_none hactive]
          rfl
      | some statement =>
          rw [drop_cursor_of_active? hactive, cascade]
          cases hmove : carryOut x timed s statement with
          | onward s' timed' signals =>
              obtain ⟨hstatements, hcursor, -⟩ := carryOut_onward hmove
              have hnext : s'.advance.statements.drop s'.advance.cursor =
                  s.statements.drop (s.cursor + 1) := by
                rw [advance, hstatements, hcursor]
              have hleft : s'.advance.statements.length - s'.advance.cursor ≤ looks := by
                simp only [advance, hstatements, hcursor]
                omega
              simp only [hmove, ih timed' s'.advance hleft, hnext]
          | stay s' signals => simp only [hmove]
          | fail s' tag => simp only [hmove]

/-- A step does what its stages do, one statement more than a script has room for is as many looks as
it takes, and a step without a fault ends behind the last statement or on a timed one. -/
theorem step_eq_staged {s : Script} (hs : s.Reachable) (x : Sample) :
    (s.step x).effect = s.staged x ∧
      stepWithin x (capacity + 1) false s = s.step x ∧
      ((s.step x).fault = none →
        (s.step x).script.completed = true ∨
          ∃ statement, (s.step x).script.active? = some statement ∧ statement.isTimed = true) := by
  refine ⟨effect_step s x, ?_, fun hfault => ?_⟩
  · apply stepWithin_eq_cascade
    have := hs.length_le
    omega
  · rcases cascade_ends x _ false s rfl hfault with
      hdone | ⟨before, statement, elapsed, hactive, htimed, -, hscript⟩
    · exact Or.inl hdone
    · refine Or.inr ⟨statement, ?_, htimed⟩
      rw [step, hscript]
      exact hactive

/-- A hold that asks for no time is passed in the first step, and the tank has ramped up for it. The one
behind it is only shown, with the target that makes up for the mash tun. -/
theorem step_eq_staged_of_mash :
    let s := ofStatements .standard [.mash, .mashWater (some 500), .pause, .hold (some (65, 0)),
      .pause, .hold (some (70, 5000))]
    let x : Sample := ⟨3000, 75, 50⟩
    s.Reachable ∧ (s.step x).effect = s.staged x ∧ stepWithin x 33 false s = s.step x ∧
      (s.step x).pauses = 2 ∧ (s.step x).script.cursor = 5 ∧
      (s.step x).script.elapsedInInterval = 0 ∧ (s.step x).script.target = some 71.3125 ∧
      (s.step x).script.rampedUp = true ∧
      ((s.step x).script.completed = true ∨
        ∃ statement, (s.step x).script.active? = some statement ∧ statement.isTimed = true) := by
  intro s x
  have hs : s.Reachable := Reachable.ofStatements _ _
  obtain ⟨hstaged, hlooks, hends⟩ := step_eq_staged hs x
  exact ⟨hs, hstaged, hlooks, by decide +kernel, by decide +kernel, by decide +kernel,
    by decide +kernel, by decide +kernel, hends (by decide +kernel)⟩

end Script

end Brewhouse
