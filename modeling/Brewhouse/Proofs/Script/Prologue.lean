import Brewhouse.Proofs.Script.Cascade

/-!
The statements a script starts with. A list that fits is taken as it is, and a prologue of instant
statements is passed in the first step, after which it has no part in the run.
-/

namespace Brewhouse.Script

/-! ### Making a script -/

theorem foldl_add {s : Script} {statements : List Statement}
    (hfits : s.statements.length + statements.length ≤ capacity) :
    statements.foldl add s = { s with statements := s.statements ++ statements } := by
  induction statements generalizing s with
  | nil => simp
  | cons statement rest ih =>
      rw [List.length_cons] at hfits
      have hroom : s.statements.length < capacity := by omega
      rw [List.foldl_cons, add, if_pos hroom, ih (by simpa using by omega)]
      simp

theorem ofStatements_eq (model : ThermalModel) {statements : List Statement}
    (hfits : statements.length ≤ capacity) :
    ofStatements model statements = { empty model with statements := statements } :=
  foldl_add (s := empty model) (by simpa [empty] using hfits)

/-! ### Statements in front

A script can be placed behind statements that its cursor has left behind. -/

/-- The script with further statements in front, all of them behind the cursor. -/
def behind (before : List Statement) (s : Script) : Script :=
  { s with statements := before ++ s.statements, cursor := before.length + s.cursor }

def Move.behind (before : List Statement) : Move → Move
  | .onward s timed signals => .onward (s.behind before) timed signals
  | .stay s signals => .stay (s.behind before) signals
  | .fail s tag => .fail (s.behind before) tag

def Step.behind (before : List Statement) (s : Step) : Step :=
  { s with script := s.script.behind before }

@[simp]
theorem active?_behind (before : List Statement) (s : Script) :
    (s.behind before).active? = s.active? := by
  rw [active?, behind, List.getElem?_append_right (Nat.le_add_right ..), Nat.add_sub_cancel_left,
    active?]

@[simp]
theorem completed_behind (before : List Statement) (s : Script) :
    (s.behind before).completed = s.completed := by
  simp [completed, behind]

@[simp]
theorem elapsedInInterval_behind (before : List Statement) (s : Script) :
    (s.behind before).elapsedInInterval = s.elapsedInInterval := rfl

@[simp]
theorem aim_behind (before : List Statement) (s : Script) (setpoint : Celsius) (x : Sample) :
    (s.behind before).aim setpoint x = s.aim setpoint x := rfl

@[simp]
theorem retarget_behind (before : List Statement) (s : Script) (setpoint : Celsius) (x : Sample) :
    (s.behind before).retarget setpoint x = (s.retarget setpoint x).behind before := rfl

@[simp]
theorem retargetSignals_behind (before : List Statement) (s : Script) (setpoint : Celsius)
    (x : Sample) : (s.behind before).retargetSignals setpoint x = s.retargetSignals setpoint x := rfl

theorem advance_behind (before : List Statement) (s : Script) :
    (s.behind before).advance = s.advance.behind before := rfl

/-- Where a statement stands shows only in the notice of a pause. -/
theorem carryOut_behind (before : List Statement) (x : Sample) (timed : Bool) (s : Script)
    {statement : Statement} (hpause : statement ≠ .pause) :
    carryOut x timed (s.behind before) statement =
      (carryOut x timed s statement).behind before := by
  cases statement with
  | pause => exact absurd rfl hpause
  | initialise | mash | sparge | mashWater => rfl
  | heat setpoint =>
      simp only [carryOut, aim_behind, retarget_behind, retargetSignals_behind,
        apply_ite (Move.behind before)]
      rfl
  | hold payload =>
      simp only [carryOut, retarget_behind, retargetSignals_behind, elapsedInInterval_behind,
        apply_ite (Move.behind before)]
      rfl
  | unknown tag =>
      rw [carryOut, carryOut, Move.behind]
      simp [behind]

theorem cascade_behind (before : List Statement) (x : Sample) {rest : List Statement}
    (timed : Bool) (s : Script) (hpause : .pause ∉ rest) :
    cascade x rest timed (s.behind before) = (cascade x rest timed s).behind before := by
  induction rest generalizing timed s with
  | nil => rfl
  | cons statement rest ih =>
      rw [List.mem_cons, not_or] at hpause
      rw [cascade, cascade, carryOut_behind before x timed s (Ne.symm hpause.1)]
      cases hmove : carryOut x timed s statement with
      | onward s' timed' signals =>
          simp only [Move.behind, advance_behind, ih timed' s'.advance hpause.2, completionSignals,
            completed_behind]
          rfl
      | stay s' signals => rfl
      | fail s' tag => rfl

theorem step_behind (before : List Statement) {s : Script} (x : Sample)
    (hpause : .pause ∉ s.statements) :
    (s.behind before).step x = (s.step x).behind before := by
  have hrest : (s.behind before).statements.drop (s.behind before).cursor =
      s.statements.drop s.cursor := List.drop_length_add_append _
  rw [step, step, hrest]
  exact cascade_behind before x false s fun h => hpause (List.mem_of_mem_drop h)

/-! ### Runs -/

def run (s : Script) (samples : List Sample) : Script :=
  samples.foldl (fun s x => (s.step x).script) s

@[simp]
theorem run_statements (s : Script) (samples : List Sample) :
    (s.run samples).statements = s.statements := by
  induction samples generalizing s with
  | nil => rfl
  | cons x rest ih =>
      rw [run, List.foldl_cons, ← run, ih, step_statements]

/-- Only an unknown statement ends a script early. -/
theorem cascade_fault (x : Sample) {rest : List Statement} (timed : Bool) (s : Script)
    (hknown : ∀ statement ∈ rest, statement.command.isKnown = true) :
    (cascade x rest timed s).fault = none := by
  induction rest generalizing timed s with
  | nil => rfl
  | cons statement rest ih =>
      obtain ⟨hstatement, hrest⟩ := List.forall_mem_cons.mp hknown
      cases hmove : carryOut x timed s statement with
      | onward s' timed' signals =>
          rw [(Prod.mk.inj (cascade_onward rest hmove)).2]
          exact ih timed' s'.advance hrest
      | stay s' signals => exact (Prod.mk.inj (cascade_stay rest hmove)).2
      | fail s' tag =>
          obtain ⟨rfl, -⟩ := carryOut_fail hmove
          cases hstatement

theorem step_fault {s : Script} (x : Sample)
    (hknown : ∀ statement ∈ s.statements, statement.command.isKnown = true) :
    (s.step x).fault = none :=
  cascade_fault x false s fun statement h => hknown statement (List.mem_of_mem_drop h)

theorem run_behind (before : List Statement) {s : Script} (samples : List Sample)
    (hpause : .pause ∉ s.statements) :
    (s.behind before).run samples = (s.run samples).behind before := by
  induction samples generalizing s with
  | nil => rfl
  | cons x rest ih =>
      rw [run, List.foldl_cons, step_behind before x hpause]
      exact ih (by rwa [step_statements])

/-! ### Instant statements in front -/

def passAll (s : Script) (statements : List Statement) : Script :=
  statements.foldl (fun s statement => (s.pass statement).advance) s

/-- Nothing but phase, mash water and cursor comes from instant statements. -/
theorem passAll_eq (s : Script) (statements : List Statement) :
    s.passAll statements =
      { s with
        cursor := s.cursor + statements.length
        phase := (s.passAll statements).phase
        mashWater := (s.passAll statements).mashWater } := by
  induction statements generalizing s with
  | nil => rfl
  | cons statement rest ih =>
      have hnext := ih (s.pass statement).advance
      have hcursor : (s.pass statement).advance.cursor + rest.length =
          s.cursor + (statement :: rest).length := by
        rw [List.length_cons]
        cases statement <;> simp only [pass, advance] <;> omega
      rw [passAll, List.foldl_cons, ← passAll, hnext, hcursor]
      cases statement <;> rfl

theorem count_completionSignals (s : Script) : s.completionSignals.count .pause = 0 := by
  unfold completionSignals
  split <;> rfl

theorem cascade_passAll (x : Sample) {before : List Statement} (rest : List Statement)
    (timed : Bool) (s : Script) (hinstant : ∀ statement ∈ before, statement.isInstant = true) :
    ∃ signals, signals.count .pause = before.count .pause ∧
      cascade x (before ++ rest) timed s =
        { cascade x rest timed (s.passAll before) with
          signals := signals ++ (cascade x rest timed (s.passAll before)).signals } := by
  induction before generalizing s with
  | nil => exact ⟨[], rfl, rfl⟩
  | cons statement before ih =>
      obtain ⟨hstatement, hbefore⟩ := List.forall_mem_cons.mp hinstant
      obtain ⟨signals, hcount, hmove⟩ := carryOut_instant x timed s hstatement
      obtain ⟨further, hfurther, hrest⟩ := ih (s.pass statement).advance hbefore
      refine ⟨signals ++ (s.pass statement).advance.completionSignals ++ further, ?_, ?_⟩
      · rw [List.count_append, List.count_append, hcount, hfurther, count_completionSignals,
          Nat.add_zero, ← List.count_append, List.singleton_append]
      · rw [List.cons_append, cascade, hmove]
        simp only [hrest, List.append_assoc]
        rfl

/-- Two scripts of which one has passed a prologue when the other starts are in step ever after. Only
what the first step does on its way is the prologue's own. -/
theorem step_run_behind {s t : Script} {before : List Statement}
    (hinstant : ∀ statement ∈ before, statement.isInstant = true) (hpause : .pause ∉ t.statements)
    (hstatements : s.statements = before ++ t.statements) (hs : s.cursor = 0) (ht : t.cursor = 0)
    (hpassed : s.passAll before = t.behind before) (past : List Sample) (x : Sample) :
    ∃ signals, (s.run past).step x =
        { ((t.run past).step x).behind before with
          signals := signals ++ ((t.run past).step x).signals } ∧
      (past ≠ [] → signals = []) := by
  have hstart : ∀ x, ∃ signals, s.step x =
      { (t.step x).behind before with signals := signals ++ (t.step x).signals } := by
    intro x
    obtain ⟨signals, -, hcascade⟩ := cascade_passAll x t.statements false s hinstant
    refine ⟨signals, ?_⟩
    rw [step, hs, List.drop_zero, hstatements, hcascade, hpassed,
      cascade_behind before x false t hpause, step, ht, List.drop_zero]
    rfl
  cases past with
  | nil =>
      obtain ⟨signals, hstep⟩ := hstart x
      exact ⟨signals, hstep, fun h => absurd rfl h⟩
  | cons first rest =>
      obtain ⟨signals, hfirst⟩ := hstart first
      have hnext : .pause ∉ (t.step first).script.statements := by rwa [step_statements]
      have hrun : s.run (first :: rest) = (t.run (first :: rest)).behind before := by
        rw [run, List.foldl_cons, hfirst]
        exact run_behind before rest hnext
      refine ⟨[], ?_, fun _ => rfl⟩
      rw [hrun, step_behind before x (by rwa [run_statements])]
      rfl

end Brewhouse.Script
