import Brewhouse.Proofs.Script.Effects

/-!
The targets that a run works out. A step works out one target at most for the statement it tries and
one for the statement it stops in front of. Nothing but that switches from ramp-up targets to offset
ones: the script has ramped up as soon as one target was worked out, while mashing with water, that the
hot liquor tank had reached.
-/

namespace Brewhouse.Script

def refreshes (s : Script) (x : Sample) : List Refresh :=
  refreshesFrom x (s.statements.drop s.cursor) false s

def refreshesOver (s : Script) : List Sample → List Refresh
  | [] => []
  | x :: rest => s.refreshes x ++ (s.step x).script.refreshesOver rest

/-- While mashing with water, the hot liquor tank is at the ramp-up target or above it. -/
def Refresh.reaches (f : Refresh) : Bool :=
  f.before.phase == .mashing && 0 < f.before.mashWater &&
    f.before.model.rampUpTarget f.statement.setpoint f.before.mashWater f.sample.hlt ≤ f.sample.hlt

/-- Whether ramp-up is complete before and after some refreshes: it is told before each of them by those
that came earlier. -/
def Latched : Bool → List Refresh → Bool → Prop
  | ramped, [], after => after = ramped
  | ramped, f :: rest, after => f.before.rampedUp = ramped ∧ Latched (ramped || f.reaches) rest after

theorem latched_append {ramped after : Bool} (some more : List Refresh) :
    Latched ramped (some ++ more) after ↔
      ∃ between, Latched ramped some between ∧ Latched between more after := by
  induction some generalizing ramped with
  | nil => simp [Latched]
  | cons f rest ih =>
      rw [List.cons_append, Latched, ih]
      constructor
      · rintro ⟨hbefore, between, hrest, hmore⟩
        exact ⟨between, ⟨hbefore, hrest⟩, hmore⟩
      · rintro ⟨between, ⟨hbefore, hrest⟩, hmore⟩
        exact ⟨hbefore, between, hrest, hmore⟩

theorem Latched.after_eq {ramped after : Bool} {fs : List Refresh} (h : Latched ramped fs after) :
    after = (ramped || fs.any Refresh.reaches) := by
  induction fs generalizing ramped with
  | nil => rw [List.any_nil, Bool.or_false]; exact h
  | cons f rest ih => rw [List.any_cons, ← Bool.or_assoc]; exact ih h.2

theorem Latched.before_eq {ramped after : Bool} {earlier later : List Refresh} {f : Refresh}
    (h : Latched ramped (earlier ++ f :: later) after) :
    f.before.rampedUp = (ramped || earlier.any Refresh.reaches) := by
  obtain ⟨between, hearlier, hf, -⟩ := (latched_append earlier _).mp h
  rw [hf, hearlier.after_eq]

/-! ### One step -/

theorem rampedUp_retarget (s : Script) (statement : Statement) (x : Sample) :
    (s.retarget statement.setpoint x).rampedUp =
      (s.rampedUp || Refresh.reaches ⟨s, statement, x⟩) := by
  cases hramped : s.rampedUp with
  | true => simp [retarget, hramped]
  | false =>
      cases hcompensates : s.compensates with
      | false =>
          have : (s.phase == .mashing && decide (0 < s.mashWater)) = false := hcompensates
          simp [retarget, rampsUp, Refresh.reaches, hramped, hcompensates, this]
      | true =>
          have : (s.phase == .mashing && decide (0 < s.mashWater)) = true := hcompensates
          simp [retarget, rampsUp, aim, Refresh.reaches, hramped, hcompensates, this]

theorem latched_onward {x : Sample} {timed timed' : Bool} {s s' : Script} {statement : Statement}
    {signals : List Signal} (h : carryOut x timed s statement = .onward s' timed' signals) :
    Latched s.rampedUp (if statement.isTimed then [⟨s, statement, x⟩] else []) s'.rampedUp := by
  cases statement <;> simp only [carryOut] at h
  case unknown => cases h
  case heat setpoint =>
    split at h
    · cases h
    · cases h
      exact ⟨rfl, rampedUp_retarget s (.heat setpoint) x⟩
  case hold payload =>
    split at h
    · cases h
    · split at h
      · cases h
      · cases h
        exact ⟨rfl, rampedUp_retarget s (.hold payload) x⟩
  all_goals
    cases h
    rfl

theorem latched_cascade (x : Sample) (rest : List Statement) (timed : Bool) (s : Script) :
    Latched s.rampedUp (refreshesFrom x rest timed s) (cascade x rest timed s).script.rampedUp := by
  induction rest generalizing timed s with
  | nil => rfl
  | cons statement rest ih =>
      cases hmove : carryOut x timed s statement with
      | onward s' timed' signals =>
          rw [(Prod.mk.inj (cascade_onward rest hmove)).1]
          simp only [refreshesFrom, hmove]
          exact (latched_append _ _).mpr ⟨s'.rampedUp, latched_onward hmove, ih timed' s'.advance⟩
      | stay s' signals =>
          obtain ⟨htimed, -, elapsed, rfl⟩ := carryOut_stay hmove
          rw [(Prod.mk.inj (cascade_stay rest hmove)).1]
          simp only [refreshesFrom, hmove, htimed, if_true]
          exact ⟨rfl, rampedUp_retarget s statement x⟩
      | fail s' tag =>
          obtain ⟨rfl, rfl⟩ := carryOut_fail hmove
          rw [(Prod.mk.inj (cascade_fail rest hmove)).1]
          simp only [refreshesFrom, hmove]
          rfl

/-- The statement that is tried and the one that is shown are all that targets are worked out for. -/
theorem length_refreshesFrom_le (x : Sample) (rest : List Statement) (timed : Bool) (s : Script) :
    (refreshesFrom x rest timed s).length + timed.toNat ≤ 2 := by
  induction rest generalizing timed s with
  | nil =>
      have := timed.toNat_le
      change 0 + timed.toNat ≤ 2
      omega
  | cons statement rest ih =>
      cases hmove : carryOut x timed s statement with
      | onward s' timed' signals =>
          obtain ⟨-, -, -, -, -, htimed⟩ := carryOut_onward_effect hmove
          have hrest := ih timed' s'.advance
          simp only [refreshesFrom, hmove, List.length_append]
          cases hstatement : statement.isTimed <;>
            simp [hstatement] at htimed ⊢ <;> omega
      | stay s' signals =>
          have := timed.toNat_le
          simp only [refreshesFrom, hmove]
          split
          · change 1 + timed.toNat ≤ 2
            omega
          · change 0 + timed.toNat ≤ 2
            omega
      | fail s' tag =>
          obtain ⟨rfl, -⟩ := carryOut_fail hmove
          have := timed.toNat_le
          simp only [refreshesFrom, hmove]
          change 0 + timed.toNat ≤ 2
          omega

theorem length_refreshes_le (s : Script) (x : Sample) : (s.refreshes x).length ≤ 2 :=
  length_refreshesFrom_le x _ false s

/-- The target of the statement under the cursor, which depends on whether ramp-up is complete. -/
def targetFor (s : Script) (x : Sample) (ramped : Bool) : Celsius :=
  let setpoint := s.setpoint?.getD 0
  if s.phase = .mashing ∧ 0 < s.mashWater then
    if ramped then s.model.offsetTarget setpoint s.mashWater x.mash
    else s.model.rampUpTarget setpoint s.mashWater x.hlt
  else s.model.cap setpoint

/-- The target that a step leaves behind is the one of the statement it stops in front of. -/
theorem step_refreshed {s : Script} {x : Sample} (hfault : (s.step x).fault = none)
    (hgoes : (s.step x).script.completed = false) :
    ∃ last, (s.refreshes x).getLast? = some last ∧
      (s.step x).script.target = some ((s.step x).script.targetFor x last.before.rampedUp) := by
  rcases cascade_refreshed x _ false s rfl hfault with
    hdone | ⟨before, statement, elapsed, hlast, hactive, -, -, hscript⟩
  · rw [step, hdone] at hgoes
    cases hgoes
  · refine ⟨_, hlast, ?_⟩
    have hsetpoint : before.setpoint?.getD 0 = statement.setpoint := by
      rw [setpoint?, hactive]
      rfl
    have haim : before.aim statement.setpoint x = before.targetFor x before.rampedUp := by
      simp only [targetFor, hsetpoint, aim, compensates, Bool.and_eq_true, beq_iff_eq,
        decide_eq_true_eq]
    rw [step, hscript]
    exact congrArg some haim

/-! ### Runs -/

theorem latched_run (s : Script) (samples : List Sample) :
    Latched s.rampedUp (s.refreshesOver samples) (s.run samples).rampedUp := by
  induction samples generalizing s with
  | nil => rfl
  | cons x rest ih =>
      exact (latched_append _ _).mpr ⟨_, latched_cascade x _ false s, ih (s.step x).script⟩

end Brewhouse.Script
