import Brewhouse.Proofs.Recipe.Phrase
import Brewhouse.Proofs.Script.Effects
import Brewhouse.Proofs.Upload.Program
import Brewhouse.Upload.Projection

/-!
Which recipes an upload can carry: those that are an opening with one change of phase, and holds behind
it. In any other recipe the first statement that has no place in an upload is named, and if there is none,
the phase is missing.
-/

namespace Brewhouse

namespace Statement

def isPhase : Statement → Bool
  | .mash | .sparge => true
  | _ => false

/-- Whether a statement may stand in front of the holds of an upload. -/
def isOpening : Statement → Bool
  | .mash | .sparge | .mashWater _ | .pause => true
  | _ => false

theorem command_ne_hold_of_isOpening {s : Statement} (h : s.isOpening = true) :
    s.command ≠ .hold := by
  cases s
  case hold => cases h
  all_goals exact Command.noConfusion

theorem isInstant_of_isOpening {s : Statement} (h : s.isOpening = true) : s.isInstant = true := by
  cases s
  case heat | hold | unknown => cases h
  all_goals rfl

theorem phase_of_isOpening {s : Statement} (h : s.isOpening = true) {phase : Phase}
    (hset : s.phase? = some phase) : phase = .mashing ∨ phase = .sparging := by
  cases s
  case initialise => cases h
  case mash =>
    cases hset
    exact Or.inl rfl
  case sparge =>
    cases hset
    exact Or.inr rfl
  all_goals cases hset

theorem isSome_phase?_iff {s : Statement} (h : s.isOpening = true) :
    s.phase?.isSome = true ↔ s.isPhase = true := by
  cases s
  case initialise => cases h
  all_goals exact Iff.rfl

end Statement

namespace Upload

/-- The statement has no place in an upload behind those before it. -/
def Stray (before : List Statement) (s : Statement) : Prop :=
  s.command = .initialise ∨ s.command = .heat ∨
    (s.isPhase = true ∧ (∃ t ∈ before, t.isPhase = true) ∧ ∀ t ∈ before, t.command ≠ .hold) ∨
    (s.command ≠ .hold ∧ ∃ t ∈ before, t.command = .hold)

instance (before : List Statement) (s : Statement) : Decidable (Stray before s) :=
  inferInstanceAs (Decidable (_ ∨ _ ∨ _ ∨ _))

/-- The statements are an opening and the holds behind it. -/
structure Splits (statements opening : List Statement) (holds : List (Celsius × Milliseconds)) :
    Prop where
  eq : statements = opening ++ holds.map fun p => .hold (some p)
  opens : ∀ s ∈ opening, s.isOpening = true

/-- The program carries the statements: it has the one phase and the last volume of an opening, and the
holds behind it in order. -/
def Carries (w : Program) (statements : List Statement) : Prop :=
  ∃ opening holds, Splits statements opening holds ∧
    opening.filterMap Statement.phase? = [w.phase] ∧
    w.mashWater = Statement.lastSet Statement.noted? 0 opening ∧
    w.setpoints = holds.map fun p => ⟨p.1.toBits, p.2⟩

/-! ### Openings and holds -/

section Splits

variable {statements opening : List Statement} {holds : List (Celsius × Milliseconds)}

theorem Splits.exists_hold_iff (h : Splits statements opening holds) :
    (∃ s ∈ statements, s.command = .hold) ↔ holds ≠ [] := by
  rw [h.eq]
  constructor
  · rintro ⟨s, hs, hhold⟩ rfl
    rw [List.map_nil, List.append_nil] at hs
    exact Statement.command_ne_hold_of_isOpening (h.opens s hs) hhold
  · intro hne
    obtain ⟨p, rest, rfl⟩ := List.exists_cons_of_ne_nil hne
    exact ⟨.hold (some p), by simp, rfl⟩

theorem Splits.exists_phase_iff (h : Splits statements opening holds) :
    (∃ s ∈ statements, s.isPhase = true) ↔ opening.filterMap Statement.phase? ≠ [] := by
  have hopening : (∃ s ∈ statements, s.isPhase = true) ↔ ∃ s ∈ opening, s.phase?.isSome = true := by
    rw [h.eq]
    constructor
    · rintro ⟨s, hs, hphase⟩
      rcases List.mem_append.mp hs with hs | hs
      · exact ⟨s, hs, (Statement.isSome_phase?_iff (h.opens s hs)).mpr hphase⟩
      · obtain ⟨p, -, rfl⟩ := List.mem_map.mp hs
        cases hphase
    · rintro ⟨s, hs, hphase⟩
      exact ⟨s, List.mem_append_left _ hs, (Statement.isSome_phase?_iff (h.opens s hs)).mp hphase⟩
  rw [hopening, Ne, List.filterMap_eq_nil_iff]
  push Not
  simp only [Option.isSome_iff_ne_none]

theorem Splits.opening_eq (h : Splits statements opening holds) :
    statements.takeWhile Statement.isOpening = opening ∧
      statements.dropWhile Statement.isOpening = holds.map fun p => .hold (some p) := by
  rw [h.eq, List.takeWhile_append_of_pos h.opens, List.dropWhile_append_of_pos h.opens]
  cases holds with
  | nil => exact ⟨List.append_nil opening, rfl⟩
  | cons p rest => exact ⟨List.append_nil opening, rfl⟩

end Splits

/-- A program carries one list of statements in one way only. -/
theorem Carries.unique {w w' : Program} {statements : List Statement} (h : Carries w statements)
    (h' : Carries w' statements) : w = w' := by
  obtain ⟨opening, holds, hsplits, hphase, hvolume, hsetpoints⟩ := h
  obtain ⟨opening', holds', hsplits', hphase', hvolume', hsetpoints'⟩ := h'
  obtain rfl : opening = opening' := hsplits.opening_eq.1.symm.trans hsplits'.opening_eq.1
  obtain rfl : holds = holds' := by
    have hinjective : Function.Injective fun p => Statement.hold (some p) := by
      rintro p q ⟨⟩
      rfl
    exact hinjective.list_map (hsplits.opening_eq.2.symm.trans hsplits'.opening_eq.2)
  obtain ⟨phase, mashWater, setpoints⟩ := w
  obtain ⟨phase', mashWater', setpoints'⟩ := w'
  obtain rfl : phase = phase' := List.singleton_injective (hphase.symm.trans hphase')
  obtain rfl : mashWater = mashWater' := hvolume.trans hvolume'.symm
  obtain rfl : setpoints = setpoints' := hsetpoints.trans hsetpoints'.symm
  rfl

/-- A hold is never out of place. -/
theorem not_stray_hold (before : List Statement) (payload : Option (Celsius × Milliseconds)) :
    ¬Stray before (.hold payload) := by
  rintro (h | h | ⟨h, -⟩ | ⟨h, -⟩)
  · cases h
  · cases h
  · cases h
  · exact h rfl

/-- In an opening only a second change of phase is out of place. -/
theorem not_stray_opening {before : List Statement} {s : Statement}
    (hopens : ∀ t ∈ before ++ [s], t.isOpening = true)
    (honce : ((before ++ [s]).filterMap Statement.phase?).length ≤ 1) : ¬Stray before s := by
  obtain ⟨hbefore, hs⟩ := List.forall_mem_append.mp hopens
  replace hs := List.forall_mem_singleton.mp hs
  rintro (h | h | ⟨h, ⟨t, ht, hchange⟩, -⟩ | ⟨-, t, ht, hhold⟩)
  · cases s <;> cases h
    cases hs
  · cases s <;> cases h
    cases hs
  · rw [← Statement.isSome_phase?_iff hs] at h
    rw [← Statement.isSome_phase?_iff (hbefore t ht)] at hchange
    obtain ⟨p, hp⟩ := Option.isSome_iff_exists.mp h
    obtain ⟨q, hq⟩ := Option.isSome_iff_exists.mp hchange
    have hpos : 0 < (before.filterMap Statement.phase?).length :=
      List.length_pos_of_mem (List.mem_filterMap.mpr ⟨t, ht, hq⟩)
    rw [List.filterMap_append, List.filterMap_cons_some hp, List.length_append,
      List.length_cons] at honce
    omega
  · exact Statement.command_ne_hold_of_isOpening (hbefore t ht) hhold

/-- Nothing in what a program carries is out of place. -/
theorem Carries.not_stray {w : Program} {before after : List Statement} {s : Statement}
    (h : Carries w (before ++ s :: after)) : ¬Stray before s := by
  obtain ⟨opening, holds, hsplits, hphase, -, -⟩ := h
  by_cases hshort : opening.length ≤ before.length
  · have hmem : s ∈ holds.map fun p => Statement.hold (some p) := by
      have hdrop := congrArg (List.drop opening.length) hsplits.eq
      rw [List.drop_append_of_le_length hshort, List.drop_left] at hdrop
      exact hdrop ▸ List.mem_append_right _ List.mem_cons_self
    obtain ⟨p, -, rfl⟩ := List.mem_map.mp hmem
    exact not_stray_hold before _
  · have hwhole : before ++ [s] <+: before ++ s :: after :=
      ⟨after, (List.append_cons before s after).symm⟩
    have hfirst : before ++ [s] <+: opening := by
      refine List.prefix_of_prefix_length_le hwhole (hsplits.eq ▸ List.prefix_append _ _) ?_
      rw [List.length_append, List.length_singleton]
      omega
    refine not_stray_opening (fun t ht => hsplits.opens t (hfirst.subset ht)) ?_
    have hle := (hfirst.filterMap Statement.phase?).length_le
    rwa [hphase] at hle

/-! ### Drafts -/

namespace Draft

/-- The draft has gathered what the statements say. -/
def Gathers (d : Draft) (taken : List Statement) : Prop :=
  ∃ opening holds, Splits taken opening holds ∧
    opening.filterMap Statement.phase? = d.phase.toList ∧
    d.mashWater = Statement.lastSet Statement.noted? 0 opening ∧
    d.setpoints = holds.map fun p => ⟨p.1.toBits, p.2⟩

theorem gathers_empty : Draft.empty.Gathers [] :=
  ⟨[], [], ⟨rfl, List.forall_mem_nil _⟩, rfl, rfl, rfl⟩

/-- What a draft does not take in has no place in an upload. -/
theorem Gathers.take?_eq_none_iff {d : Draft} {taken : List Statement} (h : d.Gathers taken)
    {s : Statement} (hcomplete : s.isComplete = true) : d.take? s = none ↔ Stray taken s := by
  obtain ⟨opening, holds, hsplits, hphase, -, hsetpoints⟩ := h
  have hheld : (∃ t ∈ taken, t.command = .hold) ↔ d.setpoints ≠ [] := by
    rw [hsplits.exists_hold_iff, hsetpoints, Ne, Ne, List.map_eq_nil_iff]
  have hunheld : (∀ t ∈ taken, t.command ≠ .hold) ↔ d.setpoints = [] := by
    rw [← not_iff_not, ← Ne, ← hheld]
    push Not
    rfl
  have hchanged : (∃ t ∈ taken, t.isPhase = true) ↔ d.phase ≠ none := by
    rw [hsplits.exists_phase_iff, hphase, Ne, Option.toList_eq_nil_iff]
  rw [Stray, hheld, hunheld, hchanged]
  cases s with
  | mash | sparge =>
      simp only [take?, Statement.command, Statement.isPhase]
      by_cases hempty : d.setpoints = [] <;> simp [hempty]
  | mashWater | pause => simp [take?, Statement.command, Statement.isPhase]
  | initialise | heat => simp [take?, Statement.command]
  | hold payload =>
      cases payload with
      | none => cases hcomplete
      | some p => simp [take?, Statement.command, Statement.isPhase]
  | unknown => cases hcomplete

theorem Gathers.take? {d d' : Draft} {taken : List Statement} (h : d.Gathers taken)
    {s : Statement} (hcomplete : s.isComplete = true) (htake : d.take? s = some d') :
    d'.Gathers (taken ++ [s]) := by
  obtain ⟨opening, holds, ⟨rfl, hopens⟩, hphase, hvolume, hsetpoints⟩ := h
  have hgrown : s.isOpening = true → d.setpoints = [] →
      Splits (opening ++ holds.map (fun p => .hold (some p)) ++ [s]) (opening ++ [s]) [] := by
    intro hs hnone
    rw [hsetpoints, List.map_eq_nil_iff] at hnone
    subst hnone
    exact ⟨by simp, List.forall_mem_append.mpr ⟨hopens, List.forall_mem_singleton.mpr hs⟩⟩
  cases s with
  | mash | sparge =>
      rw [Draft.take?, Option.ite_none_right_eq_some] at htake
      obtain ⟨⟨hnone, hunset⟩, htake⟩ := htake
      cases htake
      refine ⟨_, _, hgrown rfl hnone, ?_, ?_, hnone⟩
      · rw [List.filterMap_append, hphase, hunset]
        rfl
      · rw [Statement.lastSet_append, ← hvolume]
        rfl
  | mashWater | pause =>
      rw [Draft.take?, Option.ite_none_right_eq_some] at htake
      obtain ⟨hnone, htake⟩ := htake
      cases htake
      refine ⟨_, _, hgrown rfl hnone, ?_, ?_, hnone⟩
      · rw [List.filterMap_append, hphase]
        exact List.append_nil _
      · rw [Statement.lastSet_append, ← hvolume]
        rfl
  | hold payload =>
      obtain _ | ⟨celsius, duration⟩ := payload
      · cases hcomplete
      · cases htake
        refine ⟨opening, holds ++ [(celsius, duration)], ⟨by simp, hopens⟩, hphase, hvolume, ?_⟩
        rw [hsetpoints, List.map_append]
        rfl
  | initialise | heat | unknown => cases htake

end Draft

/-! ### Programs -/

/-- The statement at this place, counted from zero, has no place in an upload. -/
def IsStray (statements : List Statement) (i : Nat) : Prop :=
  ∃ s, statements[i]? = some s ∧ Stray (statements.take i) s

instance (statements : List Statement) (i : Nat) : Decidable (IsStray statements i) :=
  decidable_of_iff (statements[i]?.any fun s => Stray (statements.take i) s) <| by
    simp [IsStray, Option.any_eq_true]

theorem isStray_append_of_lt {statements more : List Statement} {i : Nat}
    (hi : i < statements.length) : IsStray (statements ++ more) i ↔ IsStray statements i := by
  rw [IsStray, IsStray, List.getElem?_append_left hi, List.take_append_of_le_length hi.le]

theorem isStray_length {before after : List Statement} {s : Statement} :
    IsStray (before ++ s :: after) before.length ↔ Stray before s := by
  simp [IsStray]

theorem IsStray.lt_length {statements : List Statement} {i : Nat} (h : IsStray statements i) :
    i < statements.length := by
  obtain ⟨s, hs, -⟩ := h
  exact (List.getElem?_eq_some_iff.mp hs).1

theorem IsStray.exists_split {statements : List Statement} {i : Nat} (h : IsStray statements i) :
    ∃ before s after, statements = before ++ s :: after ∧ before.length = i ∧ Stray before s := by
  obtain ⟨s, hs, hstray⟩ := h
  obtain ⟨hlt, hget⟩ := List.getElem?_eq_some_iff.mp hs
  refine ⟨statements.take i, s, statements.drop (i + 1), ?_, List.length_take_of_le hlt.le, hstray⟩
  rw [← hget, List.cons_getElem_drop_succ, List.take_append_drop]

theorem Carries.not_isStray {w : Program} {statements : List Statement} (h : Carries w statements)
    (i : Nat) : ¬IsStray statements i := by
  intro hi
  obtain ⟨before, s, after, rfl, -, hstray⟩ := hi.exists_split
  exact h.not_stray hstray

/-- What is in its place is taken in. -/
theorem exists_gathers {kept : List Statement} (hcomplete : ∀ s ∈ kept, s.isComplete = true)
    (hkept : ∀ i, ¬IsStray kept i) :
    ∃ d : Draft, d.Gathers kept ∧
      ∀ rest, Draft.empty.takeAll 1 (kept ++ rest) = d.takeAll (kept.length + 1) rest := by
  induction kept using List.reverseRecOn with
  | nil => exact ⟨Draft.empty, Draft.gathers_empty, fun _ => rfl⟩
  | append_singleton kept s ih =>
      obtain ⟨hcomplete, hs⟩ := List.forall_mem_append.mp hcomplete
      replace hs := List.forall_mem_singleton.mp hs
      obtain ⟨d, hd, hrun⟩ := ih hcomplete fun i hi =>
        hkept i ((isStray_append_of_lt hi.lt_length).mpr hi)
      cases htake : d.take? s with
      | none => exact absurd (isStray_length.mpr ((hd.take?_eq_none_iff hs).mp htake)) (hkept _)
      | some d' =>
          refine ⟨d', hd.take? hs htake, fun rest => ?_⟩
          rw [List.append_assoc, List.singleton_append, hrun, Draft.takeAll, htake,
            List.length_append, List.length_singleton]

/-- The first statement that is out of place is named. -/
theorem programOf_of_stray {statements : List Statement} {i : Nat}
    (hcomplete : ∀ s ∈ statements, s.isComplete = true) (hi : IsStray statements i)
    (hfirst : ∀ j < i, ¬IsStray statements j) :
    ∃ s, statements[i]? = some s ∧
      programOf statements = .error (.notTransmittable (i + 1) s.command) := by
  obtain ⟨before, s, after, rfl, rfl, hstray⟩ := hi.exists_split
  obtain ⟨hbefore, hrest⟩ := List.forall_mem_append.mp hcomplete
  obtain ⟨d, hd, hrun⟩ := exists_gathers hbefore fun j hj =>
    hfirst j hj.lt_length ((isStray_append_of_lt hj.lt_length).mpr hj)
  have hnone : d.take? s = none :=
    (hd.take?_eq_none_iff (hrest s List.mem_cons_self)).mpr hstray
  refine ⟨s, by simp, ?_⟩
  rw [programOf, hrun, Draft.takeAll, hnone]
  rfl

/-- With nothing out of place there is a program unless the phase is missing. -/
theorem programOf_of_not_stray {statements : List Statement}
    (hcomplete : ∀ s ∈ statements, s.isComplete = true) (h : ∀ i, ¬IsStray statements i) :
    (∃ w, programOf statements = .ok w ∧ Carries w statements) ∨
      programOf statements = .error .missingPhase ∧ ∀ w, ¬Carries w statements := by
  obtain ⟨d, ⟨opening, holds, hsplits, hphase, hvolume, hsetpoints⟩, hrun⟩ :=
    exists_gathers hcomplete h
  have htakeAll : Draft.empty.takeAll 1 statements = .ok d := by
    rw [← List.append_nil statements, hrun]
    rfl
  cases hset : d.phase with
  | none =>
      rw [hset] at hphase
      refine Or.inr ⟨?_, ?_⟩
      · simp only [programOf, htakeAll, bind, Except.bind, hset]
        rfl
      · rintro w ⟨opening', holds', hsplits', hphase', -, -⟩
        have hchange := hsplits'.exists_phase_iff.mpr (hphase' ▸ List.cons_ne_nil _ _)
        exact hsplits.exists_phase_iff.mp hchange hphase
  | some phase =>
      rw [hset] at hphase
      refine Or.inl ⟨⟨phase, d.mashWater, d.setpoints⟩, ?_, ?_⟩
      · simp only [programOf, htakeAll, bind, Except.bind, hset]
        rfl
      · exact ⟨opening, holds, hsplits, hphase, hvolume, hsetpoints⟩

theorem programOf_eq_ok_iff {statements : List Statement}
    (hcomplete : ∀ s ∈ statements, s.isComplete = true) (w : Program) :
    programOf statements = .ok w ↔ Carries w statements := by
  constructor
  · intro hok
    by_cases hstray : ∃ i, IsStray statements i
    · obtain ⟨s, -, herror⟩ := programOf_of_stray hcomplete (Nat.find_spec hstray)
        fun j hj => Nat.find_min hstray hj
      rw [herror] at hok
      cases hok
    · rcases programOf_of_not_stray hcomplete (not_exists.mp hstray) with ⟨w', hok', hw'⟩ | ⟨herror, -⟩
      · rw [hok'] at hok
        cases hok
        exact hw'
      · rw [herror] at hok
        cases hok
  · intro hw
    rcases programOf_of_not_stray hcomplete hw.not_isStray with ⟨w', hok, hw'⟩ | ⟨-, hnone⟩
    · rw [hok, hw'.unique hw]
    · exact absurd hw (hnone w)

/-- A recipe has a program if and only if a program carries it, and that is the one. If none does, the
fault names the first statement that is out of place, by its place counted from one and by its command;
where none is out of place, it says that the phase is missing. -/
theorem program_of_recipe {source : String} {r : Recipe} (hcompile : Recipe.compile source = .ok r) :
    (∀ w, r.program = .ok w ↔ Carries w r.statements) ∧
    ((¬∃ w, Carries w r.statements) →
      ((∃ i, IsStray r.statements i) →
        ∃ i s, IsStray r.statements i ∧ (∀ j < i, ¬IsStray r.statements j) ∧
          r.statements[i]? = some s ∧ r.program = .error (.notTransmittable (i + 1) s.command)) ∧
      ((∀ i, ¬IsStray r.statements i) → r.program = .error .missingPhase)) := by
  have hcomplete := (Recipe.compile_spec hcompile).2
  refine ⟨programOf_eq_ok_iff hcomplete, fun hnone => ⟨fun hstray => ?_, fun hstray => ?_⟩⟩
  · have hfirst : ∀ j < Nat.find hstray, ¬IsStray r.statements j :=
      fun j hj => Nat.find_min hstray hj
    obtain ⟨s, hs, herror⟩ := programOf_of_stray hcomplete (Nat.find_spec hstray) hfirst
    exact ⟨Nat.find hstray, s, Nat.find_spec hstray, hfirst, hs, herror⟩
  · rcases programOf_of_not_stray hcomplete hstray with ⟨w, -, hw⟩ | ⟨herror, -⟩
    · exact absurd ⟨w, hw⟩ hnone
    · exact herror

/-- A mash with two holds is carried with their temperatures as bit patterns. A pause behind a hold is out
of place, though the phase is missing as well. -/
theorem program_of_recipe_of_two_holds :
    let carried : Recipe := ⟨[.mashWater (some 20000), .mash, .pause, .hold (some (65, 3600000)),
      .hold (some (72, 600000))]⟩
    let w : Program := ⟨.mashing, 20000, [⟨0x42820000, 3600000⟩, ⟨0x42900000, 600000⟩]⟩
    let refused : Recipe := ⟨[.mashWater (some 20000), .hold (some (65, 3600000)), .pause,
      .hold (some (72, 600000))]⟩
    (Recipe.compile "volume 20 L mash hold 65 C for 1 h hold 72 C for 10 min" = .ok carried ∧
      carried.program = .ok w) ∧
    Recipe.compile "volume 20 L hold 65 C for 1 h pause hold 72 C for 10 min" = .ok refused ∧
      (¬∃ w, Carries w refused.statements) ∧ IsStray refused.statements 2 ∧
      (∀ j < 2, ¬IsStray refused.statements j) ∧
      refused.program = .error (.notTransmittable 3 .pause) := by
  intro carried w refused
  have hcarried :
      Recipe.compile "volume 20 L mash hold 65 C for 1 h hold 72 C for 10 min" = .ok carried := by
    decide +kernel
  have hcarries : Carries w carried.statements := by
    refine ⟨[.mashWater (some 20000), .mash, .pause], [(65, 3600000), (72, 600000)], ⟨rfl, ?_⟩, rfl,
      rfl, ?_⟩ <;> decide +kernel
  have hrefused :
      Recipe.compile "volume 20 L hold 65 C for 1 h pause hold 72 C for 10 min" = .ok refused := by
    decide +kernel
  have hstray : IsStray refused.statements 2 := by decide +kernel
  have hfirst : ∀ j < 2, ¬IsStray refused.statements j := by decide +kernel
  have hnone : ¬∃ w, Carries w refused.statements := fun ⟨w, hw⟩ => hw.not_isStray 2 hstray
  obtain ⟨i, s, hi, hbefore, hs, herror⟩ := ((program_of_recipe hrefused).2 hnone).1 ⟨2, hstray⟩
  obtain rfl : i = 2 := by
    rcases lt_trichotomy i 2 with hlt | rfl | hgt
    · exact absurd hi (hfirst i hlt)
    · rfl
    · exact absurd hstray (hbefore 2 hgt)
  cases hs
  exact ⟨⟨hcarried, ((program_of_recipe hcarried).1 w).mpr hcarries⟩, hrefused, hnone, hstray, hfirst,
    herror⟩

end Upload

end Brewhouse
