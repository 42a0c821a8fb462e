import Brewhouse.Proofs.Upload.Dialogue
import Brewhouse.Proofs.Upload.Transmittable

/-!
A recipe that is uploaded runs as the recipe itself. What an upload cannot carry as holds is a
prologue of instant statements, and the script of the upload starts where that prologue has been
passed.
-/

namespace Brewhouse.Upload

/-- A recipe that can be uploaded is a prologue and the holds of its program. -/
theorem program_split {source : String} {r : Recipe} {w : Program}
    (hcompile : Recipe.compile source = .ok r) (hprogram : r.program = .ok w) :
    ∃ before : List Statement, r.statements = before ++ w.setpoints.map Setpoint.statement ∧
      (∀ statement ∈ before, statement.isInstant = true) ∧
      (w.phase = .mashing ∨ w.phase = .sparging) ∧
      ∀ s : Script, s.phase = .initialising → s.mashWater = 0 →
        (s.passAll before).phase = w.phase ∧ (s.passAll before).mashWater = w.mashWater := by
  obtain ⟨before, holds, hsplits, hphase, hvolume, hsetpoints⟩ :=
    (programOf_eq_ok_iff (Recipe.compile_spec hcompile).2 w).mp hprogram
  have hholds : w.setpoints.map Setpoint.statement = holds.map fun p => .hold (some p) := by
    rw [hsetpoints, List.map_map]
    refine List.map_congr_left fun p _ => ?_
    rw [Function.comp_apply, Setpoint.statement, Setpoint.celsius, Float32.ofBits_toBits]
  refine ⟨before, hholds ▸ hsplits.eq, fun s hs => Statement.isInstant_of_isOpening (hsplits.opens s hs),
    ?_, fun s hs hmash => ?_⟩
  · have hmem : w.phase ∈ before.filterMap Statement.phase? := hphase ▸ List.mem_singleton_self _
    obtain ⟨t, ht, hset⟩ := List.mem_filterMap.mp hmem
    exact Statement.phase_of_isOpening (hsplits.opens t ht) hset
  · obtain ⟨hpassed, hwater⟩ := Script.passAll_sets s before
    rw [Statement.lastSet, hphase] at hpassed
    rw [hmash, ← hvolume] at hwater
    exact ⟨hpassed, hwater⟩

theorem countP_prologue {before : List Statement} (setpoints : List Setpoint)
    (hinstant : ∀ statement ∈ before, statement.isInstant = true) :
    (before ++ setpoints.map Setpoint.statement).countP (fun s => s.command != .hold) =
      before.length := by
  have hbefore : before.countP (fun s => s.command != .hold) = before.length := by
    refine List.countP_eq_length.mpr fun statement hs => ?_
    have := hinstant statement hs
    cases statement
    case hold => cases this
    all_goals rfl
  have hholds : (setpoints.map Setpoint.statement).countP (fun s => s.command != .hold) = 0 := by
    rw [List.countP_eq_zero, List.forall_mem_map]
    intro s _
    exact Bool.false_ne_true
  rw [List.countP_append, hbefore, hholds]
  rfl

/-- The script of a recipe that has passed the prologue is the script of its program behind it. -/
theorem passAll_recipe {source : String} {r : Recipe} {w : Program} (model : ThermalModel)
    (hcompile : Recipe.compile source = .ok r) (hprogram : r.program = .ok w) :
    ∃ before : List Statement, r.statements = before ++ w.setpoints.map Setpoint.statement ∧
      (∀ statement ∈ before, statement.isInstant = true) ∧
      (w.phase = .mashing ∨ w.phase = .sparging) ∧ w.setpoints.length ≤ Script.capacity ∧
      (r.script model).passAll before = (w.script model).behind before := by
  obtain ⟨before, hsplit, hinstant, hphase, hpassed⟩ := program_split hcompile hprogram
  have hfits : w.setpoints.length ≤ Script.capacity := by
    have hlength := (Recipe.compile_spec hcompile).1
    rw [hsplit, List.length_append, List.length_map] at hlength
    omega
  refine ⟨before, hsplit, hinstant, hphase, hfits, ?_⟩
  obtain ⟨hphase, hmashWater⟩ := hpassed { Script.empty model with statements := r.statements }
    rfl rfl
  rw [Recipe.script_eq hcompile, Script.passAll_eq, hphase, hmashWater,
    Program.script_eq model hfits, hsplit]
  simp [Script.behind, Script.empty]

/-- An uploaded recipe and the recipe itself give the same brew day: both go on without a fault, and
after every step they agree on everything but the place in the script, which differs by the
prologue. What the recipe does beyond the upload it does on its first step. -/
theorem upload_runs_as_recipe {source : String} {r : Recipe} {w : Program} (limits : Limits)
    (model : ThermalModel) (hcompile : Recipe.compile source = .ok r)
    (hprogram : r.program = .ok w)
    (hlimits : ∀ s ∈ w.setpoints, limits.contains s.celsius = true) :
    ∃ u : Script,
      ((Loader.fresh limits model).feed w.encode).2 =
        List.replicate (w.fields.length - 1) .accepted ++ [.done u] ∧
      ∀ (past : List Sample) (x : Sample),
        let uploaded := (u.run past).step x
        let direct := ((r.script model).run past).step x
        uploaded.fault = none ∧ direct.fault = none ∧
        direct.script.phase = uploaded.script.phase ∧
        direct.script.mashWater = uploaded.script.mashWater ∧
        direct.script.target = uploaded.script.target ∧
        direct.script.rampedUp = uploaded.script.rampedUp ∧
        direct.script.elapsedInInterval = uploaded.script.elapsedInInterval ∧
        direct.script.intervalDuration = uploaded.script.intervalDuration ∧
        direct.script.setpoint? = uploaded.script.setpoint? ∧
        direct.script.failure = uploaded.script.failure ∧
        direct.script.completed = uploaded.script.completed ∧
        direct.script.cursor =
          uploaded.script.cursor + r.statements.countP (fun s => s.command != .hold) ∧
        ∃ prologue, direct.signals = prologue ++ uploaded.signals ∧ (past ≠ [] → prologue = []) := by
  obtain ⟨before, hsplit, hinstant, hphase, hfits, hpassed⟩ :=
    passAll_recipe model hcompile hprogram
  have hp : w.Acceptable limits := ⟨hphase, hfits, hlimits⟩
  refine ⟨w.script model, ?_, ?_⟩
  · rw [Program.feed_encode model hp, Program.progress_of_acceptable model hp]
  intro past x uploaded direct
  have hstatements : (w.script model).statements = w.setpoints.map Setpoint.statement := by
    rw [Program.script_eq model hfits]
  have hdirect := Recipe.script_eq hcompile model
  obtain ⟨signals, hstep, hfirst⟩ := Script.step_run_behind (s := r.script model)
    (t := w.script model) hinstant (by rw [hstatements]; simp [Setpoint.statement])
    (by rw [hdirect, hstatements, ← hsplit]) (by rw [hdirect]; rfl)
    (by rw [Program.script_eq model hfits]) hpassed past x
  have hfault : uploaded.fault = none := by
    apply Script.step_fault
    rw [Script.run_statements, hstatements, List.forall_mem_map]
    exact fun _ _ => rfl
  have hbeyond : direct = { uploaded.behind before with
      signals := signals ++ uploaded.signals } := hstep
  rw [hbeyond, hsplit, countP_prologue w.setpoints hinstant]
  refine ⟨hfault, hfault, rfl, rfl, rfl, rfl, rfl, ?_, ?_, rfl, ?_, ?_, signals, rfl, hfirst⟩
  · rw [Script.intervalDuration, Script.intervalDuration]
    exact congrArg (fun active? => (active?.bind Statement.duration?).getD 0)
      (Script.active?_behind before uploaded.script)
  · exact congrArg (fun active? => active?.bind Statement.setpoint?)
      (Script.active?_behind before uploaded.script)
  · exact Script.completed_behind before uploaded.script
  · exact Nat.add_comm ..

/-- A mash with its volume noted and the operator's consent before two holds. -/
theorem upload_runs_as_recipe_of_mash :
    let source := "mash volume 20 L\nmashing\nhold 65 C for 60 min\nhold 72 C for 10 min"
    let r : Recipe := ⟨[.mashWater (some 20000), .mash, .pause, .hold (some (65, 3600000)),
      .hold (some (72, 600000))]⟩
    let w : Program := ⟨.mashing, 20000, [.ofCelsius 65 3600000, .ofCelsius 72 600000]⟩
    Recipe.compile source = .ok r ∧ r.program = .ok w ∧
      ∃ u : Script,
        ((Loader.fresh ⟨0, 79⟩ .standard).feed w.encode).2 =
          List.replicate 8 .accepted ++ [.done u] ∧
        ∀ (past : List Sample) (x : Sample),
          (((r.script .standard).run past).step x).script.target =
            ((u.run past).step x).script.target ∧
          (((r.script .standard).run past).step x).script.cursor =
            ((u.run past).step x).script.cursor + 3 := by
  intro source r w
  have hcompile : Recipe.compile source = .ok r := by decide +kernel
  have hprogram : r.program = .ok w := by decide +kernel
  obtain ⟨u, hfeed, hruns⟩ :=
    upload_runs_as_recipe ⟨0, 79⟩ .standard hcompile hprogram (by decide +kernel)
  refine ⟨hcompile, hprogram, u, hfeed, fun past x => ?_⟩
  obtain ⟨-, -, -, -, htarget, -, -, -, -, -, -, hcursor, -⟩ := hruns past x
  exact ⟨htarget, hcursor⟩

end Brewhouse.Upload
