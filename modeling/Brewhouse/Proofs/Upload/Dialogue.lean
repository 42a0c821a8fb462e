import Brewhouse.Proofs.Upload.Loader
import Brewhouse.Proofs.Upload.Program

/-!
Fields sent one by one. A program is answered up to its first flaw, or to its end if it has none, and
either way the loader is left as it was before the first field.
-/

namespace Brewhouse.Upload

/-- The first loader answers the fields, each of the length it awaits, and becomes the second. The
sender goes no further than a refusal. -/
inductive Dialogue : Loader → List (List UInt8) → List Progress → Loader → Prop
  | nil (l : Loader) : Dialogue l [] [] l
  | refused {l l' : Loader} {field : List UInt8} {progress : Progress} (rest : List (List UInt8))
      (hlength : field.length = l.stage.fieldSize) (hconclude : l.conclude field = (l', progress))
      (hrefused : progress.isRefused = true) : Dialogue l (field :: rest) [progress] l'
  | accepted {l l' l'' : Loader} {field : List UInt8} {rest : List (List UInt8)}
      {progress : Progress} {further : List Progress}
      (hlength : field.length = l.stage.fieldSize) (hconclude : l.conclude field = (l', progress))
      (haccepted : progress.isRefused = false) (hrest : Dialogue l' rest further l'') :
      Dialogue l (field :: rest) (progress :: further) l''

theorem Dialogue.length_head {l l' : Loader} {field : List UInt8} {rest : List (List UInt8)}
    {progress : List Progress} (h : Dialogue l (field :: rest) progress l') :
    field.length = l.stage.fieldSize := by
  cases h with
  | refused _ hlength => exact hlength
  | accepted hlength => exact hlength

/-- Fields that are all accepted may come in one piece. -/
theorem Dialogue.feed_flatten {l l' : Loader} {fields : List (List UInt8)}
    {progress : List Progress} (h : Dialogue l fields progress l') (hstart : l.field = [])
    (hprogress : Unrefused progress) : l.feed fields.flatten = (l', progress) := by
  induction h with
  | nil l => rfl
  | refused rest hlength _ hrefused =>
      rw [unrefused_cons, hrefused] at hprogress
      exact absurd hprogress.1 (by decide)
  | @accepted l l' l'' field rest progress further hlength hconclude haccepted hrest ih =>
      have hroom : l.field.length < l.stage.fieldSize := by
        rw [hstart]
        exact l.stage.fieldSize_pos
      have hfull : (l.field ++ field).length = l.stage.fieldSize := by
        rw [hstart, List.nil_append, hlength]
      have hnext : l'.field = [] := by
        have := l.conclude_field field
        rwa [hconclude] at this
      rw [List.flatten_cons, Loader.feed_completing _ hroom hfull, hstart, List.nil_append,
        hconclude]
      simp only [haccepted, ih hnext (unrefused_cons.mp hprogress).2, Bool.false_eq_true, if_false]

namespace Program

/-! ### Single fields -/

variable {limits : Limits} {model : ThermalModel}

theorem conclude_opening :
    (Loader.fresh limits model).conclude openingTag.bytes =
      (⟨limits, model, .phase, []⟩, .accepted) := by
  simp [Loader.conclude, Loader.complete, Loader.fresh]

theorem conclude_phase {phase : Phase} (hphase : phase ≠ .initialising) :
    (Loader.mk limits model .phase []).conclude (phaseTag phase).bytes =
      (⟨limits, model, .mashWater phase, []⟩, .accepted) := by
  have hfound : Loader.phaseOf? (phaseTag phase).bytes = some phase := by
    revert hphase
    cases phase <;> decide
  simp [Loader.conclude, Loader.complete, hfound]

/-- An upload cannot ask for the initialising phase. -/
theorem conclude_initialising :
    (Loader.mk limits model .phase []).conclude (phaseTag .initialising).bytes =
      (Loader.fresh limits model, .refused .unknownMode) := by
  have hnone : Loader.phaseOf? (phaseTag .initialising).bytes = none := by decide
  simp [Loader.conclude, Loader.complete, hnone, Loader.reset, Loader.fresh]

theorem conclude_mashWater (phase : Phase) (mashWater : Millilitres) :
    (Loader.mk limits model (.mashWater phase) []).conclude (Exact.Word.bytes mashWater) =
      (⟨limits, model, .count phase mashWater, []⟩, .accepted) := by
  simp [Loader.conclude, Loader.complete]

theorem conclude_count (phase : Phase) (mashWater : Millilitres) {count : Nat}
    (hword : count < 4294967296) (hfits : count ≤ Script.capacity) :
    (Loader.mk limits model (.count phase mashWater) []).conclude
        (Exact.Word.bytes (UInt32.ofNat count)) =
      (⟨limits, model, Loader.setpointStage ⟨phase, mashWater, []⟩ count, []⟩, .accepted) := by
  have hcount : (UInt32.ofNat count).toNat = count := UInt32.toNat_ofNat_of_lt' hword
  simp [Loader.conclude, Loader.complete, hcount, Nat.not_lt.mpr hfits]

theorem conclude_count_of_lt (phase : Phase) (mashWater : Millilitres) {count : Nat}
    (hword : count < 4294967296) (hlarge : Script.capacity < count) :
    (Loader.mk limits model (.count phase mashWater) []).conclude
        (Exact.Word.bytes (UInt32.ofNat count)) =
      (Loader.fresh limits model, .refused .tooManySetpoints) := by
  have hcount : (UInt32.ofNat count).toNat = count := UInt32.toNat_ofNat_of_lt' hword
  simp [Loader.conclude, Loader.complete, hcount, hlarge, Loader.reset, Loader.fresh]

theorem conclude_temperature (received : Program) (remaining : Nat) {s : Setpoint}
    (hs : limits.contains s.celsius = true) :
    (Loader.mk limits model (.temperature received remaining) []).conclude
        (Exact.Word.bytes s.pattern) =
      (⟨limits, model, .duration received remaining s.pattern, []⟩, .accepted) := by
  rw [Setpoint.celsius] at hs
  simp [Loader.conclude, Loader.complete, hs]

theorem conclude_temperature_of_not_contains (received : Program) (remaining : Nat) {s : Setpoint}
    (hs : limits.contains s.celsius = false) :
    (Loader.mk limits model (.temperature received remaining) []).conclude
        (Exact.Word.bytes s.pattern) =
      (Loader.fresh limits model, .refused .temperatureOutOfRange) := by
  rw [Setpoint.celsius] at hs
  simp [Loader.conclude, Loader.complete, hs, Loader.reset, Loader.fresh]

theorem conclude_duration (received : Program) (remaining : Nat) (s : Setpoint) :
    (Loader.mk limits model (.duration received (remaining + 1) s.pattern) []).conclude
        (Exact.Word.bytes s.duration) =
      (⟨limits, model, Loader.setpointStage
        { received with setpoints := received.setpoints ++ [s] } remaining, []⟩, .accepted) := by
  simp [Loader.conclude, Loader.complete]

theorem conclude_ending (received : Program) :
    (Loader.mk limits model (.ending received) []).conclude Tag.ending.bytes =
      (Loader.fresh limits model, .done (received.script model)) := by
  simp [Loader.conclude, Loader.complete, Loader.reset, Loader.fresh]

/-! ### Whole programs -/

/-- What comes of the setpoints from some place on, and of the end. -/
def remainder (limits : Limits) (model : ThermalModel) (p : Program) (rest : List Setpoint) :
    List Progress :=
  match rest.findIdx? fun s => !limits.contains s.celsius with
  | none => List.replicate (2 * rest.length) .accepted ++ [.done (p.script model)]
  | some i => List.replicate (2 * i) .accepted ++ [.refused .temperatureOutOfRange]

theorem remainder_cons {p : Program} {s : Setpoint} (rest : List Setpoint)
    (hs : limits.contains s.celsius = true) :
    p.remainder limits model (s :: rest) =
      .accepted :: .accepted :: p.remainder limits model rest := by
  rw [remainder, remainder, List.findIdx?_cons, hs]
  cases rest.findIdx? fun s => !limits.contains s.celsius <;> rfl

theorem remainder_cons_of_not_contains {p : Program} {s : Setpoint} (rest : List Setpoint)
    (hs : limits.contains s.celsius = false) :
    p.remainder limits model (s :: rest) = [.refused .temperatureOutOfRange] := by
  rw [remainder, List.findIdx?_cons, hs]
  rfl

/-- The setpoints are taken in one by one, up to the first that is out of limits. -/
theorem dialogue_setpoints {p : Program} {taken rest : List Setpoint}
    (hp : p.setpoints = taken ++ rest) :
    Dialogue ⟨limits, model, Loader.setpointStage ⟨p.phase, p.mashWater, taken⟩ rest.length, []⟩
      (rest.flatMap Setpoint.fields ++ [Tag.ending.bytes]) (p.remainder limits model rest)
      (Loader.fresh limits model) := by
  -- `taken` grows by what `rest` loses, so the count that is left is the length of `rest`
  induction rest generalizing taken with
  | nil =>
      obtain ⟨phase, mashWater, setpoints⟩ := p
      rw [List.append_nil] at hp
      subst hp
      exact .accepted rfl (conclude_ending _) rfl (.nil _)
  | cons s rest ih =>
      rw [List.length_cons, Loader.setpointStage, List.flatMap_cons]
      cases hs : limits.contains s.celsius with
      | true =>
          rw [remainder_cons rest hs]
          refine .accepted rfl (conclude_temperature _ _ hs) rfl ?_
          refine .accepted rfl (conclude_duration _ _ s) rfl ?_
          exact ih (by rw [hp, List.append_assoc, List.singleton_append])
      | false =>
          rw [remainder_cons_of_not_contains rest hs]
          exact .refused _ rfl (conclude_temperature_of_not_contains _ _ hs) rfl

theorem progress_of_initialising {p : Program} (hphase : p.phase = .initialising) :
    p.progress limits model = [.accepted, .refused .unknownMode] := by
  rw [progress, flaw?, if_pos hphase]
  rfl

theorem progress_of_lt {p : Program} (hphase : p.phase ≠ .initialising)
    (hlarge : Script.capacity < p.setpoints.length) :
    p.progress limits model = [.accepted, .accepted, .accepted, .refused .tooManySetpoints] := by
  rw [progress, flaw?, if_neg hphase, if_pos hlarge]
  rfl

theorem progress_of_le {p : Program} (hphase : p.phase ≠ .initialising)
    (hfits : p.setpoints.length ≤ Script.capacity) :
    p.progress limits model =
      List.replicate 4 .accepted ++ p.remainder limits model p.setpoints := by
  rw [progress, flaw?, if_neg hphase, if_neg (Nat.not_lt.mpr hfits), remainder, length_fields]
  cases p.setpoints.findIdx? fun s => !limits.contains s.celsius with
  | none =>
      have hlength : 5 + 2 * p.setpoints.length - 1 = 4 + 2 * p.setpoints.length := by omega
      simp only [Option.map_none, hlength, ← List.replicate_append_replicate, List.append_assoc]
  | some i => simp only [Option.map_some, ← List.replicate_append_replicate, List.append_assoc]

/-- The fields up to the mash water are accepted, unless the phase is initialising. -/
theorem dialogue_of_count {p : Program} {fields : List (List UInt8)} {further : List Progress}
    {l : Loader} (hphase : p.phase ≠ .initialising)
    (h : Dialogue ⟨limits, model, .count p.phase p.mashWater, []⟩ fields further l) :
    Dialogue (Loader.fresh limits model)
      (openingTag.bytes :: (phaseTag p.phase).bytes :: Exact.Word.bytes p.mashWater :: fields)
      (.accepted :: .accepted :: .accepted :: further) l := by
  refine .accepted rfl conclude_opening rfl ?_
  refine .accepted rfl (conclude_phase hphase) rfl ?_
  exact .accepted rfl (conclude_mashWater _ _) rfl h

/-- A program's fields are answered up to its first flaw, and the loader is fresh again. -/
theorem dialogue {p : Program} (hword : p.setpoints.length < 4294967296) :
    Dialogue (Loader.fresh limits model) p.fields (p.progress limits model)
      (Loader.fresh limits model) := by
  rw [fields_eq]
  by_cases hphase : p.phase = .initialising
  · rw [progress_of_initialising hphase, hphase]
    refine .accepted rfl conclude_opening rfl ?_
    exact .refused _ rfl conclude_initialising rfl
  · by_cases hlarge : Script.capacity < p.setpoints.length
    · rw [progress_of_lt hphase hlarge]
      apply dialogue_of_count hphase
      exact .refused _ rfl (conclude_count_of_lt _ _ hword hlarge) rfl
    · have hfits := Nat.le_of_not_lt hlarge
      rw [progress_of_le hphase hfits]
      apply dialogue_of_count hphase
      refine .accepted rfl (conclude_count _ _ hword hfits) rfl ?_
      exact dialogue_setpoints rfl

theorem progress_of_acceptable (model : ThermalModel) {p : Program} (hp : p.Acceptable limits) :
    p.progress limits model =
      List.replicate (p.fields.length - 1) .accepted ++ [.done (p.script model)] := by
  rw [progress, flaw?_eq_none_iff.mpr hp]

theorem unrefused_progress (model : ThermalModel) {p : Program} (hp : p.Acceptable limits) :
    Unrefused (p.progress limits model) := by
  rw [progress_of_acceptable model hp, unrefused_append]
  exact ⟨fun _ h => List.eq_of_mem_replicate h ▸ rfl, by simp [Progress.isRefused]⟩

/-- A program without a flaw may come in one piece. -/
theorem feed_encode (model : ThermalModel) {p : Program} (hp : p.Acceptable limits) :
    (Loader.fresh limits model).feed p.encode =
      (Loader.fresh limits model, p.progress limits model) := by
  have hword : p.setpoints.length < 4294967296 := Nat.lt_of_le_of_lt hp.fits (by decide)
  exact (dialogue hword).feed_flatten rfl (unrefused_progress model hp)

/-- What a program comes to: it is taken, or refused at its phase, at its count or at its first
temperature out of limits. -/
inductive Verdict (p : Program) (limits : Limits) (model : ThermalModel) : List Progress → Prop
  | taken (hp : p.Acceptable limits) :
      Verdict p limits model
        (List.replicate (p.fields.length - 1) .accepted ++ [.done (p.script model)])
  | phase (hphase : p.phase = .initialising) :
      Verdict p limits model [.accepted, .refused .unknownMode]
  | count (hphase : p.phase ≠ .initialising) (hlarge : Script.capacity < p.setpoints.length) :
      Verdict p limits model (List.replicate 3 .accepted ++ [.refused .tooManySetpoints])
  | temperature (hphase : p.phase ≠ .initialising) (hfits : p.setpoints.length ≤ Script.capacity)
      {i : Nat} (hi : i < p.setpoints.length)
      (hs : limits.contains p.setpoints[i].celsius = false)
      (hbefore : ∀ (j : Nat) (hj : j < i), limits.contains p.setpoints[j].celsius = true) :
      Verdict p limits model
        (List.replicate (4 + 2 * i) .accepted ++ [.refused .temperatureOutOfRange])

theorem verdict_progress (p : Program) (limits : Limits) (model : ThermalModel) :
    p.Verdict limits model (p.progress limits model) := by
  by_cases hphase : p.phase = .initialising
  · rw [progress_of_initialising hphase]
    exact .phase hphase
  by_cases hlarge : Script.capacity < p.setpoints.length
  · rw [progress_of_lt hphase hlarge]
    exact .count hphase hlarge
  have hfits := Nat.le_of_not_lt hlarge
  cases hfind : p.setpoints.findIdx? fun s => !limits.contains s.celsius with
  | none =>
      have hp : p.Acceptable limits := flaw?_eq_none_iff.mp (by
        rw [flaw?, if_neg hphase, if_neg hlarge, hfind]
        rfl)
      rw [progress_of_acceptable model hp]
      exact .taken hp
  | some i =>
      obtain ⟨hi, hs, hbefore⟩ := List.findIdx?_eq_some_iff_getElem.mp hfind
      have hprogress : p.progress limits model =
          List.replicate (4 + 2 * i) .accepted ++ [.refused .temperatureOutOfRange] := by
        rw [progress, flaw?, if_neg hphase, if_neg hlarge, hfind]
        rfl
      rw [hprogress]
      exact .temperature hphase hfits hi (by simpa using hs) fun j hj => by simpa using hbefore j hj

end Program

end Brewhouse.Upload
