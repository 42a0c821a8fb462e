import Brewhouse.Proofs.Exact.Single
import Brewhouse.Proofs.Exact.Word
import Brewhouse.Proofs.Script.Prologue
import Brewhouse.Upload.Loader

/-!
Which programs a loader takes, and what comes of the fields of those that it does not. A program has
at most one flaw that matters, the first: its phase comes before its length, and its length before
its temperatures.
-/

namespace Brewhouse.Upload

/-- No bound lies beside a number that is none. -/
theorem Limits.isNaN_of_contains {l : Limits} {t : Celsius} (h : l.contains t = true) :
    t.isNaN = false := by
  rw [contains, Bool.and_eq_true, decide_eq_true_iff, decide_eq_true_iff] at h
  exact (Exact.Single.isNaN_of_le h.2).1

/-- A temperature within limits travels in a pattern that is its own. -/
theorem Setpoint.toBits_celsius {l : Limits} {s : Setpoint} (h : l.contains s.celsius = true) :
    s.celsius.toBits = s.pattern :=
  Exact.Single.toBits_ofBits (Limits.isNaN_of_contains h)

def Setpoint.fields (s : Setpoint) : List (List UInt8) :=
  [Exact.Word.bytes s.pattern, Exact.Word.bytes s.duration]

def Setpoint.statement (s : Setpoint) : Statement :=
  .hold (some (s.celsius, s.duration))

namespace Program

/-! ### Acceptance -/

/-- What a loader asks of a program. -/
structure Acceptable (limits : Limits) (p : Program) : Prop where
  phase : p.phase = .mashing ∨ p.phase = .sparging
  fits : p.setpoints.length ≤ Script.capacity
  within : ∀ s ∈ p.setpoints, limits.contains s.celsius = true

theorem Acceptable.append {limits : Limits} {p : Program} {s : Setpoint} (hp : p.Acceptable limits)
    (hroom : p.setpoints.length < Script.capacity) (hs : limits.contains s.celsius = true) :
    Acceptable limits { p with setpoints := p.setpoints ++ [s] } := by
  refine ⟨hp.phase, ?_, ?_⟩
  · rw [List.length_append, List.length_singleton]
    exact hroom
  · exact List.forall_mem_append.mpr ⟨hp.within, List.forall_mem_singleton.mpr hs⟩

/-- The place of the first field that a loader refuses, and why. -/
def flaw? (limits : Limits) (p : Program) : Option (Nat × UploadFault) :=
  if p.phase = .initialising then some (1, .unknownMode)
  else if Script.capacity < p.setpoints.length then some (3, .tooManySetpoints)
  else (p.setpoints.findIdx? fun s => !limits.contains s.celsius).map
    fun i => (4 + 2 * i, .temperatureOutOfRange)

theorem flaw?_eq_none_iff {limits : Limits} {p : Program} :
    p.flaw? limits = none ↔ p.Acceptable limits := by
  constructor
  · intro h
    unfold flaw? at h
    split at h
    · cases h
    · next hphase =>
        split at h
        · cases h
        · next hfits =>
            rw [Option.map_eq_none_iff, List.findIdx?_eq_none_iff] at h
            refine ⟨?_, Nat.le_of_not_lt hfits, fun s hs => by simpa using h s hs⟩
            revert hphase
            cases p.phase <;> decide
  · rintro ⟨hphase, hfits, hwithin⟩
    have hknown : p.phase ≠ .initialising := by rcases hphase with h | h <;> rw [h] <;> decide
    rw [flaw?, if_neg hknown, if_neg (Nat.not_lt.mpr hfits), Option.map_eq_none_iff,
      List.findIdx?_eq_none_iff]
    intro s hs
    rw [hwithin s hs]
    rfl

/-- What comes of the fields of a program, up to the first that is refused. -/
def progress (limits : Limits) (model : ThermalModel) (p : Program) : List Progress :=
  match p.flaw? limits with
  | none => List.replicate (p.fields.length - 1) .accepted ++ [.done (p.script model)]
  | some (place, fault) => List.replicate place .accepted ++ [.refused fault]

/-! ### Fields -/

theorem fields_eq (p : Program) :
    p.fields = [openingTag.bytes, (phaseTag p.phase).bytes, Exact.Word.bytes p.mashWater,
        Exact.Word.bytes (UInt32.ofNat p.setpoints.length)] ++
      (p.setpoints.flatMap Setpoint.fields ++ [Tag.ending.bytes]) := by
  rw [fields, List.append_assoc]
  rfl

theorem length_flatMap_fields (setpoints : List Setpoint) :
    (setpoints.flatMap Setpoint.fields).length = 2 * setpoints.length := by
  induction setpoints with
  | nil => rfl
  | cons s rest ih =>
      rw [List.flatMap_cons, List.length_append, ih, List.length_cons, Setpoint.fields,
        List.length_cons, List.length_singleton]
      omega

theorem length_fields (p : Program) : p.fields.length = 5 + 2 * p.setpoints.length := by
  rw [fields_eq, List.length_append, List.length_append, length_flatMap_fields]
  simp only [List.length_cons, List.length_nil]
  omega

/-! ### Scripts -/

/-- The script of a program that fits has its setpoints one by one and is at its start. -/
theorem script_eq (model : ThermalModel) {p : Program} (hfits : p.setpoints.length ≤ Script.capacity) :
    p.script model =
      { statements := p.setpoints.map Setpoint.statement
        cursor := 0
        elapsedInInterval := 0
        phase := p.phase
        mashWater := p.mashWater
        target := none
        rampedUp := false
        failure := none
        model := model } := by
  rw [script, Script.ofStatements_eq model (by rwa [List.length_map])]
  rfl

end Program

end Brewhouse.Upload
