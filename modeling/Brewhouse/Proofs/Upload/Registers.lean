import Brewhouse.Proofs.Upload.Loader
import Brewhouse.Proofs.Upload.Program
import Brewhouse.Upload.Checked

/-!
The loader and its registers. The two show the same to whoever feeds them, although the registers keep a
temperature that no reset clears: it is written over before it is used. After a refusal, a complete upload
or a reset, both show what a new loader would.
-/

namespace Brewhouse.Upload

/-! ### What is seen of a loader -/

/-- What can be done with a loader: it takes bytes in one by one or in chunks, and it can be reset. -/
class Receiver (σ : Type) where
  feedByte : σ → UInt8 → σ × Option Progress
  feed : σ → List UInt8 → σ × List Progress
  reset : σ → σ
  inProgress : σ → Bool

instance : Receiver Loader where
  feedByte := Loader.feedByte
  feed := Loader.feed
  reset := Loader.reset
  inProgress := Loader.inProgress

instance : Receiver Registers where
  feedByte := Registers.feedByte
  feed := Registers.feed
  reset := Registers.reset
  inProgress := Registers.inProgress

inductive LoaderCall where
  | byte (byte : UInt8)
  | chunk (bytes : List UInt8)
  | reset

namespace Receiver

variable {σ τ : Type} [Receiver σ] [Receiver τ]

def take (r : σ) : LoaderCall → σ × List Progress
  | .byte byte => ((feedByte r byte).1, (feedByte r byte).2.toList)
  | .chunk bytes => feed r bytes
  | .reset => (reset r, [])

def after (r : σ) (calls : List LoaderCall) : σ :=
  calls.foldl (fun r call => (take r call).1) r

/-- What is seen of the loader: after each call what came of it, and whether an upload is under way. -/
def observe (r : σ) : List LoaderCall → List (List Progress × Bool)
  | [] => []
  | call :: rest => ((take r call).2, inProgress (take r call).1) :: observe (take r call).1 rest

/-- Related loaders show the same after each call and stay related. -/
def Simulates (related : σ → τ → Prop) : Prop :=
  ∀ {r s}, related r s → inProgress r = inProgress s ∧
    ∀ call, (take r call).2 = (take s call).2 ∧ related (take r call).1 (take s call).1

theorem Simulates.after {related : σ → τ → Prop} (h : Simulates related) {r : σ} {s : τ}
    (hrs : related r s) (calls : List LoaderCall) : related (after r calls) (after s calls) := by
  induction calls generalizing r s with
  | nil => exact hrs
  | cons call rest ih => exact ih ((h hrs).2 call).2

theorem Simulates.observe_eq {related : σ → τ → Prop} (h : Simulates related) {r : σ} {s : τ}
    (hrs : related r s) (calls : List LoaderCall) : observe r calls = observe s calls := by
  induction calls generalizing r s with
  | nil => rfl
  | cons call rest ih =>
      obtain ⟨hprogress, hnext⟩ := (h hrs).2 call
      rw [observe, observe, hprogress, (h hnext).1, ih hnext]

/-- Both show the same, at once and after each of any further calls. -/
def ShowsAs (r : σ) (s : τ) : Prop :=
  inProgress r = inProgress s ∧ ∀ later, observe r later = observe s later

theorem Simulates.showsAs {related : σ → τ → Prop} (h : Simulates related) {r : σ} {s : τ}
    (hrs : related r s) : ShowsAs r s :=
  ⟨(h hrs).1, h.observe_eq hrs⟩

theorem ShowsAs.trans {ρ : Type} [Receiver ρ] {r : σ} {s : τ} {t : ρ} (hrs : ShowsAs r s)
    (hst : ShowsAs s t) : ShowsAs r t :=
  ⟨hrs.1.trans hst.1, fun later => (hrs.2 later).trans (hst.2 later)⟩

theorem ShowsAs.symm {r : σ} {s : τ} (h : ShowsAs r s) : ShowsAs s r :=
  ⟨h.1.symm, fun later => (h.2 later).symm⟩

end Receiver

/-- Chunks are taken in byte by byte. -/
class BytewiseReceiver (σ : Type) [Receiver σ] : Prop where
  feed_nil (r : σ) : Receiver.feed r [] = (r, [])
  feed_cons (r : σ) (byte : UInt8) (rest : List UInt8) : Receiver.feed r (byte :: rest) =
    followUp (fun r => Receiver.feed r rest) (Receiver.feedByte r byte)

instance : BytewiseReceiver Loader where
  feed_nil _ := rfl
  feed_cons l byte rest := by
    change l.feed (byte :: rest) = followUp (fun l => l.feed rest) (l.feedByte byte)
    rw [Loader.feed]
    rcases l.feedByte byte with ⟨_, _ | _ | _ | _⟩ <;> rfl

instance : BytewiseReceiver Registers where
  feed_nil _ := rfl
  feed_cons r byte rest := by
    change r.feed (byte :: rest) = followUp (fun r => r.feed rest) (r.feedByte byte)
    rw [Registers.feed]
    rcases r.feedByte byte with ⟨_, _ | _ | _ | _⟩ <;> rfl

namespace Receiver

variable {σ τ : Type} [Receiver σ] [Receiver τ]

/-- Related loaders answer a byte alike and stay related. -/
def SimulatesBytes (related : σ → τ → Prop) : Prop :=
  ∀ {r s}, related r s → ∀ byte, (feedByte r byte).2 = (feedByte s byte).2 ∧
    related (feedByte r byte).1 (feedByte s byte).1

variable [BytewiseReceiver σ] [BytewiseReceiver τ] {related : σ → τ → Prop}

theorem SimulatesBytes.feed (h : SimulatesBytes related) {r : σ} {s : τ} (hrs : related r s)
    (bytes : List UInt8) :
    (feed r bytes).2 = (feed s bytes).2 ∧ related (feed r bytes).1 (feed s bytes).1 := by
  induction bytes generalizing r s with
  | nil =>
      rw [BytewiseReceiver.feed_nil, BytewiseReceiver.feed_nil]
      exact ⟨rfl, hrs⟩
  | cons byte rest ih =>
      obtain ⟨hprogress, hafter⟩ := h hrs byte
      rw [BytewiseReceiver.feed_cons, BytewiseReceiver.feed_cons]
      rcases hr : feedByte r byte with ⟨r', progress⟩
      rcases hs : feedByte s byte with ⟨s', progress'⟩
      rw [hr, hs] at hprogress hafter
      obtain rfl : progress = progress' := hprogress
      obtain ⟨hfurther, hend⟩ := ih hafter
      rcases progress with _ | _ | _ | fault
      · exact ⟨hfurther, hend⟩
      · exact ⟨congrArg _ hfurther, hend⟩
      · exact ⟨congrArg _ hfurther, hend⟩
      · exact ⟨rfl, hafter⟩

/-- Of a loader that takes chunks in byte by byte, bytes and resets tell everything. -/
theorem SimulatesBytes.simulates (h : SimulatesBytes related)
    (hprogress : ∀ {r s}, related r s → inProgress r = inProgress s)
    (hreset : ∀ {r s}, related r s → related (reset r) (reset s)) : Simulates related := by
  intro r s hrs
  refine ⟨hprogress hrs, fun call => ?_⟩
  cases call with
  | byte byte =>
      obtain ⟨hbyte, hafter⟩ := h hrs byte
      exact ⟨congrArg Option.toList hbyte, hafter⟩
  | chunk bytes => exact h.feed hrs bytes
  | reset => exact ⟨rfl, hreset hrs⟩

end Receiver

/-! ### What the registers stand for -/

theorem Program.model_script (p : Program) (model : ThermalModel) : (p.script model).model = model := by
  have hadd : ∀ (statements : List Statement) (s : Script),
      (statements.foldl Script.add s).model = s.model := by
    intro statements
    induction statements with
    | nil => exact fun s => rfl
    | cons statement rest ih =>
        intro s
        rw [List.foldl_cons, ih, Script.add]
        split <;> rfl
  exact hadd _ _

/-- The script of a program with one more setpoint. -/
theorem Program.script_concat (p : Program) (setpoint : Setpoint) (model : ThermalModel) :
    { p with setpoints := p.setpoints ++ [setpoint] }.script model =
      (p.script model).add (.hold (some (setpoint.celsius, setpoint.duration))) := by
  unfold script Script.ofStatements
  rw [List.map_append, List.foldl_append, List.map_singleton, List.foldl_cons, List.foldl_nil,
    Script.add, Script.add]
  split <;> rfl

/-- What the registers hold when the loader awaits a field. Only the duration of a setpoint asks for the
temperature register to hold the temperature received last. -/
inductive Holds (model : ThermalModel) : Stage → Awaited → Script → Celsius → Prop where
  | opening {pending : Script} {temperature : Celsius} (hmodel : pending.model = model) :
      Holds model .opening .opening pending temperature
  | phase {temperature : Celsius} : Holds model .phase .phase (.empty model) temperature
  | mashWater (phase : Phase) {temperature : Celsius} :
      Holds model (.mashWater phase) .mashWater { Script.empty model with phase } temperature
  | count (phase : Phase) (mashWater : Millilitres) {temperature : Celsius} :
      Holds model (.count phase mashWater) .count { Script.empty model with phase, mashWater }
        temperature
  | temperature (received : Program) {remaining : UInt32} (hmore : remaining ≠ 0)
      {temperature : Celsius} :
      Holds model (.temperature received remaining.toNat) (.temperature remaining)
        (received.script model) temperature
  | duration (received : Program) {remaining : UInt32} (hmore : remaining ≠ 0) (pattern : UInt32) :
      Holds model (.duration received remaining.toNat pattern) (.duration remaining)
        (received.script model) (Float32.ofBits pattern)
  | ending (received : Program) {temperature : Celsius} :
      Holds model (.ending received) .ending (received.script model) temperature

variable {model : ThermalModel} {stage : Stage} {awaited : Awaited} {pending : Script}
  {temperature : Celsius}

theorem Holds.fieldSize_eq (h : Holds model stage awaited pending temperature) :
    awaited.fieldSize = stage.fieldSize := by
  cases h <;> rfl

theorem Holds.model_eq (h : Holds model stage awaited pending temperature) :
    pending.model = model := by
  cases h with
  | opening hmodel => exact hmodel
  | phase | mashWater | count => rfl
  | temperature received | duration received | ending received => exact received.model_script model

theorem Holds.opening_iff (h : Holds model stage awaited pending temperature) :
    awaited = .opening ↔ stage = .opening := by
  cases h <;> simp

theorem toNat_pos_of_ne_zero {w : UInt32} (h : w ≠ 0) : 0 < w.toNat :=
  UInt32.lt_iff_toNat_lt.mp (UInt32.pos_iff_ne_zero.mpr h)

theorem toNat_sub_one {w : UInt32} (h : w ≠ 0) : (w - 1).toNat = w.toNat - 1 :=
  UInt32.toNat_sub_of_le _ _ (UInt32.le_iff_toNat_le.mpr (toNat_pos_of_ne_zero h))

theorem holds_setpointStage (model : ThermalModel) (received : Program) (remaining : UInt32)
    (temperature : Celsius) :
    Holds model (Loader.setpointStage received remaining.toNat) (.ofRemaining remaining)
      (received.script model) temperature := by
  unfold Awaited.ofRemaining
  split
  · next hnone =>
    subst hnone
    exact .ending received
  · next hmore =>
    obtain ⟨n, hn⟩ := Nat.exists_eq_add_one_of_ne_zero (toNat_pos_of_ne_zero hmore).ne'
    rw [hn, Loader.setpointStage, ← hn]
    exact .temperature received hmore

/-- The registers are those of the loader. -/
structure Represents (r : Registers) (l : Loader) : Prop where
  limits : r.limits = l.limits
  field : r.field = l.field
  room : l.field.length < l.stage.fieldSize
  holds : Holds l.model l.stage r.awaited r.pending r.temperature

theorem represents_fresh (limits : Limits) (model : ThermalModel) :
    Represents (.fresh limits model) (.fresh limits model) :=
  ⟨rfl, rfl, Nat.succ_pos 2, .opening rfl⟩

/-- Whatever the temperature register holds, registers that are reset are those of a new loader. -/
theorem represents_reset {r : Registers} {l : Loader} (hlimits : r.limits = l.limits)
    (hmodel : r.pending.model = l.model) : Represents r.reset l.reset :=
  ⟨hlimits, rfl, Nat.succ_pos 2, .opening hmodel⟩

theorem Represents.inProgress_eq {r : Registers} {l : Loader} (h : Represents r l) :
    r.inProgress = l.inProgress := by
  unfold Registers.inProgress Loader.inProgress
  rw [h.field]
  congr 1
  rw [Bool.eq_iff_iff, bne_iff_ne, bne_iff_ne, Ne, Ne, h.holds.opening_iff]

/-! ### One field -/

/-- The registers after the last byte of a field, and what comes of the field. -/
def Registers.conclude (r : Registers) : Registers × Progress :=
  match r.complete with
  | .ok (r, progress) => ({ r with field := [] }, progress)
  | .error fault => (r.reset, .refused fault)

theorem Registers.feedByte_of_short {r : Registers} {byte : UInt8}
    (hshort : (r.push byte).field.length < (r.push byte).awaited.fieldSize) :
    r.feedByte byte = (r.push byte, none) :=
  if_pos hshort

theorem Registers.feedByte_of_full {r : Registers} {byte : UInt8}
    (hfull : ¬ (r.push byte).field.length < (r.push byte).awaited.fieldSize) :
    r.feedByte byte = ((r.push byte).conclude.1, some (r.push byte).conclude.2) := by
  rw [feedByte, conclude]
  dsimp only
  rw [if_neg hfull]
  rcases (r.push byte).complete with fault | ⟨r', progress⟩ <;> rfl

/-- Both end a field in the same way. -/
def Concludes (x : Registers × Progress) (y : Loader × Progress) : Prop :=
  x.2 = y.2 ∧ Represents x.1 y.1

theorem concludes_accepted {r r' : Registers} {l : Loader} {field : List UInt8} {stage : Stage}
    (hr : r.complete = .ok (r', .accepted)) (hl : l.complete field = .ok (.inl stage))
    (hlimits : r'.limits = l.limits)
    (hholds : Holds l.model stage r'.awaited r'.pending r'.temperature) :
    Concludes r.conclude (l.conclude field) := by
  rw [Registers.conclude, Loader.conclude, hr, hl]
  exact ⟨rfl, hlimits, rfl, stage.fieldSize_pos, hholds⟩

theorem concludes_done {r r' : Registers} {l : Loader} {field : List UInt8} {script : Script}
    (hr : r.complete = .ok (r', .done script)) (hl : l.complete field = .ok (.inr script))
    (hreset : r'.awaited = .opening) (hlimits : r'.limits = l.limits)
    (hmodel : r'.pending.model = l.model) : Concludes r.conclude (l.conclude field) := by
  rw [Registers.conclude, Loader.conclude, hr, hl]
  refine ⟨rfl, hlimits, rfl, Nat.succ_pos 2, ?_⟩
  rw [hreset]
  exact .opening hmodel

theorem concludes_refused {r : Registers} {l : Loader} {field : List UInt8} {fault : UploadFault}
    (hr : r.complete = .error fault) (hl : l.complete field = .error fault)
    (hlimits : r.limits = l.limits) (hmodel : r.pending.model = l.model) :
    Concludes r.conclude (l.conclude field) := by
  rw [Registers.conclude, Loader.conclude, hr, hl]
  exact ⟨rfl, represents_reset hlimits hmodel⟩

/-- A complete field is taken in alike. -/
theorem concludes {r : Registers} {l : Loader} (hlimits : r.limits = l.limits)
    (hlength : r.field.length = l.stage.fieldSize)
    (hholds : Holds l.model l.stage r.awaited r.pending r.temperature) :
    Concludes r.conclude (l.conclude r.field) := by
  have hmodel := hholds.model_eq
  obtain ⟨_, model, stage, part⟩ := l
  obtain ⟨limits, awaited, field, pending, temperature⟩ := r
  obtain rfl := hlimits
  dsimp only at hlength hholds hmodel ⊢
  have htag : stage.fieldSize = 3 → field.take 3 = field := fun h =>
    List.take_of_length_le (hlength.trans h).le
  have hword : stage.fieldSize = 4 → field.take 4 = field := fun h =>
    List.take_of_length_le (hlength.trans h).le
  cases hholds with
  | opening =>
      by_cases hopening : field = openingTag.bytes
      · refine concludes_accepted (if_pos ?_) (if_pos hopening) rfl ?_
        · exact (htag rfl).trans hopening
        · rw [show pending.reset = .empty model from congrArg Script.empty hmodel]
          exact .phase
      · refine concludes_refused (if_neg ?_) (if_neg hopening) rfl hmodel
        exact fun h => hopening ((htag rfl).symm.trans h)
  | phase =>
      cases hphase : Loader.phaseOf? field with
      | none =>
          have hl : Loader.complete ⟨limits, model, .phase, part⟩ field = .error .unknownMode := by
            simp only [Loader.complete, hphase]
          refine concludes_refused ?_ hl rfl rfl
          simp only [Registers.complete, Registers.tag, htag rfl, hphase]
      | some phase =>
          have hl : Loader.complete ⟨limits, model, .phase, part⟩ field =
              .ok (.inl (.mashWater phase)) := by
            simp only [Loader.complete, hphase]
          have hr : Registers.complete ⟨limits, .phase, field, .empty model, temperature⟩ =
              .ok (⟨limits, .mashWater, field, { Script.empty model with phase }, temperature⟩,
                .accepted) := by
            simp only [Registers.complete, Registers.tag, htag rfl, hphase]
          exact concludes_accepted hr hl rfl (.mashWater phase)
  | mashWater phase =>
      refine concludes_accepted rfl rfl rfl ?_
      rw [Registers.word, hword rfl]
      exact .count phase _
  | count phase mashWater =>
      by_cases hmany : Script.capacity < (Exact.Word.ofBytes field).toNat
      · refine concludes_refused (if_pos ?_) (if_pos hmany) rfl rfl
        rwa [Registers.word, hword rfl]
      · refine concludes_accepted (if_neg ?_) (if_neg hmany) rfl ?_
        · rwa [Registers.word, hword rfl]
        · rw [Registers.word, hword rfl]
          exact holds_setpointStage model ⟨phase, mashWater, []⟩ _ _
  | temperature received hmore =>
      by_cases hlimit : limits.contains (Float32.ofBits (Exact.Word.ofBytes field)) = true
      · refine concludes_accepted (if_pos ?_) (if_pos hlimit) rfl ?_
        · rwa [Registers.word, hword rfl]
        · rw [Registers.word, hword rfl]
          exact .duration received hmore _
      · refine concludes_refused (if_neg ?_) (if_neg hlimit) rfl hmodel
        rwa [Registers.word, hword rfl]
  | @duration received remaining hmore pattern =>
      refine concludes_accepted rfl rfl rfl ?_
      have hscript := received.script_concat ⟨pattern, Exact.Word.ofBytes field⟩ model
      rw [← toNat_sub_one hmore, Registers.word, hword rfl]
      dsimp only [Setpoint.celsius] at hscript ⊢
      rw [← hscript]
      exact holds_setpointStage model _ _ _
  | ending received =>
      by_cases hending : field = Tag.ending.bytes
      · refine concludes_done (if_pos ?_) (if_pos hending) rfl rfl hmodel
        exact (htag rfl).trans hending
      · refine concludes_refused (if_neg ?_) (if_neg hending) rfl hmodel
        exact fun h => hending ((htag rfl).symm.trans h)

/-! ### Calls -/

theorem Stage.fieldSize_le (s : Stage) : s.fieldSize ≤ 4 := by
  cases s <;> simp [fieldSize]

theorem Represents.feedByte {r : Registers} {l : Loader} (h : Represents r l) (byte : UInt8) :
    (r.feedByte byte).2 = (l.feedByte byte).2 ∧
      Represents (r.feedByte byte).1 (l.feedByte byte).1 := by
  have hroom : r.field.length < 4 := h.field ▸ h.room.trans_le l.stage.fieldSize_le
  have hpush : r.push byte = { r with field := l.field ++ [byte] } := by
    rw [Registers.push, if_pos hroom, h.field]
  have hsize := h.holds.fieldSize_eq
  by_cases hshort : (l.field ++ [byte]).length < l.stage.fieldSize
  · have hshort' : (r.push byte).field.length < (r.push byte).awaited.fieldSize := by
      rw [hpush, hsize]
      exact hshort
    rw [Registers.feedByte_of_short hshort', Loader.feedByte_of_short hshort, hpush]
    exact ⟨rfl, h.limits, rfl, hshort, h.holds⟩
  · have hfull' : ¬ (r.push byte).field.length < (r.push byte).awaited.fieldSize := by
      rw [hpush, hsize]
      exact hshort
    rw [Registers.feedByte_of_full hfull', Loader.feedByte_of_full hshort, hpush]
    have hlength : (l.field ++ [byte]).length = l.stage.fieldSize := by
      have hbefore := h.room
      rw [List.length_append, List.length_singleton] at hshort ⊢
      omega
    obtain ⟨hprogress, hafter⟩ :=
      concludes (r := { r with field := l.field ++ [byte] }) h.limits hlength h.holds
    exact ⟨congrArg some hprogress, hafter⟩

open Receiver

/-- Registers show what the loader shows that they are those of. -/
theorem simulates_represents : Simulates Represents := by
  have hbyte : SimulatesBytes Represents := fun h byte => h.feedByte byte
  intro r l
  exact hbyte.simulates (fun h => h.inProgress_eq) fun h =>
    represents_reset h.limits h.holds.model_eq

/-! ### As good as new -/

namespace Loader

/-- No call has a say in what the loader is after a reset. -/
theorem reset_after (l : Loader) (calls : List LoaderCall) : (after l calls).reset = l.reset := by
  induction calls generalizing l with
  | nil => rfl
  | cons call rest ih =>
      refine (ih _).trans ?_
      cases call with
      | byte byte => exact l.reset_feedByte byte
      | chunk bytes => exact l.reset_feed bytes
      | reset => rfl

/-- A field that is not just accepted leaves the loader as a reset does. -/
theorem feedByte_eq_reset {l : Loader} {byte : UInt8} {p : Progress}
    (h : (l.feedByte byte).2 = some p) (hp : p ≠ .accepted) : (l.feedByte byte).1 = l.reset := by
  by_cases hshort : (l.field ++ [byte]).length < l.stage.fieldSize
  · rw [feedByte_of_short hshort] at h
    cases h
  · rw [feedByte_of_full hshort, conclude] at h ⊢
    rcases hcomplete : l.complete (l.field ++ [byte]) with fault | stage | script <;>
      simp only [hcomplete] at h ⊢
    cases h
    exact absurd rfl hp

end Loader

/-- After any calls, a byte that brings a refusal or a whole script leaves a loader that shows what a new
one does, and so does a reset. That holds for the registers too, which show the same as the loader. -/
theorem as_good_as_new (limits : Limits) (model : ThermalModel) (calls : List LoaderCall) :
    let l := after (Loader.fresh limits model) calls
    let r := after (Registers.fresh limits model) calls
    ShowsAs r l ∧
    (∀ byte p, (l.feedByte byte).2 = some p → p ≠ .accepted →
      ShowsAs (l.feedByte byte).1 (Loader.fresh limits model)) ∧
    ShowsAs l.reset (Loader.fresh limits model) ∧
    (∀ byte p, (r.feedByte byte).2 = some p → p ≠ .accepted →
      ShowsAs (r.feedByte byte).1 (Registers.fresh limits model)) ∧
    ShowsAs r.reset (Registers.fresh limits model) := by
  intro l r
  have hfresh := represents_fresh limits model
  have hrepresents : Represents r l := simulates_represents.after hfresh calls
  have hreset : l.reset = .fresh limits model := Loader.reset_after _ calls
  have hself : ShowsAs (Loader.fresh limits model) (Loader.fresh limits model) := ⟨rfl, fun _ => rfl⟩
  have hnew : ∀ {r' : Registers}, Represents r' (.fresh limits model) →
      ShowsAs r' (Registers.fresh limits model) := fun h =>
    (simulates_represents.showsAs h).trans (simulates_represents.showsAs hfresh).symm
  refine ⟨simulates_represents.showsAs hrepresents, fun byte p h hp => ?_, hreset ▸ hself,
    fun byte p h hp => ?_, hnew ?_⟩
  · rw [Loader.feedByte_eq_reset h hp, hreset]
    exact hself
  · obtain ⟨hprogress, hafter⟩ := hrepresents.feedByte byte
    rw [Loader.feedByte_eq_reset (hprogress ▸ h) hp, hreset] at hafter
    exact hnew hafter
  · rw [← hreset]
    exact represents_reset hrepresents.limits hrepresents.holds.model_eq

/-- The second temperature of a program is refused, while the first one is still in its register. -/
theorem as_good_as_new_of_refused_temperature :
    let limits : Limits := ⟨0, 79⟩
    let p : Program := ⟨.mashing, 500, [.ofCelsius 65 60000, .ofCelsius 99 1000]⟩
    let r := after (Registers.fresh limits .standard) [.chunk (p.encode.take 25)]
    (r.feedByte (p.encode.getD 25 0)).2 = some (.refused .temperatureOutOfRange) ∧
      (r.feedByte (p.encode.getD 25 0)).1.temperature = 65 ∧
      ShowsAs (r.feedByte (p.encode.getD 25 0)).1 (Registers.fresh limits .standard) := by
  intro limits p r
  have hrefused : (r.feedByte (p.encode.getD 25 0)).2 = some (.refused .temperatureOutOfRange) := by
    decide +kernel
  obtain ⟨-, -, -, hnew, -⟩ := as_good_as_new limits .standard [.chunk (p.encode.take 25)]
  exact ⟨hrefused, by decide +kernel, hnew _ _ hrefused (fun h => by cases h)⟩

end Brewhouse.Upload
