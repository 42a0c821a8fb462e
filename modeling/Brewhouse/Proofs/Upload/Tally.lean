import Brewhouse.Proofs.Upload.Language
import Brewhouse.Proofs.Upload.Registers

/-!
The count of an upload against the registers. Whatever comes, the holds in the script and the setpoints
to come add up to the count that was announced, and the script has every hold whose bytes have been taken
in. That is why the checked loader never stops: there is always room for the next byte and for the next
hold, and a setpoint is counted down only if it was to come.
-/

namespace Brewhouse.Upload

/-! ### The upload under way -/

/-- The bytes of the upload under way after one byte more. An upload ends with its script or with a
refusal. -/
def underWay (bytes : List UInt8) (byte : UInt8) : Option Progress → List UInt8
  | none | some .accepted => bytes ++ [byte]
  | some (.done _) | some (.refused _) => []

/-- A loader with a record of the bytes of the upload under way. -/
structure Recorded (σ : Type) where
  loader : σ
  bytes : List UInt8

namespace Recorded

variable {σ : Type} [Receiver σ]

def start (r : σ) : Recorded σ :=
  ⟨r, []⟩

def feedByte (s : Recorded σ) (byte : UInt8) : Recorded σ × Option Progress :=
  let (r, progress) := Receiver.feedByte s.loader byte
  (⟨r, underWay s.bytes byte progress⟩, progress)

instance : Receiver (Recorded σ) where
  feedByte := feedByte
  feed := feedEach feedByte
  reset s := start (Receiver.reset s.loader)
  inProgress s := Receiver.inProgress s.loader

instance : BytewiseReceiver (Recorded σ) where
  feed_nil _ := rfl
  feed_cons _ _ _ := rfl

/-- The record has no say in what the loader does. -/
theorem simulates_loader [BytewiseReceiver σ] :
    Receiver.Simulates fun (s : Recorded σ) (r : σ) => s.loader = r := by
  have hbyte : Receiver.SimulatesBytes fun (s : Recorded σ) (r : σ) => s.loader = r := by
    rintro s _ rfl byte
    exact ⟨rfl, rfl⟩
  intro s r
  exact hbyte.simulates (fun h => congrArg Receiver.inProgress h)
    fun h => congrArg Receiver.reset h

end Recorded

namespace Loader

theorem follows_reset (l : Loader) : l.reset.Follows [] :=
  follows_fresh l.limits l.model

/-- Whatever comes of a byte, the bytes of the upload under way begin an acceptable program. -/
theorem follows_underWay {l : Loader} {bytes : List UInt8} (h : l.Follows bytes) (byte : UInt8) :
    (l.feedByte byte).1.Follows (underWay bytes byte (l.feedByte byte).2) := by
  have hends {p : Progress} (hp : (l.feedByte byte).2 = some p) (hne : p ≠ .accepted) :
      (l.feedByte byte).1.Follows [] := by
    rw [feedByte_eq_reset hp hne]
    exact l.follows_reset
  rcases hbyte : l.feedByte byte with ⟨l', _ | _ | script | fault⟩ <;> rw [hbyte] at hends
  · exact (follows_feedByte h hbyte (by simp)).1
  · exact (follows_feedByte h hbyte (by simp)).1
  · exact hends rfl (by simp)
  · exact hends rfl (by simp)

end Loader

/-- The registers are those of a loader in the middle of an acceptable program, which begins with the
recorded bytes. -/
structure Stands (s : Recorded Registers) (l : Loader) : Prop where
  represents : Represents s.loader l
  follows : l.Follows s.bytes

theorem stands_fresh (limits : Limits) (model : ThermalModel) :
    Stands (Recorded.start (Registers.fresh limits model)) (Loader.fresh limits model) :=
  ⟨represents_fresh limits model, Loader.follows_fresh limits model⟩

theorem simulates_stands : Receiver.Simulates Stands := by
  have hbyte : Receiver.SimulatesBytes Stands := by
    intro s l h byte
    obtain ⟨hprogress, hafter⟩ := h.represents.feedByte byte
    have hfollows := Loader.follows_underWay h.follows byte
    rw [← hprogress] at hfollows
    exact ⟨hprogress, hafter, hfollows⟩
  intro s l
  exact hbyte.simulates (fun h => h.represents.inProgress_eq) fun {s l} h =>
    ⟨represents_reset h.represents.limits h.represents.holds.model_eq, l.follows_reset⟩

/-! ### The tally -/

/-- The count among the bytes of an upload. It comes after the opening, the phase and the mash water. -/
def countIn (bytes : List UInt8) : Nat :=
  (Exact.Word.ofBytes ((bytes.drop 10).take 4)).toNat

theorem countIn_lead (p : Program) {count : Nat} (hcount : count ≤ Script.capacity)
    (rest : List UInt8) : countIn (p.lead count ++ rest) = count := by
  have hbytes : ((p.lead count ++ rest).drop 10).take 4 = Exact.Word.bytes (UInt32.ofNat count) := rfl
  have hlt : count < 2 ^ 32 := hcount.trans_lt (by decide)
  rw [countIn, hbytes, Exact.Word.ofBytes_bytes, UInt32.toNat_ofNat_of_lt' hlt]

/-- The holds in the script and the setpoints to come add up to the count among the bytes, and the script
has every hold whose bytes are there. -/
structure Tallies (pending : Script) (bytes : List UInt8) (remaining : Nat) : Prop where
  fits : countIn bytes ≤ Script.capacity
  sum : pending.statements.length + remaining = countIn bytes
  kept : ∃ (p : Program) (rest : List UInt8), bytes = p.lead (countIn bytes) ++ rest ∧
    rest.length < 8 ∧ pending.statements = p.setpoints.map Setpoint.statement

theorem tallies_lead {limits : Limits} {received : Program} (hreceived : received.Acceptable limits)
    (model : ThermalModel) {remaining : Nat}
    (hfits : received.setpoints.length + remaining ≤ Script.capacity) {rest : List UInt8}
    (hrest : rest.length < 8) :
    Tallies (received.script model)
      (received.lead (received.setpoints.length + remaining) ++ rest) remaining := by
  have hcount := countIn_lead received hfits rest
  have hscript := congrArg Script.statements (received.script_eq model hreceived.fits)
  refine ⟨hcount.trans_le hfits, ?_, received, rest, ?_, hrest, hscript⟩
  · rw [hcount, hscript, List.length_map]
  · rw [hcount]

theorem Awaited.fieldSize_le (a : Awaited) : a.fieldSize ≤ 4 := by
  cases a <;> simp [fieldSize]

/-- How many setpoints are to come, once they have been counted. -/
def Awaited.remaining? : Awaited → Option Nat
  | .temperature remaining | .duration remaining => some remaining.toNat
  | .ending => some 0
  | _ => none

/-- The program as far as it has been received and how many setpoints are to come, once they have been
counted. -/
def Stage.counted? : Stage → Option (Program × Nat)
  | .temperature received remaining | .duration received remaining _ => some (received, remaining)
  | .ending received => some (received, 0)
  | _ => none

section

variable {model : ThermalModel} {stage : Stage} {awaited : Awaited} {pending : Script}
  {temperature : Celsius}

theorem Holds.counted (h : Holds model stage awaited pending temperature) {remaining : Nat}
    (hremaining : awaited.remaining? = some remaining) :
    ∃ received, stage.counted? = some (received, remaining) ∧ pending = received.script model := by
  cases h with
  | opening | phase | mashWater | count => cases hremaining
  | temperature received | duration received | ending received =>
      cases hremaining
      exact ⟨received, rfl, rfl⟩

/-- A setpoint is awaited only if one is to come. -/
theorem Holds.remaining_pos (h : Holds model stage awaited pending temperature) {remaining : UInt32}
    (hawaited : awaited = .temperature remaining ∨ awaited = .duration remaining) :
    0 < remaining.toNat := by
  rcases hawaited with rfl | rfl
  · cases h with
    | temperature received hmore => exact toNat_pos_of_ne_zero hmore
  · cases h with
    | duration received hmore => exact toNat_pos_of_ne_zero hmore

/-- Before a stage after the count come the bytes of what has been received, and at most a temperature
without its duration. -/
theorem Stage.Reached.counted {limits : Limits} {sofar : List UInt8}
    (h : stage.Reached limits sofar) {received : Program} {remaining : Nat}
    (hcounted : stage.counted? = some (received, remaining)) :
    received.Acceptable limits ∧ received.setpoints.length + remaining ≤ Script.capacity ∧
      ∃ part, part.length + stage.fieldSize ≤ 8 ∧
        sofar = received.lead (received.setpoints.length + remaining) ++ part := by
  cases h with
  | opening | phase | mashWater | count => cases hcounted
  | temperature hreceived hfits =>
      cases hcounted
      exact ⟨hreceived, hfits, [], Nat.le_add_right 4 4, (List.append_nil _).symm⟩
  | @duration _ _ pattern hreceived hfits =>
      cases hcounted
      exact ⟨hreceived, hfits, Exact.Word.bytes pattern, Nat.le_refl 8, rfl⟩
  | ending hreceived =>
      cases hcounted
      exact ⟨hreceived, hreceived.fits, [], Nat.le_add_right 3 5, (List.append_nil _).symm⟩

end

namespace Stands

variable {s : Recorded Registers} {l : Loader}

theorem room (h : Stands s l) : s.loader.field.length < s.loader.awaited.fieldSize := by
  rw [h.represents.holds.fieldSize_eq, h.represents.field]
  exact h.represents.room

theorem tallies (h : Stands s l) {remaining : Nat}
    (hremaining : s.loader.awaited.remaining? = some remaining) :
    Tallies s.loader.pending s.bytes remaining := by
  obtain ⟨received, hcounted, hpending⟩ := h.represents.holds.counted hremaining
  obtain ⟨sofar, hreached, hroom, hbytes⟩ := h.follows
  obtain ⟨hreceived, hfits, part, hpart, rfl⟩ := hreached.counted hcounted
  have hrest : (part ++ l.field).length < 8 := by
    rw [List.length_append]
    omega
  rw [← hbytes, hpending, List.append_assoc]
  exact tallies_lead hreceived l.model hfits hrest

end Stands

/-! ### No slips -/

instance : Receiver Checked where
  feedByte := Checked.feedByte
  feed := Checked.feed
  reset := Checked.reset
  inProgress := Checked.inProgress

instance : BytewiseReceiver Checked where
  feed_nil _ := rfl
  feed_cons _ _ _ := rfl

namespace Registers

variable {r : Registers}

theorem push?_eq (hroom : r.field.length < 4) (byte : UInt8) :
    r.push? byte = .ok { r with field := r.field ++ [byte] } :=
  if_pos hroom

theorem tag?_eq (hlength : 3 ≤ r.field.length) : r.tag? = .ok r.tag :=
  if_pos hlength

theorem word?_eq (hlength : 4 ≤ r.field.length) : r.word? = .ok r.word := by
  have hfirst : r.first? 4 = .ok (r.field.take 4) := if_pos hlength
  rw [word?, hfirst]
  rfl

/-- What a duration asks of the registers: a setpoint that is to come, and room for its hold. -/
def ReadyToHold (r : Registers) : Prop :=
  ∀ remaining, r.awaited = .duration remaining → remaining ≠ 0 ∧ r.pending.isFull = false

/-- A field that is long enough is taken in without a slip. -/
theorem complete?_eq (hlength : r.awaited.fieldSize ≤ r.field.length) (hready : r.ReadyToHold) :
    r.complete? = .ok r.complete := by
  unfold complete? complete
  cases hawaited : r.awaited with
  | opening | phase | ending =>
      rw [hawaited] at hlength
      dsimp only
      rw [tag?_eq hlength]
      rfl
  | mashWater | count | temperature =>
      rw [hawaited] at hlength
      dsimp only
      rw [word?_eq hlength]
      rfl
  | duration remaining =>
      obtain ⟨hmore, hroom⟩ := hready remaining hawaited
      have hadd (hold : Statement) : addChecked r.pending hold = .ok (r.pending.add hold) := by
        rw [addChecked, hroom]
        rfl
      have hcount : countDown remaining = .ok (remaining - 1) := if_neg hmore
      rw [hawaited] at hlength
      dsimp only
      rw [word?_eq hlength, hcount]
      dsimp only [bind, Except.bind]
      rw [hadd]
      rfl

/-- A setpoint that was not to come is one too many. -/
example : (Registers.mk ⟨0, 79⟩ (.duration 0) [0, 0, 0, 0] (.empty .standard) 65).complete? =
    .error .countSpent := rfl

theorem feedByte?_eq (hroom : r.field.length < r.awaited.fieldSize) (hready : r.ReadyToHold)
    (byte : UInt8) : r.feedByte? byte = .ok (r.feedByte byte) := by
  have hfour : r.field.length < 4 := hroom.trans_le r.awaited.fieldSize_le
  have hpush : r.push byte = { r with field := r.field ++ [byte] } := if_pos hfour
  unfold feedByte? feedByte
  rw [push?_eq hfour, hpush]
  dsimp only [bind, Except.bind]
  split
  · rfl
  · next hfull =>
      have hcomplete := complete?_eq (r := { r with field := r.field ++ [byte] })
        (Nat.le_of_not_lt hfull) hready
      rw [hcomplete]
      rcases complete { r with field := r.field ++ [byte] } with fault | ⟨r', progress⟩ <;> rfl

end Registers

/-- A hold has room in the script because it is one of those that were counted. -/
theorem Stands.readyToHold {s : Recorded Registers} {l : Loader} (h : Stands s l) :
    s.loader.ReadyToHold := by
  intro remaining hawaited
  have hpos := h.represents.holds.remaining_pos (Or.inr hawaited)
  have htallies := h.tallies (congrArg Awaited.remaining? hawaited)
  have hroom : s.loader.pending.statements.length < Script.capacity :=
    calc s.loader.pending.statements.length
        < s.loader.pending.statements.length + remaining.toNat := Nat.lt_add_of_pos_right hpos
      _ = countIn s.bytes := htallies.sum
      _ ≤ Script.capacity := htallies.fits
  refine ⟨?_, beq_eq_false_iff_ne.mpr hroom.ne⟩
  rintro rfl
  cases hpos

/-- The checked loader has not stopped, and its registers are the recorded ones. -/
def Agrees (c : Checked) (s : Recorded Registers) : Prop :=
  c = .ok s.loader ∧ ∃ l, Stands s l

theorem simulates_agrees : Receiver.Simulates Agrees := by
  have hbyte : Receiver.SimulatesBytes Agrees := by
    rintro _ s ⟨rfl, l, h⟩ byte
    have hchecked : Receiver.feedByte (Except.ok s.loader : Checked) byte =
        (.ok (s.loader.feedByte byte).1, (s.loader.feedByte byte).2) := by
      change Checked.feedByte (.ok s.loader) byte = _
      rw [Checked.feedByte, Registers.feedByte?_eq h.room h.readyToHold byte]
    rw [hchecked]
    exact ⟨rfl, rfl, _, ((simulates_stands h).2 (.byte byte)).2⟩
  intro c s
  refine hbyte.simulates ?_ ?_
  · rintro _ s ⟨rfl, -⟩
    rfl
  · rintro _ s ⟨rfl, l, h⟩
    exact ⟨rfl, _, ((simulates_stands h).2 .reset).2⟩

/-! ### Any calls -/

open Receiver

/-- Between any two calls the awaited field is not complete, and from the count of an upload to its end
the holds in the script and the setpoints to come add up to that count. The checked loader comes to the
same registers and shows the same: no byte is without room, no tag or number is read that is not there,
no setpoint is counted down that was not to come, and no hold is left out. -/
theorem registers_add_up (limits : Limits) (model : ThermalModel) (calls : List LoaderCall) :
    let r := after (Registers.fresh limits model) calls
    let bytes := (after (Recorded.start (Registers.fresh limits model)) calls).bytes
    r.field.length < r.awaited.fieldSize ∧
    (∀ remaining, r.awaited = .temperature remaining ∨ r.awaited = .duration remaining →
      1 ≤ remaining.toNat ∧ remaining.toNat ≤ 32 ∧ Tallies r.pending bytes remaining.toNat) ∧
    (r.awaited = .ending → Tallies r.pending bytes 0) ∧
    after (Checked.fresh limits model) calls = .ok r ∧
    observe (Checked.fresh limits model) calls = observe (Registers.fresh limits model) calls := by
  intro r bytes
  let start := Recorded.start (Registers.fresh limits model)
  have hloader : (after start calls).loader = r := Recorded.simulates_loader.after rfl calls
  have hend : after start calls = ⟨r, bytes⟩ := congrArg (Recorded.mk · bytes) hloader
  have hstands := simulates_stands.after (stands_fresh limits model) calls
  have hagrees : Agrees (Checked.fresh limits model) start := ⟨rfl, _, stands_fresh limits model⟩
  have hchecked := (simulates_agrees.after hagrees calls).1
  rw [hend] at hstands hchecked
  refine ⟨hstands.room, fun remaining hawaited => ?_, fun hawaited => ?_, hchecked, ?_⟩
  · have hremaining : r.awaited.remaining? = some remaining.toNat := by
      rcases hawaited with hawaited | hawaited <;> rw [hawaited] <;> rfl
    have htally : Tallies r.pending bytes remaining.toNat := hstands.tallies hremaining
    refine ⟨hstands.represents.holds.remaining_pos hawaited, ?_, htally⟩
    calc remaining.toNat ≤ r.pending.statements.length + remaining.toNat := Nat.le_add_left _ _
      _ = countIn bytes := htally.sum
      _ ≤ 32 := htally.fits
  · exact hstands.tallies (congrArg Awaited.remaining? hawaited)
  · exact (simulates_agrees.observe_eq hagrees calls).trans
      (Recorded.simulates_loader.observe_eq rfl calls)

/-- Two bytes into the temperature of the second of two setpoints. -/
theorem registers_add_up_of_second_temperature :
    let limits : Limits := ⟨0, 79⟩
    let p : Program := ⟨.mashing, 500, [.ofCelsius 65 60000, .ofCelsius 70 1000]⟩
    let calls : List LoaderCall := [.chunk (p.encode.take 24)]
    let r := after (Registers.fresh limits .standard) calls
    let bytes := (after (Recorded.start (Registers.fresh limits .standard)) calls).bytes
    r.awaited = .temperature 1 ∧ r.field.length = 2 ∧ countIn bytes = 2 ∧
      Tallies r.pending bytes 1 ∧ after (Checked.fresh limits .standard) calls = .ok r := by
  intro limits p calls r bytes
  have hawaited : r.awaited = .temperature 1 := by decide +kernel
  have hfield : r.field.length = 2 := by decide +kernel
  have hcount : countIn bytes = 2 := by decide +kernel
  obtain ⟨-, hsetpoint, -, hchecked, -⟩ := registers_add_up limits .standard calls
  obtain ⟨-, -, htally⟩ := hsetpoint 1 (Or.inl hawaited)
  exact ⟨hawaited, hfield, hcount, htally, hchecked⟩

end Brewhouse.Upload
