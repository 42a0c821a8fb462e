import Brewhouse.Bench.Pins
import Brewhouse.Board.Instruments
import Brewhouse.Proofs.Place
import Mathlib.Data.List.Induction

/-!
Reading a frame of a converter on a board whose pins may do anything. A record of the calls on the pins shows
that a frame is read whole or not at all: either every call took effect and the frame is made of the
sixteen samples, or shifting stops with the first call that fails. In both cases a converter that was
selected is released, and that is the last call.
-/

namespace Brewhouse

/-! ### Calls -/

inductive Board.Call where
  | write (pin : OutputPin) (high done : Bool)
  | read (pin : InputPin) (level : Option Bool)
  deriving DecidableEq

namespace Board.Call

def failed : Call → Bool
  | .write _ _ done => !done
  | .read _ level => level.isNone

/-- A call on the clock or the data of a vessel's converter. -/
def Shifts (vessel : Vessel) : Call → Prop
  | .write pin _ _ => pin = .clock vessel
  | .read pin _ => pin = .data vessel

end Board.Call

/-- A board with a record of the calls on its pins. -/
structure RecordedBoard (β : Type) where
  board : β
  /-- The calls so far, in order. -/
  calls : List Board.Call

variable {β : Type} [Board β]

instance : Board (RecordedBoard β) where
  write pin high r :=
    ((Board.write pin high r.board).1,
      ⟨(Board.write pin high r.board).2, r.calls ++ [.write pin high (Board.write pin high r.board).1]⟩)
  read pin r :=
    ((Board.read pin r.board).1,
      ⟨(Board.read pin r.board).2, r.calls ++ [.read pin (Board.read pin r.board).1]⟩)
  delay what time r := { r with board := Board.delay what time r.board }

namespace RecordedBoard

theorem write_eq (pin : OutputPin) (high : Bool) (b : β) (past : List Board.Call) :
    Board.write pin high (⟨b, past⟩ : RecordedBoard β) = ((Board.write pin high b).1,
      ⟨(Board.write pin high b).2, past ++ [.write pin high (Board.write pin high b).1]⟩) :=
  rfl

theorem read_eq (pin : InputPin) (b : β) (past : List Board.Call) :
    Board.read pin (⟨b, past⟩ : RecordedBoard β) = ((Board.read pin b).1,
      ⟨(Board.read pin b).2, past ++ [.read pin (Board.read pin b).1]⟩) :=
  rfl

/-- Time that passes is not on record. -/
theorem halfPeriod_eq (vessel : Vessel) (b : β) (past : List Board.Call) :
    Thermocouple.halfPeriod vessel (⟨b, past⟩ : RecordedBoard β) =
      ⟨Thermocouple.halfPeriod vessel b, past⟩ :=
  rfl

end RecordedBoard

namespace Thermocouple

open Board (Call)
open RecordedBoard

/-! ### Shifting -/

/-- The calls that clock a bit out: the clock goes low, the bit is sampled, and the clock goes high. -/
def bitCalls (vessel : Vessel) (bit : Bool) : List Call :=
  [.write (.clock vessel) false true, .read (.data vessel) (some bit), .write (.clock vessel) true true]

/-- Calls on the clock and the data that took effect. -/
def Sound (vessel : Vessel) (calls : List Call) : Prop :=
  ∀ call ∈ calls, call.Shifts vessel ∧ call.failed = false

theorem sound_bitCalls (vessel : Vessel) (bit : Bool) : Sound vessel (bitCalls vessel bit) := by
  simp [Sound, bitCalls, Call.Shifts, Call.failed]

theorem sound_bits (vessel : Vessel) (bits : List Bool) :
    Sound vessel (bits.flatMap (bitCalls vessel)) := by
  intro call hcall
  obtain ⟨bit, -, hcall⟩ := List.mem_flatMap.mp hcall
  exact sound_bitCalls vessel bit call hcall

/-- Shifting has come to a call that failed, and has stopped. -/
inductive Breaks (vessel : Vessel) : List Call → Prop where
  | after {before : List Call} {last : Call} (hbefore : Sound vessel before)
      (hlast : last.Shifts vessel) (hfailed : last.failed = true) : Breaks vessel (before ++ [last])

theorem Breaks.append {vessel : Vessel} {before calls : List Call} (h : Breaks vessel calls)
    (hbefore : Sound vessel before) : Breaks vessel (before ++ calls) := by
  cases h with
  | after hsound hlast hfailed =>
      rw [← List.append_assoc]
      exact .after (List.forall_mem_append.mpr ⟨hbefore, hsound⟩) hlast hfailed

/-- How it goes to clock one bit out. -/
inductive ClocksBit (vessel : Vessel) : List Call → Option Bool → Prop where
  | whole (bit : Bool) : ClocksBit vessel (bitCalls vessel bit) (some bit)
  | broken {calls : List Call} (h : Breaks vessel calls) : ClocksBit vessel calls none

theorem shiftBit_record (vessel : Vessel) (b : β) (past : List Call) :
    ∃ calls, shiftBit vessel (⟨b, past⟩ : RecordedBoard β) =
        ((shiftBit vessel b).1, ⟨(shiftBit vessel b).2, past ++ calls⟩) ∧
      ClocksBit vessel calls (shiftBit vessel b).1 := by
  have hbroken (before : List Call) (last : Call) (hbefore : Sound vessel before)
      (hlast : last.Shifts vessel) (hfailed : last.failed = true) :
      ClocksBit vessel (before ++ [last]) none := .broken (.after hbefore hlast hfailed)
  have hlow : Sound vessel [.write (.clock vessel) false true] := by
    simp [Sound, Call.Shifts, Call.failed]
  rw [shiftBit, shiftBit, write_eq]
  rcases Board.write (.clock vessel) false b with ⟨_ | _, b₁⟩
  · exact ⟨_, rfl, hbroken [] _ (List.forall_mem_nil _) rfl rfl⟩
  simp only [halfPeriod_eq, read_eq]
  rcases Board.read (.data vessel) (halfPeriod vessel b₁) with ⟨_ | bit, b₂⟩
  · refine ⟨[.write (.clock vessel) false true] ++ [.read (.data vessel) none], ?_,
      hbroken _ (.read (.data vessel) none) hlow rfl rfl⟩
    simp only [List.append_assoc]
  simp only [write_eq]
  have hsampled : Sound vessel
      [.write (.clock vessel) false true, .read (.data vessel) (some bit)] := by
    simp [Sound, Call.Shifts, Call.failed]
  rcases Board.write (.clock vessel) true b₂ with ⟨_ | _, b₃⟩
  · refine ⟨_ ++ [.write (.clock vessel) true false], ?_,
      hbroken _ (.write (.clock vessel) true false) hsampled rfl rfl⟩
    simp only [List.append_assoc, List.cons_append, List.nil_append]
  · refine ⟨bitCalls vessel bit, ?_, .whole bit⟩
    simp only [List.append_assoc]
    rfl

def push (frame : UInt16) (bit : Bool) : UInt16 :=
  frame <<< 1 ||| if bit then 1 else 0

/-- How it goes to clock some bits out behind the ones in a frame. -/
inductive ClocksBits (vessel : Vessel) (frame : UInt16) (count : Nat) : List Call → Option UInt16 → Prop where
  | whole (bits : List Bool) (hlength : bits.length = count) :
      ClocksBits vessel frame count (bits.flatMap (bitCalls vessel)) (some (bits.foldl push frame))
  | broken {calls : List Call} (h : Breaks vessel calls) : ClocksBits vessel frame count calls none

theorem shiftIn_record (vessel : Vessel) (count : Nat) (frame : UInt16) (b : β) (past : List Call) :
    ∃ calls, shiftIn vessel count frame (⟨b, past⟩ : RecordedBoard β) =
        ((shiftIn vessel count frame b).1, ⟨(shiftIn vessel count frame b).2, past ++ calls⟩) ∧
      ClocksBits vessel frame count calls (shiftIn vessel count frame b).1 := by
  induction count generalizing frame b past with
  | zero => exact ⟨[], by rw [List.append_nil]; rfl, .whole [] rfl⟩
  | succ count ih =>
      obtain ⟨calls, hbit, hclocks⟩ := shiftBit_record vessel b past
      rw [shiftIn, shiftIn, hbit]
      rcases hshift : shiftBit vessel b with ⟨_ | bit, b'⟩ <;> rw [hshift] at hclocks
      · cases hclocks with
        | broken hbreaks => exact ⟨calls, rfl, .broken hbreaks⟩
      · cases hclocks with
        | whole =>
            obtain ⟨rest, hrest, hbits⟩ := ih (push frame bit) b' (past ++ bitCalls vessel bit)
            refine ⟨bitCalls vessel bit ++ rest, ?_, ?_⟩
            · rw [List.append_assoc] at hrest
              exact hrest
            · change ClocksBits vessel frame (count + 1) _ (shiftIn vessel count (push frame bit) b').1
              generalize (shiftIn vessel count (push frame bit) b').1 = shifted at hbits ⊢
              cases hbits with
              | whole bits hlength => exact .whole (bit :: bits) (congrArg (· + 1) hlength)
              | broken hbreaks => exact .broken (hbreaks.append (sound_bitCalls vessel bit))

/-! ### Bits of a frame -/

theorem testBit_push (frame : UInt16) (bit : Bool) {k : Nat} (hk : k < 16) :
    (push frame bit).toNat.testBit k = if k = 0 then bit else frame.toNat.testBit (k - 1) := by
  have hbit : (if bit then (1 : UInt16) else 0).toNat = bit.toNat := by cases bit <;> rfl
  have hshift : (1 : UInt16).toNat % 16 = 1 := rfl
  rw [push, UInt16.toNat_or, UInt16.toNat_shiftLeft, hbit, hshift, Nat.testBit_or, Nat.testBit_mod_two_pow,
    Nat.testBit_shiftLeft]
  cases k with
  | zero => cases bit <;> simp
  | succ k => cases bit <;> simp [hk, Nat.testBit_succ]

/-- The bit that was clocked out last is the lowest one. -/
theorem getElem?_reverse_of_frame (bits : List Bool) {k : Nat} (hk : k < 16) (hlength : k < bits.length) :
    bits.reverse[k]? = some ((bits.foldl push 0).toNat.testBit k) := by
  induction bits using List.reverseRecOn generalizing k with
  | nil => exact absurd hlength (Nat.not_lt_zero k)
  | append_singleton earlier bit ih =>
      rw [List.foldl_append, List.foldl_cons, List.foldl_nil, testBit_push _ _ hk, List.reverse_concat]
      cases k with
      | zero => rfl
      | succ k =>
          rw [List.length_append] at hlength
          exact ih (Nat.lt_of_succ_lt hk) (Nat.lt_of_succ_lt_succ hlength)

/-! ### Frames -/

/-- How it goes to read a frame. -/
inductive ReadsFrame (vessel : Vessel) : List Call → Except SensorFault UInt16 → Prop where
  /-- The converter could not be selected. -/
  | refused : ReadsFrame vessel [.write (.select vessel) false false] (.error (.unreadable vessel))
  /-- A call on the clock or the data failed. -/
  | broken {calls : List Call} (h : Breaks vessel calls) (released : Bool) :
      ReadsFrame vessel
        (.write (.select vessel) false true :: calls ++ [.write (.select vessel) true released])
        (.error (.unreadable vessel))
  /-- All bits are there, but the converter could not be released. -/
  | held (bits : List Bool) :
      ReadsFrame vessel
        (.write (.select vessel) false true :: bits.flatMap (bitCalls vessel) ++
          [.write (.select vessel) true false])
        (.error (.unreadable vessel))
  | whole (bits : List Bool) (hlength : bits.length = 16) :
      ReadsFrame vessel
        (.write (.select vessel) false true :: bits.flatMap (bitCalls vessel) ++
          [.write (.select vessel) true true])
        (.ok (bits.foldl push 0))

theorem readFrame_record (vessel : Vessel) (b : β) :
    ∃ calls, readFrame vessel (⟨b, []⟩ : RecordedBoard β) =
        ((readFrame vessel b).1, ⟨(readFrame vessel b).2, calls⟩) ∧
      ReadsFrame vessel calls (readFrame vessel b).1 := by
  rw [readFrame, readFrame, write_eq]
  rcases Board.write (.select vessel) false b with ⟨_ | _, b₁⟩
  · exact ⟨_, rfl, .refused⟩
  obtain ⟨calls, hshift, hbits⟩ :=
    shiftIn_record vessel 16 0 (halfPeriod vessel b₁) [.write (.select vessel) false true]
  simp only [List.nil_append, halfPeriod_eq, hshift, write_eq]
  rcases hresult : shiftIn vessel 16 0 (halfPeriod vessel b₁) with ⟨shifted, b₂⟩
  rw [hresult] at hbits
  rcases Board.write (.select vessel) true b₂ with ⟨released, b₃⟩
  dsimp only at hbits ⊢
  cases hbits with
  | whole bits hlength =>
    cases released
    · exact ⟨_, rfl, .held bits⟩
    · exact ⟨_, rfl, .whole bits hlength⟩
  | broken hbreaks => exact ⟨_, rfl, .broken hbreaks released⟩

variable {vessel : Vessel} {calls : List Call} {result : Except SensorFault UInt16}

theorem Breaks.shifts (h : Breaks vessel calls) : ∀ call ∈ calls, call.Shifts vessel := by
  cases h with
  | after hbefore hlast hfailed =>
      exact List.forall_mem_append.mpr
        ⟨fun call hcall => (hbefore call hcall).1, List.forall_mem_singleton.mpr hlast⟩

theorem Breaks.exists_failed (h : Breaks vessel calls) : ∃ call ∈ calls, call.failed = true := by
  cases h with
  | after hbefore hlast hfailed => exact ⟨_, List.mem_concat_self, hfailed⟩

/-- A converter that could not be selected is left alone, and one that was is shifted and released. -/
theorem ReadsFrame.released (h : ReadsFrame vessel calls result) :
    calls = [.write (.select vessel) false false] ∨
      ∃ shifting released, calls = .write (.select vessel) false true :: shifting ++
          [.write (.select vessel) true released] ∧ ∀ call ∈ shifting, call.Shifts vessel := by
  have hbits (bits : List Bool) : ∀ call ∈ bits.flatMap (bitCalls vessel), call.Shifts vessel :=
    fun call hcall => (sound_bits vessel bits call hcall).1
  cases h with
  | refused => exact Or.inl rfl
  | broken hbreaks released => exact Or.inr ⟨_, released, rfl, hbreaks.shifts⟩
  | held bits => exact Or.inr ⟨_, false, rfl, hbits bits⟩
  | whole bits hlength => exact Or.inr ⟨_, true, rfl, hbits bits⟩

theorem ReadsFrame.bits_of_ok {frame : UInt16} (h : ReadsFrame vessel calls (.ok frame)) :
    ∃ bits : List Bool, bits.length = 16 ∧ calls = .write (.select vessel) false true ::
        bits.flatMap (bitCalls vessel) ++ [.write (.select vessel) true true] ∧
      ∀ i < 16, bits[i]? = some (frame.toNat.testBit (15 - i)) := by
  cases h with
  | whole bits hlength =>
      refine ⟨bits, hlength, rfl, fun i hi => ?_⟩
      rw [← getElem?_reverse_of_frame bits (by omega) (by omega), List.getElem?_reverse (by omega)]
      congr 1
      omega

theorem ReadsFrame.fault_eq {fault : SensorFault} (h : ReadsFrame vessel calls (.error fault)) :
    fault = .unreadable vessel := by
  cases h <;> rfl

theorem ReadsFrame.ok_iff (h : ReadsFrame vessel calls result) :
    (∃ frame, result = .ok frame) ↔ ∀ call ∈ calls, call.failed = false := by
  have hnone {call : Call} {fault : SensorFault} (hmem : call ∈ calls) (hfailed : call.failed = true) :
      (∃ frame, (.error fault : Except SensorFault UInt16) = .ok frame) ↔
        ∀ call ∈ calls, call.failed = false := by
    constructor
    · rintro ⟨frame, herror⟩
      cases herror
    · intro hall
      rw [hall call hmem] at hfailed
      cases hfailed
  cases h with
  | refused => exact hnone List.mem_cons_self rfl
  | broken hbreaks released =>
      obtain ⟨call, hmem, hfailed⟩ := hbreaks.exists_failed
      exact hnone (by simp [hmem]) hfailed
  | held bits => exact hnone List.mem_concat_self rfl
  | whole bits hlength =>
      refine ⟨fun _ => ?_, fun _ => ⟨_, rfl⟩⟩
      have hbits : ∀ call ∈ bits.flatMap (bitCalls vessel), call.failed = false :=
        fun call hcall => (sound_bits vessel bits call hcall).2
      exact List.forall_mem_append.mpr
        ⟨List.forall_mem_cons.mpr ⟨rfl, hbits⟩, List.forall_mem_singleton.mpr rfl⟩

/-- What comes after a call that failed comes after the calls that took effect, and one more. -/
theorem mem_tail_of_split {good tail earlier later : List Call} {call : Call}
    (hgood : ∀ call ∈ good, call.failed = false) (hfailed : call.failed = true)
    (hsplit : good ++ tail = earlier ++ call :: later) : ∀ after ∈ later, after ∈ tail.tail := by
  rcases append_eq_append_cons_iff.mp hsplit with ⟨between, rfl, -⟩ | ⟨between, -, rfl⟩
  · rw [hgood call (by simp)] at hfailed
    cases hfailed
  · intro after hafter
    cases between <;> simp [hafter]

/-- Nothing is shifted after a call that failed. -/
theorem ReadsFrame.stops (h : ReadsFrame vessel calls result) {earlier later : List Call} {call : Call}
    (hsplit : calls = earlier ++ call :: later) (hfailed : call.failed = true) :
    ∀ after ∈ later, ¬after.Shifts vessel := by
  have hselected {shifting : List Call} (hsound : Sound vessel shifting) :
      ∀ call ∈ Call.write (.select vessel) false true :: shifting, call.failed = false :=
    List.forall_mem_cons.mpr ⟨rfl, fun call hcall => (hsound call hcall).2⟩
  intro after hafter
  cases h with
  | refused =>
      cases mem_tail_of_split (List.forall_mem_nil _) hfailed hsplit after hafter
  | broken hbreaks released =>
      cases hbreaks with
      | @after before last hbefore hlast hlastFailed =>
          rw [← List.cons_append, List.append_assoc] at hsplit
          have hrelease := mem_tail_of_split (hselected hbefore) hfailed hsplit after hafter
          rw [List.mem_singleton.mp hrelease]
          simp [Call.Shifts]
  | held bits =>
      cases mem_tail_of_split (hselected (sound_bits vessel bits)) hfailed hsplit after hafter
  | whole bits hlength =>
      cases mem_tail_of_split (hselected (sound_bits vessel bits)) hfailed hsplit after hafter

/-- Whatever the pins do, a converter that could not be selected is left alone, and one that was is released
in the last call of all, with nothing but calls on its clock and its data before that. There is a frame if
and only if every call took effect. Then there were sixteen samples, each between a low and a high clock,
and they are the bits of the frame from the highest one down. Otherwise the converter counts as
unreadable, and nothing was shifted after the first call that failed. -/
theorem frame_whole_or_released (vessel : Vessel) (b : β) :
    let reading := readFrame vessel (⟨b, []⟩ : RecordedBoard β)
    let calls := reading.2.calls
    reading.1 = (readFrame vessel b).1 ∧ reading.2.board = (readFrame vessel b).2 ∧
    (calls = [.write (.select vessel) false false] ∨
      ∃ shifting released, calls = .write (.select vessel) false true :: shifting ++
          [.write (.select vessel) true released] ∧ ∀ call ∈ shifting, call.Shifts vessel) ∧
    ((∃ frame, reading.1 = .ok frame) ↔ ∀ call ∈ calls, call.failed = false) ∧
    (∀ frame, reading.1 = .ok frame →
      ∃ bits : List Bool, bits.length = 16 ∧ calls = .write (.select vessel) false true ::
          bits.flatMap (bitCalls vessel) ++ [.write (.select vessel) true true] ∧
        ∀ i < 16, bits[i]? = some (frame.toNat.testBit (15 - i))) ∧
    (∀ fault, reading.1 = .error fault → fault = .unreadable vessel) ∧
    ∀ earlier call later, calls = earlier ++ call :: later → call.failed = true →
      ∀ after ∈ later, ¬after.Shifts vessel := by
  obtain ⟨calls, hrecord, hreads⟩ := readFrame_record vessel b
  intro reading recorded
  have hresult : reading.1 = (readFrame vessel b).1 := congrArg Prod.fst hrecord
  obtain rfl : recorded = calls := congrArg (fun r => r.2.calls) hrecord
  rw [← hresult] at hreads
  refine ⟨hresult, congrArg (fun r => r.2.board) hrecord, hreads.released, hreads.ok_iff,
    fun frame hframe => ?_, fun fault hfault => ?_, fun _ _ _ hsplit hfailed => hreads.stops hsplit hfailed⟩
  · rw [hframe] at hreads
    exact hreads.bits_of_ok
  · rw [hfault] at hreads
    exact hreads.fault_eq

/-- A frame of 65 °C is read whole. When the second sample fails there is no frame, and all that comes after
the sample is the release. -/
theorem frame_whole_or_released_of_sample :
    let pins : Bench.Pins := { Bench.Pins.idle with frame := fun _ => 2080 }
    let broken : Bench.Pins := { pins with failAfter := some 5 }
    let reading := readFrame .hotLiquor (⟨pins, []⟩ : RecordedBoard Bench.Pins)
    let failing := readFrame .hotLiquor (⟨broken, []⟩ : RecordedBoard Bench.Pins)
    let before : List Call := .write (.select .hotLiquor) false true :: bitCalls .hotLiquor false ++
      [.write (.clock .hotLiquor) false true]
    let release : Call := .write (.select .hotLiquor) true true
    (reading.1 = .ok 2080 ∧ ∃ bits : List Bool, bits.length = 16 ∧
      ∀ i < 16, bits[i]? = some (Nat.testBit 2080 (15 - i))) ∧
    failing.2.calls = before ++ .read (.data .hotLiquor) none :: [release] ∧
      failing.1 = .error (.unreadable .hotLiquor) ∧ ¬release.Shifts .hotLiquor := by
  intro pins broken reading failing before release
  have hframe : reading.1 = .ok 2080 := by decide +kernel
  have hcalls : failing.2.calls = before ++ .read (.data .hotLiquor) none :: [release] := by
    decide +kernel
  obtain ⟨-, -, -, -, hbits, -⟩ := frame_whole_or_released .hotLiquor pins
  obtain ⟨-, -, -, hok, -, hfault, hstops⟩ := frame_whole_or_released .hotLiquor broken
  obtain ⟨bits, hlength, -, hbit⟩ := hbits 2080 hframe
  refine ⟨⟨hframe, bits, hlength, hbit⟩, hcalls, ?_, ?_⟩
  · cases hresult : failing.1 with
    | error fault => rw [hfault fault hresult]
    | ok frame =>
        have hall := hok.mp ⟨frame, hresult⟩ (.read (.data .hotLiquor) none) (by
          change _ ∈ failing.2.calls
          rw [hcalls]
          simp)
        cases hall
  · exact hstops _ _ _ hcalls rfl release (by simp)

end Thermocouple

end Brewhouse
