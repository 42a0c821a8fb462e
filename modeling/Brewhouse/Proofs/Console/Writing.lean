import Brewhouse.Bench.Line
import Brewhouse.Proofs.Place
import Mathlib.Tactic.Common

/-!
Writing on a link that may do anything: take a part of what it is offered, take nothing, or fail. A record
of the calls shows what was taken, which is always a beginning of the line and its end. The first write
that takes nothing or fails is the last call of all, and a flush comes after the last byte only.
-/

namespace Brewhouse

namespace Link

/-- A call that offers bytes or pushes them out, with its answer. -/
inductive Call where
  | write (offer : List UInt8) (answer : Except LinkFault Nat)
  | flush (answer : Except LinkFault Unit)
  deriving DecidableEq

namespace Call

def taken : Call → List UInt8
  | .write offer (.ok count) => offer.take count
  | _ => []

def isWrite : Call → Bool
  | .write .. => true
  | .flush _ => false

/-- A write that took some of its offer. -/
def Advances : Call → Prop
  | .write offer (.ok count) => 0 < count ∧ count ≤ offer.length
  | _ => False

/-- What a call makes of the writing if nothing comes after it. -/
def outcome : Call → Except LinkFault Unit
  | .write _ (.ok 0) => .error .closed
  | .write _ (.ok _) => .ok ()
  | .write _ (.error fault) => .error fault
  | .flush answer => answer

theorem Advances.length_taken {call : Call} (h : call.Advances) : 0 < call.taken.length := by
  match call, h with
  | .write offer (.ok count), ⟨hpos, hle⟩ =>
      rw [taken, List.length_take]
      omega

end Call

def takenBy (calls : List Call) : List UInt8 :=
  calls.flatMap Call.taken

@[simp]
theorem takenBy_append (some more : List Call) : takenBy (some ++ more) = takenBy some ++ takenBy more :=
  List.flatMap_append

def Steady (calls : List Call) : Prop :=
  ∀ call ∈ calls, call.Advances

theorem Steady.append {some more : List Call} (h : Steady some) (h' : Steady more) :
    Steady (some ++ more) :=
  List.forall_mem_append.mpr ⟨h, h'⟩

/-- Each of these calls took a byte at least. -/
theorem Steady.length_le {calls : List Call} (h : Steady calls) :
    calls.length ≤ (takenBy calls).length := by
  induction calls with
  | nil => exact Nat.le_refl 0
  | cons call rest ih =>
      obtain ⟨hcall, hrest⟩ := List.forall_mem_cons.mp h
      have hfirst := hcall.length_taken
      have hlater := ih hrest
      rw [takenBy, List.flatMap_cons, List.length_append, List.length_cons, ← takenBy]
      omega

/-- How it goes to write some bytes: all of them are taken, or there are some left when a write takes
nothing or fails. -/
inductive Writes (data : List UInt8) : List Call → Except LinkFault Unit → Prop where
  | whole {calls : List Call} (hsteady : Steady calls) (htaken : takenBy calls = data) :
      Writes data calls (.ok ())
  | stopped {calls : List Call} {last : Call} {rest : List UInt8} {fault : LinkFault}
      (hsteady : Steady calls) (htaken : takenBy calls ++ rest = data) (hrest : rest ≠ [])
      (hlast : last.isWrite = true) (hfault : last.outcome = .error fault) :
      Writes data (calls ++ [last]) (.error fault)

/-- Nothing was taken in the first write. -/
theorem Writes.refused {data : List UInt8} {last : Call} {fault : LinkFault} (hdata : data ≠ [])
    (hlast : last.isWrite = true) (hfault : last.outcome = .error fault) :
    Writes data [last] (.error fault) := by
  have hnone : Writes data ([] ++ [last]) (.error fault) :=
    .stopped (List.forall_mem_nil _) (List.nil_append data) hdata hlast hfault
  exact hnone

/-- What is to be written after bytes that were all taken is written where these end. -/
theorem Writes.append {first second : List UInt8} {calls calls' : List Call}
    {result : Except LinkFault Unit} (hsteady : Steady calls) (htaken : takenBy calls = first)
    (h : Writes second calls' result) : Writes (first ++ second) (calls ++ calls') result := by
  subst htaken
  cases h with
  | whole hsteady' htaken' =>
      exact .whole (hsteady.append hsteady') (by rw [takenBy_append, htaken'])
  | stopped hsteady' htaken' hrest hlast hfault =>
      rw [← List.append_assoc]
      exact .stopped (hsteady.append hsteady') (by rw [takenBy_append, List.append_assoc, htaken'])
        hrest hlast hfault

/-- Bytes that come after a fault are not written. -/
theorem Writes.extend {data : List UInt8} {calls : List Call} {fault : LinkFault}
    (h : Writes data calls (.error fault)) (more : List UInt8) :
    Writes (data ++ more) calls (.error fault) := by
  cases h with
  | @stopped before last rest _ hsteady htaken hrest hlast hfault =>
      have hleft : takenBy before ++ (rest ++ more) = data ++ more := by
        rw [← List.append_assoc, htaken]
      exact .stopped hsteady hleft (List.append_ne_nil_of_left_ne_nil hrest more) hlast hfault

/-- How it goes to write a line: every call advanced but the last one, which is a flush after all bytes, or
a write before that took nothing or failed. -/
structure EndsIn (whole : List UInt8) (before : List Call) (last : Call) : Prop where
  steady : Steady before
  taken : takenBy before <+: whole
  stuck : ¬last.Advances
  nothing : last.taken = []
  write : last.isWrite = true → takenBy before ≠ whole ∧ last.outcome ≠ .ok ()
  flush : last.isWrite = false → takenBy before = whole

theorem Writes.endsIn_flush {whole : List UInt8} {calls : List Call} (h : Writes whole calls (.ok ()))
    (answer : Except LinkFault Unit) : EndsIn whole calls (.flush answer) := by
  cases h with
  | whole hsteady htaken =>
      refine ⟨hsteady, htaken ▸ List.prefix_rfl, id, rfl, fun hwrite => ?_, fun _ => htaken⟩
      cases hwrite

theorem Writes.endsIn_fault {whole : List UInt8} {calls : List Call} {fault : LinkFault}
    (h : Writes whole calls (.error fault)) :
    ∃ before last, calls = before ++ [last] ∧ last.outcome = .error fault ∧ EndsIn whole before last := by
  cases h with
  | @stopped before last rest _ hsteady htaken hrest hlast hfault =>
      have hshort : takenBy before ≠ whole := by
        rintro rfl
        exact hrest (List.append_right_eq_self.mp htaken)
      refine ⟨before, last, rfl, hfault, hsteady, ⟨rest, htaken⟩, ?_, ?_, fun _ => ⟨hshort, ?_⟩,
        fun hflush => ?_⟩
      · intro hadvances
        match last, hadvances, hfault with
        | .write offer (.ok (count + 1)), _, hfault => cases hfault
      · match last, hfault with
        | .write offer (.ok 0), _ => rfl
        | .write offer (.error _), _ => rfl
        | .flush _, _ => rfl
      · rw [hfault]
        exact fun hok => by cases hok
      · rw [hlast] at hflush
        cases hflush

/-- Nothing comes after a call that did not advance. -/
theorem EndsIn.last_of_split {whole : List UInt8} {before earlier later : List Call} {last call : Call}
    (h : EndsIn whole before last) (hcall : ¬call.Advances)
    (hsplit : before ++ [last] = earlier ++ call :: later) :
    earlier = before ∧ call = last ∧ later = [] := by
  rcases concat_eq_append_cons_iff.mp hsplit with ⟨hbefore, hlast, hlater⟩ | ⟨between, rfl, -⟩
  · exact ⟨hbefore.symm, hlast.symm, hlater⟩
  · exact absurd (h.steady call (by simp)) hcall

/-- There are no more writes than bytes: the last one, if it took nothing, was made for bytes that are left. -/
theorem EndsIn.countP_isWrite {whole : List UInt8} {before : List Call} {last : Call}
    (h : EndsIn whole before last) : (before ++ [last]).countP Call.isWrite ≤ whole.length := by
  have hbefore : before.countP Call.isWrite ≤ (takenBy before).length :=
    Nat.le_trans List.countP_le_length h.steady.length_le
  have hwhole : (takenBy before).length ≤ whole.length := h.taken.length_le
  rw [List.countP_append, List.countP_singleton]
  cases hwrite : last.isWrite with
  | false => exact Nat.le_trans hbefore hwhole
  | true =>
      have hshort : (takenBy before).length ≠ whole.length := fun hlength =>
        (h.write hwrite).1 (h.taken.eq_of_length hlength)
      rw [if_pos rfl]
      omega

def Modest (σ : Type) [Link σ] : Prop :=
  ∀ (data : List UInt8) (l : σ) taken l', Link.write data l = (.ok taken, l') → taken ≤ data.length

end Link

/-- A link with a record of the calls that offer bytes or push them out. -/
structure RecordedLink (σ : Type) where
  link : σ
  /-- The calls so far, in order. -/
  calls : List Link.Call

namespace RecordedLink

open Link

variable {σ : Type} [Link σ]

instance : Link (RecordedLink σ) where
  read size r := ((Link.read size r.link).1, { r with link := (Link.read size r.link).2 })
  write data r :=
    ((Link.write data r.link).1,
      ⟨(Link.write data r.link).2, r.calls ++ [.write data (Link.write data r.link).1]⟩)
  flush r := ((Link.flush r.link).1, ⟨(Link.flush r.link).2, r.calls ++ [.flush (Link.flush r.link).1]⟩)

/-- Keeping a record changes nothing, and the record shows how the writing went. -/
theorem writeAll_record (hmodest : Modest σ) (data : List UInt8) (l : σ) (past : List Call) :
    ∃ calls, writeAll data (⟨l, past⟩ : RecordedLink σ) =
        ((writeAll data l).1, ⟨(writeAll data l).2, past ++ calls⟩) ∧
      Writes data calls (writeAll data l).1 := by
  have hrecord : Link.write data (⟨l, past⟩ : RecordedLink σ) = ((Link.write data l).1,
    ⟨(Link.write data l).2, past ++ [.write data (Link.write data l).1]⟩) := rfl
  induction data, l using writeAll.induct generalizing past with
  | case1 data l hempty =>
      rw [List.isEmpty_iff] at hempty
      subst hempty
      refine ⟨[], ?_, ?_⟩
      · rw [writeAll, writeAll, List.append_nil]
        rfl
      · rw [writeAll]
        exact .whole (List.forall_mem_nil _) rfl
  | case2 data l hsome fault l' hwrite =>
      rw [hwrite] at hrecord
      have hleft : data ≠ [] := by simpa using hsome
      have hplain : writeAll data l = (.error fault, l') := by rw [writeAll, if_neg hsome, hwrite]
      refine ⟨[.write data (.error fault)], ?_, ?_⟩
      · rw [writeAll, if_neg hsome, hrecord, hplain]
      · rw [hplain]
        exact .refused hleft rfl rfl
  | case3 data l hsome l' hwrite =>
      rw [hwrite] at hrecord
      have hleft : data ≠ [] := by simpa using hsome
      have hplain : writeAll data l = (.error .closed, l') := by rw [writeAll, if_neg hsome, hwrite]
      refine ⟨[.write data (.ok 0)], ?_, ?_⟩
      · rw [writeAll, if_neg hsome, hrecord, hplain]
      · rw [hplain]
        exact .refused hleft rfl rfl
  | case4 data l hsome taken l' hwrite ih =>
      rw [hwrite] at hrecord
      have hplain : writeAll data l = writeAll (data.drop (taken + 1)) l' := by
        rw [writeAll, if_neg hsome, hwrite]
      obtain ⟨calls, hrest, hwrites⟩ := ih (past ++ [.write data (.ok (taken + 1))]) rfl
      have hadvances : Steady [.write data (.ok (taken + 1))] :=
        List.forall_mem_singleton.mpr ⟨Nat.succ_pos taken, hmodest data l _ l' hwrite⟩
      have hall := hwrites.append hadvances (List.flatMap_singleton ..)
      rw [Call.taken, List.take_append_drop] at hall
      refine ⟨.write data (.ok (taken + 1)) :: calls, ?_, ?_⟩
      · rw [writeAll, if_neg hsome, hrecord, hplain]
        rw [List.append_assoc] at hrest
        exact hrest
      · rw [hplain]
        exact hall

theorem writeLine_record (hmodest : Modest σ) (line : List UInt8) (l : σ) :
    ∃ before last, writeLine line (⟨l, []⟩ : RecordedLink σ) =
        ((writeLine line l).1, ⟨(writeLine line l).2, before ++ [last]⟩) ∧
      last.outcome = (writeLine line l).1 ∧ EndsIn (line ++ lineEnd) before last := by
  obtain ⟨calls, hline, hwrites⟩ := writeAll_record hmodest line l []
  rw [List.nil_append] at hline
  rcases hplain : writeAll line l with ⟨fault | ⟨⟩, l₁⟩ <;> rw [hplain] at hline hwrites
  · have hwhole : Writes (line ++ lineEnd) calls (.error fault) := hwrites.extend lineEnd
    obtain ⟨before, last, rfl, hlast, hends⟩ := hwhole.endsIn_fault
    simp only [writeLine, hline, hplain]
    exact ⟨before, last, rfl, hlast, hends⟩
  cases hwrites with
  | whole hsteady htaken =>
      obtain ⟨calls', hend, hwrites'⟩ := writeAll_record hmodest lineEnd l₁ calls
      have hwhole := hwrites'.append hsteady htaken
      rcases hplain' : writeAll lineEnd l₁ with ⟨fault | ⟨⟩, l₂⟩ <;> rw [hplain'] at hend hwhole
      · obtain ⟨before, last, hcalls, hlast, hends⟩ := hwhole.endsIn_fault
        rw [hcalls] at hend
        simp only [writeLine, hline, hend, hplain, hplain']
        exact ⟨before, last, rfl, hlast, hends⟩
      · simp only [writeLine, hline, hend, hplain, hplain']
        exact ⟨_, .flush (Link.flush l₂).1, rfl, rfl, hwhole.endsIn_flush _⟩

end RecordedLink

namespace Link

variable {σ : Type} [Link σ]

/-- However the link takes what it is offered, what it has taken is at all times a beginning of the line
with its end. The line is written if and only if all of that was taken and the flush succeeded. The first
write that takes nothing or fails is the last call, and tells why; a flush is the last call too, after all
bytes were taken. There are no more writes than bytes. -/
theorem line_taken_once (hmodest : Modest σ) (line : List UInt8) (l : σ) :
    let written := writeLine line (⟨l, []⟩ : RecordedLink σ)
    let calls := written.2.calls
    let whole := line ++ lineEnd
    written.1 = (writeLine line l).1 ∧ written.2.link = (writeLine line l).2 ∧
    (∀ earlier, earlier <+: calls → takenBy earlier <+: whole) ∧
    (written.1 = .ok () ↔ takenBy calls = whole ∧ .flush (.ok ()) ∈ calls) ∧
    (∀ earlier offer later, calls = earlier ++ .write offer (.ok 0) :: later →
      written.1 = .error .closed ∧ later = []) ∧
    (∀ earlier offer fault later, calls = earlier ++ .write offer (.error fault) :: later →
      written.1 = .error fault ∧ later = []) ∧
    (∀ earlier answer later, calls = earlier ++ .flush answer :: later →
      takenBy earlier = whole ∧ written.1 = answer ∧ later = []) ∧
    calls.countP Call.isWrite ≤ whole.length := by
  obtain ⟨before, last, hrecord, hlast, hends⟩ := RecordedLink.writeLine_record hmodest line l
  intro written calls whole
  have hcalls : calls = before ++ [last] := congrArg (fun r => r.2.calls) hrecord
  have hresult : written.1 = last.outcome := (congrArg Prod.fst hrecord).trans hlast.symm
  have htaken : takenBy calls = takenBy before := by
    rw [hcalls, takenBy_append, takenBy, takenBy, List.flatMap_singleton, hends.nothing, List.append_nil]
  have hfinal {earlier later : List Call} {call : Call} (hcall : ¬call.Advances)
      (hsplit : calls = earlier ++ call :: later) :
      earlier = before ∧ written.1 = call.outcome ∧ later = [] := by
    obtain ⟨rfl, rfl, rfl⟩ := hends.last_of_split hcall (hcalls.symm.trans hsplit)
    exact ⟨rfl, hresult, rfl⟩
  refine ⟨congrArg Prod.fst hrecord, congrArg (fun r => r.2.link) hrecord, ?_, ?_, ?_, ?_, ?_, ?_⟩
  · rintro earlier ⟨later, hlater⟩
    refine List.IsPrefix.trans ⟨takenBy later, ?_⟩ hends.taken
    rw [← takenBy_append, hlater, htaken]
  · constructor
    · intro hok
      rw [hresult] at hok
      have hflush : last.isWrite = false := Bool.eq_false_iff.mpr fun hwrite => (hends.write hwrite).2 hok
      refine ⟨htaken.trans (hends.flush hflush), ?_⟩
      rw [hcalls]
      match last, hflush, hok with
      | .flush _, _, rfl => exact List.mem_concat_self
    · rintro ⟨-, hflushed⟩
      obtain ⟨earlier, later, hsplit⟩ := List.append_of_mem hflushed
      exact (hfinal id hsplit).2.1
  · intro earlier offer later hsplit
    exact (hfinal (by simp [Call.Advances]) hsplit).2
  · intro earlier offer fault later hsplit
    exact (hfinal id hsplit).2
  · intro earlier answer later hsplit
    obtain ⟨rfl, hanswer, hlater⟩ := hfinal id hsplit
    obtain ⟨-, rfl, -⟩ := hends.last_of_split id (hcalls.symm.trans hsplit)
    exact ⟨hends.flush rfl, hanswer, hlater⟩
  · rw [hcalls]
    exact hends.countP_isWrite

theorem modest_line : Modest Bench.Line := by
  intro data l taken l' hwrite
  simp only [Link.write, Bench.Line.write] at hwrite
  split at hwrite
  · cases hwrite
  · cases hwrite
    exact List.length_take_le' _ _

/-- All bytes are taken one by one, and then the flush fails: the line counts as not written. -/
theorem line_taken_once_of_failed_flush :
    let l : Bench.Line := { Bench.Line.idle with writeLimit := some 1, flushFaults := 1 }
    let written := writeLine [79, 75] (⟨l, []⟩ : RecordedLink Bench.Line)
    let writes : List Call :=
      [.write [79, 75] (.ok 1), .write [75] (.ok 1), .write [13, 10] (.ok 1), .write [10] (.ok 1)]
    Modest Bench.Line ∧ written.2.calls = writes ++ [.flush (.error .writeFailed)] ∧
      takenBy writes = [79, 75, 13, 10] ∧ written.1 = .error .writeFailed := by
  intro l written writes
  have hcalls : written.2.calls = writes ++ [.flush (.error .writeFailed)] := by decide +kernel
  obtain ⟨-, -, -, -, -, -, hflush, -⟩ := line_taken_once modest_line [79, 75] l
  obtain ⟨htaken, hresult, -⟩ := hflush writes _ [] hcalls
  exact ⟨modest_line, hcalls, htaken, hresult⟩

end Link

end Brewhouse
