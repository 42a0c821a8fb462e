import Brewhouse.Proofs.Upload.Dialogue

/-!
The language of the loader. The bytes that lie behind a loader can be read off its stage, so bytes
that bring a script are the encoding of a program; and the encoding of an acceptable program brings
its script with the last byte.
-/

namespace Brewhouse.Upload

/-! ### Encodings -/

namespace Program

/-- The bytes of a program up to its end, with the count that was announced. -/
def lead (p : Program) (count : Nat) : List UInt8 :=
  openingTag.bytes ++ ((phaseTag p.phase).bytes ++ (Exact.Word.bytes p.mashWater ++
    (Exact.Word.bytes (UInt32.ofNat count) ++ (p.setpoints.flatMap Setpoint.fields).flatten)))

theorem encode_eq (p : Program) : p.encode = p.lead p.setpoints.length ++ Tag.ending.bytes := by
  rw [encode, fields_eq, lead]
  simp only [List.cons_append, List.nil_append, List.flatten_cons, List.flatten_append,
    List.flatten_nil, List.append_nil, List.append_assoc]

/-- One more setpoint. -/
theorem lead_append (p : Program) (count : Nat) (s : Setpoint) :
    lead { p with setpoints := p.setpoints ++ [s] } count =
      p.lead count ++ Exact.Word.bytes s.pattern ++ Exact.Word.bytes s.duration := by
  simp only [lead, List.flatMap_append, List.flatMap_singleton, List.flatten_append,
    Setpoint.fields, List.flatten_cons, List.flatten_nil, List.append_nil, List.append_assoc]

theorem length_flatten_fields (setpoints : List Setpoint) :
    (setpoints.flatMap Setpoint.fields).flatten.length = 8 * setpoints.length := by
  induction setpoints with
  | nil => rfl
  | cons s rest ih =>
      rw [List.flatMap_cons, List.flatten_append, List.length_append, ih, List.length_cons]
      change 8 + 8 * rest.length = 8 * (rest.length + 1)
      omega

theorem length_encode (p : Program) : p.encode.length = 17 + 8 * p.setpoints.length := by
  rw [encode_eq, lead]
  simp only [List.length_append, length_flatten_fields, Exact.Word.length_bytes]
  change 3 + (3 + (4 + (4 + 8 * p.setpoints.length))) + 3 = 17 + 8 * p.setpoints.length
  omega

theorem setpoints_inj {a b : List Setpoint} (hlength : a.length = b.length)
    (h : (a.flatMap Setpoint.fields).flatten = (b.flatMap Setpoint.fields).flatten) : a = b := by
  induction a generalizing b with
  | nil => exact (List.length_eq_zero_iff.mp hlength.symm).symm
  | cons s rest ih =>
      cases b with
      | nil => cases hlength
      | cons t more =>
          simp only [List.flatMap_cons, List.flatten_append, Setpoint.fields, List.flatten_cons,
            List.flatten_nil, List.append_nil, List.append_assoc] at h
          obtain ⟨hpattern, h⟩ := List.append_inj h rfl
          obtain ⟨hduration, h⟩ := List.append_inj h rfl
          have hsetpoint : s = t := by
            cases s
            cases t
            exact congrArg₂ Setpoint.mk (Exact.Word.bytes_injective hpattern)
              (Exact.Word.bytes_injective hduration)
          rw [hsetpoint, ih (Nat.succ.inj hlength) h]

/-- Different programs have different bytes. -/
theorem encode_injective : Function.Injective encode := by
  intro p q h
  have hlength : p.setpoints.length = q.setpoints.length := by
    have := congrArg List.length h
    rw [length_encode, length_encode] at this
    omega
  rw [encode_eq, encode_eq, hlength] at h
  have hlead := List.append_cancel_right h
  rw [lead, lead] at hlead
  obtain ⟨hphase, hlead⟩ := List.append_inj (List.append_cancel_left hlead) rfl
  obtain ⟨hmash, hlead⟩ := List.append_inj hlead rfl
  have hsetpoints := setpoints_inj hlength (List.append_cancel_left hlead)
  have hphases : p.phase = q.phase := by
    revert hphase
    cases p.phase <;> cases q.phase <;> decide
  cases p
  cases q
  rw [Program.mk.injEq]
  exact ⟨hphases, Exact.Word.bytes_injective hmash, hsetpoints⟩

end Program

/-! ### The bytes behind a stage -/

/-- The stage comes after the given bytes, which begin an acceptable program. -/
inductive Stage.Reached (limits : Limits) : Stage → List UInt8 → Prop
  | opening : Reached limits .opening []
  | phase : Reached limits .phase openingTag.bytes
  | mashWater {phase : Phase} (hphase : phase = .mashing ∨ phase = .sparging) :
      Reached limits (.mashWater phase) (openingTag.bytes ++ (phaseTag phase).bytes)
  | count {phase : Phase} (hphase : phase = .mashing ∨ phase = .sparging)
      (mashWater : Millilitres) :
      Reached limits (.count phase mashWater)
        (openingTag.bytes ++ (phaseTag phase).bytes ++ Exact.Word.bytes mashWater)
  | temperature {received : Program} {remaining : Nat} (hreceived : received.Acceptable limits)
      (hfits : received.setpoints.length + (remaining + 1) ≤ Script.capacity) :
      Reached limits (.temperature received (remaining + 1))
        (received.lead (received.setpoints.length + (remaining + 1)))
  | duration {received : Program} {remaining : Nat} {pattern : UInt32}
      (hreceived : received.Acceptable limits)
      (hfits : received.setpoints.length + (remaining + 1) ≤ Script.capacity)
      (hpattern : limits.contains (Float32.ofBits pattern) = true) :
      Reached limits (.duration received (remaining + 1) pattern)
        (received.lead (received.setpoints.length + (remaining + 1)) ++ Exact.Word.bytes pattern)
  | ending {received : Program} (hreceived : received.Acceptable limits) :
      Reached limits (.ending received) (received.lead received.setpoints.length)

theorem Stage.reached_setpointStage {limits : Limits} {received : Program}
    (hreceived : received.Acceptable limits) (remaining : Nat)
    (hfits : received.setpoints.length + remaining ≤ Script.capacity) :
    (Loader.setpointStage received remaining).Reached limits
      (received.lead (received.setpoints.length + remaining)) := by
  cases remaining with
  | zero => exact .ending hreceived
  | succ remaining => exact .temperature hreceived hfits

namespace Loader

theorem eq_phaseTag_of_phaseOf? {field : List UInt8} {phase : Phase}
    (h : phaseOf? field = some phase) :
    field = (phaseTag phase).bytes ∧ (phase = .mashing ∨ phase = .sparging) := by
  unfold phaseOf? at h
  have hfield := List.find?_some h
  have hphase := List.mem_of_find?_eq_some h
  exact ⟨(beq_iff_eq.mp hfield).symm, by simpa using hphase⟩

/-- A field that is accepted leads on to a stage reached by one field more. -/
theorem complete_reached {l : Loader} {sofar field : List UInt8} {stage : Stage}
    (h : l.stage.Reached l.limits sofar) (hlength : field.length = l.stage.fieldSize)
    (hcomplete : l.complete field = .ok (.inl stage)) :
    stage.Reached l.limits (sofar ++ field) := by
  obtain ⟨limits, model, current, part⟩ := l
  cases h with
  | opening =>
      simp only [complete] at hcomplete
      split at hcomplete
      · next hfield =>
          cases hcomplete
          rw [hfield]
          exact .phase
      · cases hcomplete
  | phase =>
      simp only [complete] at hcomplete
      split at hcomplete
      · cases hcomplete
      · next phase hfound =>
          cases hcomplete
          obtain ⟨hfield, hphase⟩ := eq_phaseTag_of_phaseOf? hfound
          rw [hfield]
          exact .mashWater hphase
  | mashWater hphase =>
      cases hcomplete
      rw [← Exact.Word.bytes_ofBytes hlength, Exact.Word.ofBytes_bytes]
      exact .count hphase _
  | @count phase hphase mashWater =>
      simp only [complete] at hcomplete
      split at hcomplete
      · cases hcomplete
      · next hfits =>
          cases hcomplete
          have hnone : (Program.mk phase mashWater []).Acceptable limits :=
            ⟨hphase, Nat.zero_le _, List.forall_mem_nil _⟩
          have := Stage.reached_setpointStage hnone (Exact.Word.ofBytes field).toNat
            (by simpa using hfits)
          simpa [Program.lead, Exact.Word.bytes_ofBytes hlength] using this
  | temperature hreceived hfits =>
      simp only [complete] at hcomplete
      split at hcomplete
      · next hpattern =>
          cases hcomplete
          have := Stage.Reached.duration hreceived hfits hpattern
          rwa [Exact.Word.bytes_ofBytes hlength] at this
      · cases hcomplete
  | @duration received remaining pattern hreceived hfits hpattern =>
      cases hcomplete
      let s : Setpoint := ⟨pattern, Exact.Word.ofBytes field⟩
      have hcount : (received.setpoints ++ [s]).length + remaining =
          received.setpoints.length + (remaining + 1) := by
        rw [List.length_append, List.length_singleton]
        omega
      have hmore := hreceived.append (s := s) (by omega) hpattern
      have := Stage.reached_setpointStage hmore remaining (hcount.trans_le hfits)
      rwa [hcount, Program.lead_append, Exact.Word.bytes_ofBytes hlength] at this
  | ending =>
      simp only [complete] at hcomplete
      split at hcomplete <;> cases hcomplete

/-- A field that brings a script ends a program. -/
theorem complete_ends {l : Loader} {sofar field : List UInt8} {script : Script}
    (h : l.stage.Reached l.limits sofar) (hcomplete : l.complete field = .ok (.inr script)) :
    ∃ p : Program, p.Acceptable l.limits ∧ sofar ++ field = p.encode := by
  obtain ⟨limits, model, current, part⟩ := l
  cases h with
  | @ending received hreceived =>
      simp only [complete] at hcomplete
      split at hcomplete
      · next hfield => exact ⟨received, hreceived, by rw [hfield, Program.encode_eq]⟩
      · cases hcomplete
  | opening | phase | count | temperature =>
      simp only [complete] at hcomplete
      split at hcomplete <;> cases hcomplete
  | mashWater | duration => cases hcomplete

/-! ### Accepted bytes -/

/-- The loader is in the middle of an acceptable program that begins with the given bytes. -/
def Follows (l : Loader) (bytes : List UInt8) : Prop :=
  ∃ sofar, l.stage.Reached l.limits sofar ∧ l.field.length < l.stage.fieldSize ∧
    sofar ++ l.field = bytes

theorem follows_fresh (limits : Limits) (model : ThermalModel) :
    (fresh limits model).Follows [] :=
  ⟨[], .opening, Stage.fieldSize_pos _, rfl⟩

/-- A byte that completes no field, or one that is accepted. -/
theorem follows_feedByte {l l' : Loader} {bytes : List UInt8} {byte : UInt8}
    {report : Option Progress} (h : l.Follows bytes) (hbyte : l.feedByte byte = (l', report))
    (hreport : ∀ p ∈ report, p = .accepted) :
    l'.Follows (bytes ++ [byte]) ∧ l'.limits = l.limits := by
  obtain ⟨sofar, hreached, hroom, rfl⟩ := h
  by_cases hshort : (l.field ++ [byte]).length < l.stage.fieldSize
  · rw [feedByte_of_short hshort] at hbyte
    cases hbyte
    exact ⟨⟨sofar, hreached, hshort, (List.append_assoc ..).symm⟩, rfl⟩
  · have hlength : (l.field ++ [byte]).length = l.stage.fieldSize := by
      rw [List.length_append, List.length_singleton] at hshort ⊢
      omega
    rw [feedByte_of_full hshort, conclude] at hbyte
    rcases hcomplete : l.complete (l.field ++ [byte]) with fault | stage | script <;>
      simp only [hcomplete] at hbyte <;> cases hbyte
    · cases hreport _ rfl
    · have hnext := complete_reached hreached hlength hcomplete
      refine ⟨⟨_, hnext, stage.fieldSize_pos, ?_⟩, rfl⟩
      rw [List.append_nil, List.append_assoc]
    · cases hreport _ rfl

theorem encode_of_feedByte_done {l l' : Loader} {bytes : List UInt8} {byte : UInt8}
    {script : Script} (h : l.Follows bytes)
    (hbyte : l.feedByte byte = (l', some (.done script))) :
    ∃ p : Program, p.Acceptable l.limits ∧ bytes ++ [byte] = p.encode := by
  obtain ⟨sofar, hreached, hroom, rfl⟩ := h
  by_cases hshort : (l.field ++ [byte]).length < l.stage.fieldSize
  · rw [feedByte_of_short hshort] at hbyte
    cases hbyte
  · rw [feedByte_of_full hshort, conclude] at hbyte
    rcases hcomplete : l.complete (l.field ++ [byte]) with fault | stage | script <;>
      simp only [hcomplete] at hbyte <;> cases hbyte
    rw [List.append_assoc]
    exact complete_ends hreached hcomplete

theorem follows_feed {l : Loader} {sofar bytes : List UInt8} (h : l.Follows sofar)
    (haccepted : ∀ p ∈ (l.feed bytes).2, p = .accepted) :
    (l.feed bytes).1.Follows (sofar ++ bytes) ∧ (l.feed bytes).1.limits = l.limits := by
  induction bytes generalizing l sofar with
  | nil => exact ⟨by rwa [List.append_nil], rfl⟩
  | cons byte rest ih =>
      rcases hbyte : l.feedByte byte with ⟨l', _ | _ | script | fault⟩ <;>
        simp only [feed, hbyte] at haccepted ⊢
      · obtain ⟨hnext, hlimits⟩ := follows_feedByte h hbyte (by simp)
        rw [List.append_cons, ← hlimits]
        exact ih hnext haccepted
      · obtain ⟨hnext, hlimits⟩ := follows_feedByte h hbyte (by simp)
        rw [List.append_cons, ← hlimits]
        exact ih hnext fun p hp => haccepted p (List.mem_cons_of_mem _ hp)
      · cases haccepted _ List.mem_cons_self
      · cases haccepted _ List.mem_cons_self

/-- Chunks bring one script, with the last of their bytes, and nothing of them is refused. -/
structure Accepts (l : Loader) (chunks : List (List UInt8)) : Prop where
  unrefused : Unrefused (l.feedAll chunks).2
  once : ((l.feedAll chunks).2.filterMap Progress.script?).length = 1
  last : ∀ (earlier : List (List UInt8)) (chunk : List UInt8) (byte : UInt8)
    (later : List (List UInt8)), chunks = earlier ++ (chunk ++ [byte]) :: later →
    later.flatten = [] → (l.feedAll (earlier ++ [chunk])).2.filterMap Progress.script? = []

end Loader

/-- Chunks that are not all empty have a last byte. -/
theorem exists_last_byte {chunks : List (List UInt8)} (h : chunks.flatten ≠ []) :
    ∃ (earlier : List (List UInt8)) (chunk : List UInt8) (byte : UInt8)
      (later : List (List UInt8)),
      chunks = earlier ++ (chunk ++ [byte]) :: later ∧ later.flatten = [] := by
  induction chunks with
  | nil => exact absurd rfl h
  | cons first rest ih =>
      by_cases hrest : rest.flatten = []
      · have hfirst : first ≠ [] := by
          rwa [List.flatten_cons, hrest, List.append_nil] at h
        refine ⟨[], first.dropLast, first.getLast hfirst, rest, ?_, hrest⟩
        rw [List.dropLast_concat_getLast, List.nil_append]
      · obtain ⟨earlier, chunk, byte, later, rfl, hlater⟩ := ih hrest
        exact ⟨first :: earlier, chunk, byte, later, rfl, hlater⟩

theorem flatten_cut (earlier later : List (List UInt8)) (chunk : List UInt8) (byte : UInt8)
    (hlater : later.flatten = []) :
    (earlier ++ (chunk ++ [byte]) :: later).flatten = (earlier ++ [chunk]).flatten ++ [byte] := by
  simp [hlater]

namespace Loader

variable {limits : Limits} {model : ThermalModel} {chunks : List (List UInt8)}

theorem exists_program_of_accepts (h : (fresh limits model).Accepts chunks) :
    ∃ p : Program, p.Acceptable limits ∧ chunks.flatten = p.encode := by
  have hwhole := feedAll_eq_feed_flatten (Or.inl h.unrefused)
  have hsome : chunks.flatten ≠ [] := by
    intro hnone
    have := h.once
    rw [hwhole, hnone] at this
    cases this
  obtain ⟨earlier, chunk, byte, later, hcut, hlater⟩ := exists_last_byte hsome
  have hlast := h.last earlier chunk byte later hcut hlater
  have hunrefused := h.unrefused
  have honce := h.once
  rw [hwhole, hcut, flatten_cut _ _ _ _ hlater] at hunrefused honce
  rw [hcut, flatten_cut _ _ _ _ hlater]
  generalize hbefore : (earlier ++ [chunk]).flatten = before at hunrefused honce ⊢
  have hfirst : Unrefused ((fresh limits model).feed before).2 := unrefused_of_append hunrefused
  rw [feedAll_eq_feed_flatten (Or.inr (hbefore ▸ hfirst)), hbefore] at hlast
  have haccepted : ∀ p ∈ ((fresh limits model).feed before).2, p = .accepted := fun p hp =>
    Progress.eq_accepted (hfirst p hp) (List.filterMap_eq_nil_iff.mp hlast p hp)
  obtain ⟨hfollows, hlimits⟩ := follows_feed (follows_fresh limits model) haccepted
  rw [List.nil_append] at hfollows
  rw [feed_append _ hfirst, List.filterMap_append, hlast, List.nil_append, feed_singleton] at honce
  rcases hbyte : ((fresh limits model).feed before).1.feedByte byte with
    ⟨l', _ | _ | script | fault⟩ <;> rw [hbyte] at honce
  · cases honce
  · cases honce
  · obtain ⟨p, hp, hencode⟩ := encode_of_feedByte_done hfollows hbyte
    rw [hlimits] at hp
    exact ⟨p, hp, hencode⟩
  · cases honce

theorem feedAll_of_encode (model : ThermalModel) {p : Program} (hp : p.Acceptable limits)
    (hchunks : chunks.flatten = p.encode) :
    (fresh limits model).feedAll chunks = (fresh limits model, p.progress limits model) := by
  have hencode := Program.feed_encode model hp
  rw [feedAll_eq_feed_flatten, hchunks, hencode]
  right
  rw [hchunks, hencode]
  exact Program.unrefused_progress model hp

theorem field_ne_nil_of_feedByte_none {l l' : Loader} {byte : UInt8}
    (hbyte : l.feedByte byte = (l', none)) : l'.field ≠ [] := by
  by_cases hshort : (l.field ++ [byte]).length < l.stage.fieldSize
  · rw [feedByte_of_short hshort] at hbyte
    cases hbyte
    exact List.append_ne_nil_of_right_ne_nil _ (List.cons_ne_nil _ _)
  · rw [feedByte_of_full hshort] at hbyte
    cases hbyte

/-- Where no field is left open, the last report is owed to the last byte. -/
theorem feed_of_concat {l : Loader} {before : List UInt8} {byte : UInt8}
    {progress : List Progress} {final : Progress}
    (h : (l.feed (before ++ [byte])).2 = progress ++ [final])
    (hprogress : Unrefused (progress ++ [final]))
    (hend : (l.feed (before ++ [byte])).1.field = []) :
    Unrefused (l.feed before).2 ∧ (l.feed before).2 = progress := by
  have hbefore : Unrefused (l.feed before).2 := unrefused_of_append (h ▸ hprogress)
  rw [feed_append _ hbefore, feed_singleton] at h hend
  refine ⟨hbefore, ?_⟩
  rcases hbyte : (l.feed before).1.feedByte byte with ⟨l', _ | p⟩ <;> rw [hbyte] at h hend
  · exact absurd hend (field_ne_nil_of_feedByte_none hbyte)
  · exact (List.append_inj' h rfl).1

theorem accepts_of_encode {p : Program} (hp : p.Acceptable limits)
    (hchunks : chunks.flatten = p.encode) : (fresh limits model).Accepts chunks := by
  have hall := feedAll_of_encode model hp hchunks
  have hunrefused := Program.unrefused_progress model hp
  have hprogress := Program.progress_of_acceptable model hp
  have hnone : (List.replicate (p.fields.length - 1) Progress.accepted).filterMap
      Progress.script? = [] :=
    List.filterMap_eq_nil_iff.mpr fun _ h => List.eq_of_mem_replicate h ▸ rfl
  refine ⟨?_, ?_, ?_⟩
  · rw [hall]
    exact hunrefused
  · rw [hall, hprogress, List.filterMap_append, hnone]
    rfl
  · rintro earlier chunk byte later rfl hlater
    have hencode := Program.feed_encode model hp
    rw [flatten_cut _ _ _ _ hlater] at hchunks
    rw [hprogress] at hencode hunrefused
    rw [← hchunks] at hencode
    obtain ⟨hbefore, haccepted⟩ :=
      feed_of_concat (congrArg Prod.snd hencode) hunrefused (by rw [hencode]; rfl)
    rw [feedAll_eq_feed_flatten (Or.inr hbefore), haccepted, hnone]

end Loader

/-- The loader takes the encodings of acceptable programs and nothing else, however the bytes are
cut. There is one program for them, and the script that is brought is that program. -/
theorem accepts_iff_encode (limits : Limits) (model : ThermalModel)
    (chunks : List (List UInt8)) :
    ((Loader.fresh limits model).Accepts chunks ↔
      ∃ p : Program, p.Acceptable limits ∧ chunks.flatten = p.encode) ∧
    ∀ p : Program, p.Acceptable limits → chunks.flatten = p.encode →
      (∀ q : Program, chunks.flatten = q.encode → q = p) ∧
      ((Loader.fresh limits model).feedAll chunks).2 =
        List.replicate (p.fields.length - 1) .accepted ++
          [.done
            { statements := p.setpoints.map fun s => .hold (some (s.celsius, s.duration))
              cursor := 0
              elapsedInInterval := 0
              phase := p.phase
              mashWater := p.mashWater
              target := none
              rampedUp := false
              failure := none
              model := model }] ∧
      ∀ s ∈ p.setpoints, s.celsius.toBits = s.pattern := by
  refine ⟨⟨Loader.exists_program_of_accepts, ?_⟩, ?_⟩
  · rintro ⟨p, hp, hchunks⟩
    exact Loader.accepts_of_encode hp hchunks
  · intro p hp hchunks
    refine ⟨?_, ?_, ?_⟩
    · intro q hq
      exact Program.encode_injective (hq.symm.trans hchunks)
    · rw [Loader.feedAll_of_encode model hp hchunks, Program.progress_of_acceptable model hp,
        Program.script_eq model hp.fits]
      rfl
    · intro s hs
      exact Setpoint.toBits_celsius (hp.within s hs)

/-- A program with one setpoint, cut after its fifth byte, is answered field by field. -/
theorem accepts_iff_encode_of_cut :
    let limits : Limits := ⟨0, 79⟩
    let p : Program := ⟨.mashing, 0, [.ofCelsius 65 60000]⟩
    let chunks := [p.encode.take 5, p.encode.drop 5]
    (Loader.fresh limits .standard).Accepts chunks ∧
      (∀ q : Program, chunks.flatten = q.encode → q = p) ∧
      ((Loader.fresh limits .standard).feedAll chunks).2.length = 7 := by
  intro limits p chunks
  have hp : p.Acceptable limits := Program.flaw?_eq_none_iff.mp (by decide +kernel)
  have hchunks : chunks.flatten = p.encode := by decide +kernel
  obtain ⟨haccepts, hbrought⟩ := accepts_iff_encode limits .standard chunks
  obtain ⟨hunique, hprogress, -⟩ := hbrought p hp hchunks
  exact ⟨haccepts.mpr ⟨p, hp, hchunks⟩, hunique, by rw [hprogress]; rfl⟩

end Brewhouse.Upload
