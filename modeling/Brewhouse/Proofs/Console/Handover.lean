import Brewhouse.Bench.Line
import Brewhouse.Console.Basic
import Brewhouse.Proofs.Upload.Loader

/-!
What becomes of a program that has been received. The last field of a program is answered as soon as it
has been taken in, but the script is handed out only at the end of the look, and only if every answer of
the look could be written. One program is handed out for each look, the last one: a program that was
acknowledged before it is lost, and so is one next to an answer that could not be written.
-/

namespace Brewhouse

namespace Upload

namespace Loader

/-- A field that a chunk completes without being refused is completed by one of its bytes; the fields
before it are completed by the bytes before, and the fields after it by the bytes after. -/
theorem exists_completing_byte {l : Loader} {bytes : List UInt8} {before after : List Progress}
    {p : Progress} (haccepted : p.isRefused = false) (h : (l.feed bytes).2 = before ++ p :: after) :
    ∃ first last rest, bytes = first ++ last :: rest ∧ (l.feed first).2 = before ∧
      ((l.feed first).1.feedByte last).2 = some p ∧
      (((l.feed first).1.feedByte last).1.feed rest).2 = after := by
  induction bytes generalizing l before with
  | nil => simp [feed] at h
  | cons byte rest ih =>
      by_cases hshort : (l.field ++ [byte]).length < l.stage.fieldSize
      · rw [feed_cons_of_short rest hshort] at h
        obtain ⟨first, last, rest, rfl, hbefore, hlast, hafter⟩ := ih h
        refine ⟨byte :: first, last, rest, rfl, ?_⟩
        rw [feed_cons_of_short first hshort]
        exact ⟨hbefore, hlast, hafter⟩
      · rw [feed_cons_of_full rest hshort] at h
        split at h
        · next hrefused =>
            cases before with
            | nil =>
                obtain ⟨rfl, -⟩ := List.cons.inj h
                rw [haccepted] at hrefused
                cases hrefused
            | cons q before => simp at h
        · next hnot =>
            cases before with
            | nil =>
                obtain ⟨rfl, rfl⟩ := List.cons.inj h
                refine ⟨[], byte, rest, rfl, rfl, ?_⟩
                rw [feed, feedByte_of_full hshort]
                exact ⟨rfl, rfl⟩
            | cons q before =>
                obtain ⟨rfl, hbefore⟩ := List.cons.inj h
                obtain ⟨first, last, rest, rfl, hfirst, hlast, hafter⟩ := ih hbefore
                refine ⟨byte :: first, last, rest, rfl, ?_⟩
                rw [feed_cons_of_full first hshort, if_neg hnot]
                exact ⟨congrArg _ hfirst, hlast, hafter⟩

/-- Only `END` brings a script, the one of the program that it closes. -/
theorem ending_of_complete {l : Loader} {field : List UInt8} {script : Script}
    (hcomplete : l.complete field = .ok (.inr script)) :
    ∃ received, l.stage = .ending received ∧ field = Tag.ending.bytes ∧
      script = received.script l.model := by
  unfold complete at hcomplete
  cases hstage : l.stage with
  | ending received =>
      simp only [hstage] at hcomplete
      split at hcomplete
      · next hfield =>
          cases hcomplete
          exact ⟨received, rfl, hfield, rfl⟩
      · cases hcomplete
  | opening | phase | count | temperature =>
      simp only [hstage] at hcomplete
      split at hcomplete <;> cases hcomplete
  | mashWater | duration =>
      simp only [hstage] at hcomplete
      cases hcomplete

/-- Of the program that has been closed the loader keeps nothing. -/
theorem ending_of_feedByte {l : Loader} {byte : UInt8} {script : Script}
    (h : (l.feedByte byte).2 = some (.done script)) :
    (∃ received, l.stage = .ending received ∧ l.field ++ [byte] = Tag.ending.bytes ∧
      script = received.script l.model) ∧ (l.feedByte byte).1 = l.reset := by
  by_cases hshort : (l.field ++ [byte]).length < l.stage.fieldSize
  · rw [feedByte_of_short hshort] at h
    cases h
  · rw [feedByte_of_full hshort, conclude] at h ⊢
    rcases hcomplete : l.complete (l.field ++ [byte]) with fault | stage | script' <;>
      simp only [hcomplete] at h ⊢ <;> cases h
    exact ⟨ending_of_complete hcomplete, trivial⟩

theorem model_feed (l : Loader) (bytes : List UInt8) : (l.feed bytes).1.model = l.model := by
  have hmodel := congrArg Loader.model (l.reset_feed bytes)
  exact hmodel

end Loader

end Upload

namespace Console

open Upload

variable {σ : Type} [Link σ]

/-! ### The answers of a look -/

/-- Every field is answered, whatever became of the answer before; the first fault is told. -/
theorem answerAll_cons (l : σ) (p : Progress) (rest : List Progress) :
    answerAll l (p :: rest) =
      ((Link.writeLine (lineBytes (answer p)) l).1.bind fun _ =>
          (answerAll (Link.writeLine (lineBytes (answer p)) l).2 rest).1,
        (answerAll (Link.writeLine (lineBytes (answer p)) l).2 rest).2) := by
  rw [answerAll]
  rcases Link.writeLine (lineBytes (answer p)) l with ⟨_ | _, l'⟩ <;> rfl

theorem answerAll_append (l : σ) (before after : List Progress) :
    answerAll l (before ++ after) =
      ((answerAll l before).1.bind fun _ => (answerAll (answerAll l before).2 after).1,
        (answerAll (answerAll l before).2 after).2) := by
  induction before generalizing l with
  | nil => rfl
  | cons p rest ih =>
      rw [List.cons_append, answerAll_cons, answerAll_cons, ih]
      rcases Link.writeLine (lineBytes (answer p)) l with ⟨_ | _, l'⟩ <;> rfl

theorem lastScript?_append_done (before after : List Progress) (script : Script) :
    lastScript? (before ++ .done script :: after) = (lastScript? after).or (some script) := by
  simp only [lastScript?, List.filterMap_append, List.filterMap_cons, List.getLast?_append,
    List.getLast?_cons]
  cases (List.filterMap _ after).getLast? <;> rfl

/-- The result of a look that brings a script and perhaps more: the first fault among the answers, or
else the last script. -/
theorem pollScript_of_done {c : Console σ} {bytes : List UInt8} {link : σ}
    {before after : List Progress} {script : Script}
    (hread : Link.read chunkSize c.link = (.ok bytes, link))
    (hfeed : (c.loader.feed bytes).2 = before ++ .done script :: after) :
    let first := answerAll link before
    let own := Link.writeLine (lineBytes "OK") first.2
    c.pollScript.value.1 = (first.1.bind fun _ => own.1.bind fun _ => (answerAll own.2 after).1).map
      fun _ => (lastScript? after).or (some script) := by
  intro first own
  simp only [pollScript, hread, hfeed, answerAll_append, answerAll_cons, lastScript?_append_done]
  rfl

/-- Where `END` closes a program and is answered, the script of this program is handed out if and only if
the other answers of the look could all be written and no further script has come in the same chunk. The
loader keeps nothing of it, so otherwise it is lost. -/
theorem handed_over_iff {c : Console σ} {bytes : List UInt8} {link : σ} {before after : List Progress}
    {script : Script} (hread : Link.read chunkSize c.link = (.ok bytes, link))
    (hfeed : (c.loader.feed bytes).2 = before ++ .done script :: after)
    (hanswered : (Link.writeLine (lineBytes "OK") (answerAll link before).2).1 = .ok ()) :
    (∃ first last rest received, bytes = first ++ last :: rest ∧ (c.loader.feed first).2 = before ∧
      (c.loader.feed first).1.stage = .ending received ∧
      (c.loader.feed first).1.field ++ [last] = Tag.ending.bytes ∧
      script = received.script c.loader.model ∧
      ((c.loader.feed first).1.feedByte last).1 = (c.loader.feed first).1.reset ∧
      ((c.loader.feed first).1.reset.feed rest).2 = after) ∧
    (c.pollScript.value.1 = .ok (some script) ↔
      (answerAll link before).1 = .ok () ∧
        (answerAll (Link.writeLine (lineBytes "OK") (answerAll link before).2).2 after).1 = .ok () ∧
        ∀ other, lastScript? after = some other → other = script) := by
  constructor
  · obtain ⟨first, last, rest, hbytes, hbefore, hlast, hafter⟩ :=
      Loader.exists_completing_byte (p := .done script) rfl hfeed
    obtain ⟨⟨received, hstage, hend, hscript⟩, hreset⟩ := Loader.ending_of_feedByte hlast
    rw [Loader.model_feed] at hscript
    rw [hreset] at hafter
    exact ⟨first, last, rest, received, hbytes, hbefore, hstage, hend, hscript, hreset, hafter⟩
  · rw [pollScript_of_done hread hfeed, hanswered]
    rcases (answerAll link before).1 with fault | ⟨⟩
    · simp [Except.bind, Except.map]
    rcases (answerAll (Link.writeLine (lineBytes "OK") (answerAll link before).2).2 after).1 with
      fault | ⟨⟩
    · simp [Except.bind, Except.map]
    cases lastScript? after <;> simp [Except.bind, Except.map]

/-- Two programs come in one chunk, and every answer is written. Both are acknowledged; the second one is
handed out, and the first one is not. -/
theorem handed_over_iff_of_two :
    let hold : Program := ⟨.mashing, 0, [.ofCelsius 65 60000]⟩
    let rinse : Program := ⟨.sparging, 0, []⟩
    let c : Console Bench.Line := ⟨Bench.Line.idle.receive (hold.encode ++ rinse.encode),
      .fresh ⟨0, 79⟩ .standard⟩
    c.pollScript.value.1 ≠ .ok (some (hold.script .standard)) ∧
      c.pollScript.value.1 = .ok (some (rinse.script .standard)) := by
  intro hold rinse c
  have hread : Link.read chunkSize c.link = (.ok (hold.encode ++ rinse.encode), Bench.Line.idle) := by
    decide +kernel
  have hfeed : (c.loader.feed (hold.encode ++ rinse.encode)).2 =
      List.replicate 6 .accepted ++ .done (hold.script .standard) ::
        (List.replicate 4 .accepted ++ [.done (rinse.script .standard)]) := by decide +kernel
  have hother : hold.script .standard ≠ rinse.script .standard := by decide +kernel
  constructor
  · obtain ⟨-, hhold⟩ := handed_over_iff hread hfeed (by decide +kernel)
    rw [Ne, hhold]
    rintro ⟨-, -, hlast⟩
    exact hother (hlast _ (by decide +kernel)).symm
  · rw [← List.cons_append, ← List.append_assoc] at hfeed
    obtain ⟨-, hrinse⟩ := handed_over_iff hread hfeed (by decide +kernel)
    exact hrinse.mpr ⟨by decide +kernel, by decide +kernel, by decide +kernel⟩

/-- The answer to the first field of a program could not be written. All others are, also the one to its
`END`, and yet the script is not handed out. -/
theorem acknowledged_script_lost :
    let program : Program := ⟨.mashing, 0, [.ofCelsius 65 60000]⟩
    let c : Console Bench.Line := ⟨{ Bench.Line.idle.receive program.encode with writeFaults := 1 },
      .fresh ⟨0, 79⟩ .standard⟩
    ∃ link before, Link.read chunkSize c.link = (.ok program.encode, link) ∧
      (c.loader.feed program.encode).2 = before ++ [.done (program.script .standard)] ∧
      Link.writeLine (lineBytes "OK") (answerAll link before).2 = (.ok (), c.pollScript.value.2.link) ∧
      c.pollScript.value.2.link.outgoing =
        (List.replicate 6 (lineBytes "OK" ++ Link.lineEnd)).flatten ∧
      c.pollScript.value.1 = .error .writeFailed := by
  intro program c
  exact ⟨(Link.read chunkSize c.link).2, List.replicate 6 .accepted, by decide +kernel, by decide +kernel,
    by decide +kernel, by decide +kernel, by decide +kernel⟩

end Console

end Brewhouse
