import Brewhouse.Proofs.Console.Session
import Brewhouse.Proofs.Text.Wording

/-!
The framing of what the console writes. Whatever events it is told of, with whatever tags and numbers in
them, and whatever the other end sends, its output is a sequence of lines: one for each field of an upload
and one for each event that is worth one, in order. No line has a line end in it, and the text of a fault
is never cut short.
-/

namespace Brewhouse

open Text

/-! ### Lines -/

theorem Upload.Progress.plain_line (p : Upload.Progress) : Plain p.line := by
  cases p with
  | accepted => exact (by decide : Plain "OK")
  | done script => exact (by decide : Plain "OK")
  | refused fault => cases fault <;> decide

namespace Console

/-- A line that reports a fault has room for its whole text. -/
theorem faultLine_eq {pieces : List String} (hplain : ∀ piece ∈ pieces, Plain piece)
    (hlength : (String.join pieces).length ≤ 40) :
    faultLine pieces = faultLead ++ String.join pieces := by
  have hall : Plain (String.join (faultLead :: pieces)) :=
    plain_join (List.forall_mem_cons.mpr ⟨by decide, hplain⟩)
  have hlead : faultLead.length = 7 := by decide
  have hroom : (String.join (faultLead :: pieces)).utf8ByteSize ≤ 96 := by
    rw [hall.utf8ByteSize_eq, String.join_cons, String.length_append, hlead]
    omega
  rw [faultLine, fit_eq_join hroom, String.join_cons]

/-- The line that an event is worth, with the whole text of a fault. -/
def wholeLine? : Event → Option String
  | .telemetry report => some report.line
  | .paused => some "PAUSED"
  | .scriptFailed fault => some ("ERROR: " ++ fault.message)
  | .sensorFault fault => some ("ERROR: " ++ fault.message)
  | _ => none

theorem eventLine?_eq (event : Event) : eventLine? event = wholeLine? event := by
  cases event with
  | scriptFailed fault =>
      exact congrArg some (faultLine_eq fault.plain_pieces fault.length_message)
  | sensorFault fault =>
      exact congrArg some (faultLine_eq fault.plain_pieces fault.length_message)
  | telemetry | scriptLoaded | scriptCompleted | scriptAborted | paused | resumed => rfl

theorem plain_wholeLine {event : Event} {line : String} (h : wholeLine? event = some line) :
    Plain line := by
  cases event with
  | telemetry report =>
      cases h
      exact report.plain_line
  | paused =>
      cases h
      decide
  | scriptFailed fault =>
      cases h
      exact Plain.append (by decide) (plain_join fault.plain_pieces)
  | sensorFault fault =>
      cases h
      exact Plain.append (by decide) (plain_join fault.plain_pieces)
  | scriptLoaded | scriptCompleted | scriptAborted | resumed => cases h

/-! ### Runs of the console -/

inductive Call where
  | emit (event : Event)
  /-- To look for an upload. -/
  | poll

section

variable {σ : Type} [Link σ]

def Call.perform (c : Console σ) : Call → Console σ
  | .emit event => (c.emit event).value
  | .poll => c.pollScript.value.2

def found (l : σ) : List UInt8 :=
  match Link.read chunkSize l with
  | (.ok bytes, _) => bytes
  | (.error _, _) => []

/-- The lines of a call: one for an event that is worth one, and one for each field that the bytes
complete that a look finds. -/
def Call.lines (c : Console σ) : Call → List String
  | .emit event => (wholeLine? event).toList
  | .poll => (c.loader.feed (found c.link)).2.map Upload.Progress.line

def run (c : Console σ) (calls : List Call) : Console σ :=
  calls.foldl Call.perform c

def runLines (c : Console σ) : List Call → List String
  | [] => []
  | call :: calls => call.lines c ++ runLines (call.perform c) calls

theorem plain_lines (c : Console σ) (call : Call) : ∀ line ∈ call.lines c, Plain line := by
  cases call with
  | emit event =>
      intro line hline
      exact plain_wholeLine (Option.mem_toList.mp hline)
  | poll => exact List.forall_mem_map.mpr fun p _ => p.plain_line

theorem plain_runLines (c : Console σ) (calls : List Call) : ∀ line ∈ runLines c calls, Plain line := by
  induction calls generalizing c with
  | nil => exact List.forall_mem_nil _
  | cons call calls ih => exact List.forall_mem_append.mpr ⟨plain_lines c call, ih _⟩

end

def framed (line : String) : List UInt8 :=
  line.toUTF8.toList ++ [13, 10]

variable {σ : Type} [FaultlessLink σ]

open FaultlessLink

theorem outgoing_answerAll (l : σ) (progress : List Upload.Progress) :
    outgoing (answerAll l progress).2 =
      outgoing l ++ (progress.map Upload.Progress.line).flatMap framed := by
  induction progress generalizing l with
  | nil => exact (List.append_nil _).symm
  | cons p rest ih =>
      obtain ⟨l', hwrite, houtgoing⟩ := delivers.writeLine (lineBytes (answer p)) l
      rw [answerAll, hwrite]
      dsimp only
      rw [ih, houtgoing, answer_eq_line, List.map_cons, List.flatMap_cons, List.append_assoc]
      rfl

theorem outgoing_emit (c : Console σ) (event : Event) :
    outgoing (c.emit event).value.link =
      outgoing c.link ++ (wholeLine? event).toList.flatMap framed := by
  unfold emit
  rw [eventLine?_eq]
  cases wholeLine? event with
  | none => exact (List.append_nil _).symm
  | some line =>
      obtain ⟨l', hwrite, houtgoing⟩ := delivers.writeLine (lineBytes line) c.link
      simp only [hwrite, houtgoing, Option.toList_some, List.flatMap_singleton]
      rfl

theorem outgoing_pollScript (c : Console σ) :
    outgoing c.pollScript.value.2.link = outgoing c.link ++
      ((c.loader.feed (found c.link)).2.map Upload.Progress.line).flatMap framed := by
  obtain ⟨bytes, l', hread, hkeeps⟩ := read_spec chunkSize c.link
  simp only [pollScript, found, hread]
  rw [outgoing_answerAll, hkeeps]

theorem outgoing_perform (c : Console σ) (call : Call) :
    outgoing (call.perform c).link = outgoing c.link ++ (call.lines c).flatMap framed := by
  cases call with
  | emit event => exact outgoing_emit c event
  | poll => exact outgoing_pollScript c

theorem outgoing_run (c : Console σ) (calls : List Call) :
    outgoing (run c calls).link = outgoing c.link ++ (runLines c calls).flatMap framed := by
  induction calls generalizing c with
  | nil => exact (List.append_nil _).symm
  | cons call calls ih =>
      rw [run, List.foldl_cons, ← run, ih, outgoing_perform, runLines, List.flatMap_append,
        List.append_assoc]

/-- What the console writes on a link without faults is a sequence of lines with no line end in them: for
each call, in order, a line for each field that is completed, or one for the event if it is worth one, with
the whole text of every fault. -/
theorem output_is_framed (c : Console σ) (calls : List Call) :
    outgoing (run c calls).link = outgoing c.link ++
      (runLines c calls).flatMap (fun line => line.toUTF8.toList ++ [13, 10]) ∧
    ∀ line ∈ runLines c calls, 13 ∉ line.toUTF8.toList ∧ 10 ∉ line.toUTF8.toList := by
  refine ⟨outgoing_run c calls, fun line hline => ?_⟩
  have hplain := plain_runLines c calls line hline
  constructor
  · intro hreturn
    exact absurd (hplain.of_mem_bytes hreturn).1 (by decide)
  · intro hfeed
    exact absurd (hplain.of_mem_bytes hfeed).1 (by decide)

/-- A reliable link is one without faults. -/
@[reducible]
def faultlessOfReliable (σ : Type) [ReliableLink σ] : FaultlessLink σ where
  outgoing := ReliableLink.outgoing
  read_spec size l := by
    obtain ⟨bytes, l', hread, -, -, houtgoing⟩ := ReliableLink.read_spec size l
    exact ⟨bytes, l', hread, houtgoing⟩
  write_spec data l hdata := by
    obtain ⟨taken, l', hwrite, hpos, hle, -, houtgoing⟩ := ReliableLink.write_spec data l hdata
    exact ⟨taken, l', hwrite, hpos, hle, houtgoing⟩
  flush_spec l := by
    obtain ⟨l', hflush, -, houtgoing⟩ := ReliableLink.flush_spec l
    exact ⟨l', hflush, houtgoing⟩

/-- Through a narrow pipe a field is refused, and a command that is made of line ends comes out as one
line. -/
theorem output_is_framed_of_pipe :
    let c : Console Pipe := ⟨⟨[70, 79, 79], [], 2⟩, .fresh ⟨0, 79⟩ .standard⟩
    let calls := [Call.poll, .emit (.scriptFailed (.unknownCommand ⟨13, 10, 13⟩)), .emit .paused]
    (run c calls).link.written = framed "ERROR: expected BEG" ++
      (framed "ERROR: unknown command \"\\x0d\\x0a\\x0d\"" ++ framed "PAUSED") := by
  intro c calls
  have hframed := (@output_is_framed Pipe (faultlessOfReliable Pipe) c calls).1
  have hpoll : (c.loader.feed [70, 79, 79]).2.map Upload.Progress.line = ["ERROR: expected BEG"] := by
    decide
  have hfault : "ERROR: " ++ (ScriptFault.unknownCommand ⟨13, 10, 13⟩).message =
      "ERROR: unknown command \"\\x0d\\x0a\\x0d\"" := by decide
  have hlines : runLines c calls = (c.loader.feed [70, 79, 79]).2.map Upload.Progress.line ++
      ["ERROR: " ++ (ScriptFault.unknownCommand ⟨13, 10, 13⟩).message, "PAUSED"] := rfl
  rw [hlines, hpoll, hfault] at hframed
  refine hframed.trans ?_
  rw [List.cons_append, List.nil_append, List.flatMap_cons, List.flatMap_cons, List.flatMap_singleton]
  rfl

end Console

end Brewhouse
