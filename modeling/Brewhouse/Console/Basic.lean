import Brewhouse.Board.Instruments
import Brewhouse.Fault
import Brewhouse.Journal
import Brewhouse.Upload.Loader

/-!
The serial console. It answers the fields of an upload, writes a line for each event that concerns the operator,
and waits for the operator's consent to go on. Its link is a channel of bytes whose reads and writes may bring
or take less than they are offered.
-/

namespace Brewhouse

/-! ### The link -/

class Link (σ : Type) where
  /-- Up to so many bytes that have arrived; none if nothing has. -/
  read : Nat → σ → Except LinkFault (List UInt8) × σ
  /-- Offers bytes, and tells how many of them were taken. -/
  write : List UInt8 → σ → Except LinkFault Nat × σ
  /-- Pushes out what has been taken. -/
  flush : σ → Except LinkFault Unit × σ

namespace Link

variable {σ : Type} [Link σ]

/-- Writes all bytes, offering what is left until nothing is. A link that takes nothing of an offer
is closed. -/
def writeAll (data : List UInt8) (l : σ) : Except LinkFault Unit × σ :=
  if data.isEmpty then (.ok (), l)
  else
    match Link.write data l with
    | (.error fault, l) => (.error fault, l)
    | (.ok 0, l) => (.error .closed, l)
    | (.ok (taken + 1), l) => writeAll (data.drop (taken + 1)) l
termination_by data.length
decreasing_by
  have : 0 < data.length := List.length_pos_iff.2 (by simp_all)
  rw [List.length_drop]
  omega

def lineEnd : List UInt8 :=
  [13, 10]

/-- Writes a line and its end, and pushes them out. -/
def writeLine (line : List UInt8) (l : σ) : Except LinkFault Unit × σ :=
  match writeAll line l with
  | (.error fault, l) => (.error fault, l)
  | (.ok (), l) =>
    match writeAll lineEnd l with
    | (.error fault, l) => (.error fault, l)
    | (.ok (), l) => Link.flush l

end Link

/-! ### The console -/

structure Console (σ : Type) where
  link : σ
  loader : Upload.Loader

namespace Console

def chunkSize : Nat := 64

/-- The time between two looks for the operator's answer. -/
def resumePoll : Milliseconds := 10

def faultLead : String := "ERROR: "

/-- The answer to a field of an upload. A line has room for 64 bytes. -/
def answer : Upload.Progress → String
  | .accepted | .done _ => "OK"
  | .refused fault => Text.fit 64 [faultLead, fault.message]

/-- A line that reports a fault. It has room for 96 bytes. -/
def faultLine (pieces : List String) : String :=
  Text.fit 96 (faultLead :: pieces)

/-- The line that an event is worth, if it is worth one. -/
def eventLine? : Event → Option String
  | .telemetry report => some report.line
  | .paused => some "PAUSED"
  | .scriptFailed fault => some (faultLine fault.pieces)
  | .sensorFault fault => some (faultLine fault.pieces)
  | _ => none

def lineBytes (line : String) : List UInt8 :=
  line.toUTF8.toList

variable {σ : Type} [Link σ]

/-- Answers fields in turn. Writing goes on after a fault; the first one is told. -/
def answerAll (l : σ) : List Upload.Progress → Except LinkFault Unit × σ
  | [] => (.ok (), l)
  | progress :: rest =>
    let (written, l) := Link.writeLine (lineBytes (answer progress)) l
    let (further, l) := answerAll l rest
    match written with
    | .ok () => (further, l)
    | .error fault => (.error fault, l)

/-- The script that the last complete upload among the fields has brought. -/
def lastScript? (progress : List Upload.Progress) : Option Script :=
  (progress.filterMap fun
    | .done script => some script
    | _ => none).getLast?

/-- Looks once for bytes of an upload, and answers the fields that they complete. A script that has
been received is handed out only if all answers could be written. -/
def pollScript (c : Console σ) : Noted (Except LinkFault (Option Script) × Console σ) :=
  match Link.read chunkSize c.link with
  | (.error fault, link) => ⟨[], .error fault, { c with link := link }⟩
  | (.ok bytes, link) =>
    let (loader, progress) := c.loader.feed bytes
    let (written, link) := answerAll link progress
    ⟨progress.filterMap Upload.Progress.notice?,
      written.map fun () => lastScript? progress, ⟨link, loader⟩⟩

/-- Enters an event in the journal and writes the line it is worth. -/
def emit (c : Console σ) (event : Event) : Noted (Console σ) :=
  match eventLine? event with
  | none => ⟨[.event event], c⟩
  | some line =>
    match Link.writeLine (lineBytes line) c.link with
    | (.ok (), link) => ⟨[.event event], { c with link := link }⟩
    | (.error fault, link) =>
      ⟨[.event event, .consoleWriteFailed fault], { c with link := link }⟩

/-- Reads and drops what has arrived, up to a read that brings nothing or fails, but at most
`patience` times. -/
def drain : Nat → σ → σ
  | 0, l => l
  | patience + 1, l =>
    match Link.read chunkSize l with
    | (.ok (_ :: _), l) => drain patience l
    | (_, l) => l

inductive Look where
  | answered
  | silent
  | failed (fault : LinkFault)

def look (l : σ) : Look × σ :=
  match Link.read 1 l with
  | (.ok [], l) => (.silent, l)
  | (.ok _, l) => (.answered, l)
  | (.error fault, l) => (.failed fault, l)

structure Wait (σ : Type) where
  link : σ
  /-- How often there was no answer yet. -/
  polls : Nat
  notices : List Notice
  /-- Whether an answer came. -/
  answered : Bool

/-- Looks until there is an answer, but at most `patience` times. -/
def awaitAnswer : Nat → σ → Wait σ
  | 0, l => ⟨l, 0, [], false⟩
  | patience + 1, l =>
    match look l with
    | (.answered, l) => ⟨l, 0, [], true⟩
    | (.silent, l) =>
      let wait := awaitAnswer patience l
      { wait with polls := wait.polls + 1 }
    | (.failed fault, l) =>
      let wait := awaitAnswer patience l
      { wait with
        polls := wait.polls + 1
        notices := .consoleReadFailed fault :: wait.notices }

/-- Waits for the operator. Any byte is an answer, and what has arrived with it is dropped. An
observer gives a wait up after `patience` looks; the console itself would go on. -/
def awaitResume (patience : Nat) (l : σ) : Wait σ :=
  let wait := awaitAnswer patience l
  if wait.answered then { wait with link := drain patience wait.link } else wait

end Console

end Brewhouse
