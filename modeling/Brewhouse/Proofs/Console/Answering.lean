import Brewhouse.Console.Basic
import Brewhouse.Proofs.Console.Delivery
import Brewhouse.Proofs.Upload.Loader

/-!
A reliable link, and what the console does on it: a line that is written arrives whole, whatever part
of it each write takes, and a look for an upload writes one line for each field that it completes.
-/

namespace Brewhouse

/-- A link that delivers in order. Reads and flushes do not fail, and a write takes some of what it
is offered. How much a read brings and a write takes is up to the link. -/
class ReliableLink (σ : Type) extends Link σ where
  /-- What has been sent from the other end and has not been read. -/
  incoming : σ → List UInt8
  /-- What has been written so far. -/
  outgoing : σ → List UInt8
  /-- Sends from the other end. -/
  send : List UInt8 → σ → σ
  incoming_send (bytes : List UInt8) (l : σ) : incoming (send bytes l) = incoming l ++ bytes
  outgoing_send (bytes : List UInt8) (l : σ) : outgoing (send bytes l) = outgoing l
  read_spec (size : Nat) (l : σ) : ∃ bytes l', read size l = (.ok bytes, l') ∧
    bytes.length ≤ size ∧ incoming l = bytes ++ incoming l' ∧ outgoing l' = outgoing l
  write_spec (data : List UInt8) (l : σ) (hdata : data ≠ []) : ∃ taken l',
    write data l = (.ok taken, l') ∧ 0 < taken ∧ taken ≤ data.length ∧
      incoming l' = incoming l ∧ outgoing l' = outgoing l ++ data.take taken
  flush_spec (l : σ) : ∃ l', flush l = (.ok (), l') ∧ incoming l' = incoming l ∧
    outgoing l' = outgoing l

namespace ReliableLink

variable {σ : Type} [ReliableLink σ]

theorem delivers : Link.Delivers fun (l : σ) bytes l' =>
    incoming l' = incoming l ∧ outgoing l' = outgoing l ++ bytes where
  nothing l := ⟨rfl, (List.append_nil _).symm⟩
  append h h' := ⟨h'.1.trans h.1, by rw [h'.2, h.2, List.append_assoc]⟩
  write data l hdata := by
    obtain ⟨taken, l', hwrite, hpos, -, hincoming, houtgoing⟩ := write_spec data l hdata
    exact ⟨taken, l', hwrite, hpos, hincoming, houtgoing⟩
  flush l := by
    obtain ⟨l', hflush, hincoming, houtgoing⟩ := flush_spec l
    exact ⟨l', hflush, hincoming, houtgoing.trans (List.append_nil _).symm⟩

theorem writeLine_spec (line : List UInt8) (l : σ) :
    ∃ l', Link.writeLine line l = (.ok (), l') ∧ incoming l' = incoming l ∧
      outgoing l' = outgoing l ++ (line ++ Link.lineEnd) :=
  delivers.writeLine line l

end ReliableLink

/-! ### Answers -/

/-- The line that answers a field. -/
def Upload.Progress.line : Upload.Progress → String
  | .accepted | .done _ => "OK"
  | .refused .expectedBegin => "ERROR: expected BEG"
  | .refused .unknownMode => "ERROR: unknown mode"
  | .refused .tooManySetpoints => "ERROR: too many setpoints"
  | .refused .temperatureOutOfRange => "ERROR: temperature out of range"
  | .refused .expectedEnd => "ERROR: expected END"

/-- The bytes of the answer to a field, with the end of the line. -/
def Upload.Progress.reply (p : Upload.Progress) : List UInt8 :=
  p.line.toUTF8.toList ++ [13, 10]

namespace Console

/-- Every answer has room on its line. -/
theorem answer_eq_line (p : Upload.Progress) : answer p = p.line := by
  cases p with
  | accepted => rfl
  | done script => rfl
  | refused fault => cases fault <;> decide

variable {σ : Type} [ReliableLink σ]

open ReliableLink

/-- A look that completes no field writes nothing. -/
theorem pollScript_of_silent {c : Console σ} {bytes : List UInt8} {link : σ}
    {loader : Upload.Loader} (hread : Link.read chunkSize c.link = (.ok bytes, link))
    (hfeed : c.loader.feed bytes = (loader, [])) :
    c.pollScript.value = (.ok none, ⟨link, loader⟩) := by
  simp only [pollScript, hread, hfeed, answerAll]
  rfl

/-- A look that completes one field writes the answer to it, and hands out the script if it is the
last of an upload. -/
theorem pollScript_of_field {c : Console σ} {bytes : List UInt8} {link : σ}
    {loader : Upload.Loader} {progress : Upload.Progress}
    (hread : Link.read chunkSize c.link = (.ok bytes, link))
    (hfeed : c.loader.feed bytes = (loader, [progress])) :
    ∃ link', c.pollScript.value = (.ok progress.script?, ⟨link', loader⟩) ∧
      incoming link' = incoming link ∧ outgoing link' = outgoing link ++ progress.reply := by
  obtain ⟨link', hwrite, hincoming, houtgoing⟩ :=
    writeLine_spec (lineBytes (answer progress)) link
  refine ⟨link', ?_, hincoming, ?_⟩
  · simp only [pollScript, hread, hfeed, answerAll, hwrite]
    cases progress <;> rfl
  · rw [houtgoing, answer_eq_line]
    rfl

end Console

end Brewhouse
