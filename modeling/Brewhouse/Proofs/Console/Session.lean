import Brewhouse.Proofs.Console.Answering
import Brewhouse.Proofs.Upload.Dialogue
import Mathlib.Data.List.Forall2

/-!
Uploads over a link. A host sends programs field by field, waits for the answer to each field and
gives a program up at its first error. However the bytes are split over the looks of the console,
each field gets its one answer, and a program is answered as if it were the only one.
-/

namespace Brewhouse.Console

open Upload ReliableLink

/-! ### The host -/

structure Host where
  /-- The programs that have not been taken up. -/
  programs : List Program
  /-- The fields of the program under way that have not been sent. -/
  fields : List (List UInt8)
  /-- Whether the answer to a field is outstanding. -/
  awaiting : Bool

namespace Host

/-- The host's turn, with what it sends. It sends the next field, or takes up the next program if
there is none; while it waits for an answer it sends nothing. -/
def turn (h : Host) : Host × List UInt8 :=
  match h.awaiting, h.fields, h.programs with
  | true, _, _ => (h, [])
  | false, field :: rest, _ => ({ h with fields := rest, awaiting := true }, field)
  | false, [], p :: more => ({ h with fields := p.fields, programs := more }, [])
  | false, [], [] => (h, [])

/-- Takes in what the console has written. An error ends the program under way. -/
def hear (h : Host) (written : List UInt8) : Host :=
  if written = [] then h
  else if (lineBytes "ERROR").isPrefixOf written then { h with fields := [], awaiting := false }
  else { h with awaiting := false }

end Host

theorem isPrefixOf_reply (p : Progress) :
    (lineBytes "ERROR").isPrefixOf p.reply = p.isRefused := by
  cases p with
  | accepted | done script =>
      change (lineBytes "ERROR").isPrefixOf (lineBytes "OK" ++ Link.lineEnd) = false
      decide +kernel
  | refused fault => cases fault <;> decide +kernel

theorem reply_ne_nil (p : Progress) : p.reply ≠ [] :=
  List.append_ne_nil_of_right_ne_nil _ (List.cons_ne_nil _ _)

theorem Host.hear_reply (h : Host) (p : Progress) :
    h.hear p.reply = { h with
      fields := if p.isRefused then [] else h.fields
      awaiting := false } := by
  rw [hear, if_neg (reply_ne_nil p), isPrefixOf_reply]
  cases p.isRefused <;> rfl

/-! ### Sessions -/

structure Poll where
  read : List UInt8
  written : List UInt8
  result : Except LinkFault (Option Script)

/-- The look wrote nothing and handed nothing out. -/
def Poll.Silent (p : Poll) : Prop :=
  p.written = [] ∧ p.result = .ok none

/-- A console and the host at the other end of its link, with the looks there have been. -/
structure Session (σ : Type) where
  console : Console σ
  host : Host
  polls : List Poll

inductive Move where
  /-- The host has its turn. -/
  | turn
  /-- The console looks for an upload, and the host hears what it writes. -/
  | poll

variable {σ : Type} [ReliableLink σ]

def watch (c : Console σ) : Poll × Console σ :=
  let (result, after) := c.pollScript.value
  ({ read := (Link.read chunkSize c.link).1.toOption.getD []
     written := (outgoing after.link).drop (outgoing c.link).length
     result := result }, after)

theorem watch_of_silent {c : Console σ} {bytes : List UInt8} {link : σ} {loader : Loader}
    (hread : Link.read chunkSize c.link = (.ok bytes, link))
    (houtgoing : outgoing link = outgoing c.link) (hfeed : c.loader.feed bytes = (loader, [])) :
    c.watch = (⟨bytes, [], .ok none⟩, ⟨link, loader⟩) := by
  rw [watch, pollScript_of_silent hread hfeed, hread]
  simp only [houtgoing, List.drop_length]
  rfl

theorem watch_of_field {c : Console σ} {bytes : List UInt8} {link : σ} {loader : Loader}
    {progress : Progress} (hread : Link.read chunkSize c.link = (.ok bytes, link))
    (houtgoing : outgoing link = outgoing c.link)
    (hfeed : c.loader.feed bytes = (loader, [progress])) :
    ∃ link', c.watch = (⟨bytes, progress.reply, .ok progress.script?⟩, ⟨link', loader⟩) ∧
      incoming link' = incoming link := by
  obtain ⟨link', hpoll, hincoming, houtgoing'⟩ := pollScript_of_field hread hfeed
  refine ⟨link', ?_, hincoming⟩
  rw [watch, hpoll, hread]
  simp only [houtgoing', houtgoing, List.drop_left]
  rfl

namespace Session

def start (limits : Limits) (model : ThermalModel) (programs : List Program) (link : σ) :
    Session σ :=
  ⟨⟨link, .fresh limits model⟩, ⟨programs, [], false⟩, []⟩

def make (s : Session σ) : Move → Session σ
  | .turn =>
    { s with
      console := { s.console with link := send s.host.turn.2 s.console.link }
      host := s.host.turn.1 }
  | .poll =>
    { console := s.console.watch.2
      host := s.host.hear s.console.watch.1.written
      polls := s.polls ++ [s.console.watch.1] }

def run (s : Session σ) (moves : List Move) : Session σ :=
  moves.foldl make s

end Session

/-! ### Exchanges -/

/-- The fields of programs that are answered, with what comes of each. -/
def exchanges (limits : Limits) (model : ThermalModel) (programs : List Program) :
    List (List UInt8 × Progress) :=
  programs.flatMap fun p => p.fields.zip (p.progress limits model)

/-- Looks that read a field between them. The last of them reads the last of it and answers it, and
hands out the script that the field brings. -/
def Round (exchange : List UInt8 × Progress) (polls : List Poll) : Prop :=
  ∃ silent last, polls = silent ++ [last] ∧ (∀ poll ∈ silent, poll.Silent) ∧ last.read ≠ [] ∧
    polls.flatMap Poll.read = exchange.1 ∧ last.written = exchange.2.reply ∧
    last.result = .ok exchange.2.script?

/-- Where a session stands: what is still to be exchanged, and the part that has been read of the
field under way. -/
inductive Standing (limits : Limits) (model : ThermalModel) :
    Console σ → Host → List (List UInt8 × Progress) → List UInt8 → Prop
  /-- The host is free to go on. -/
  | free {c : Console σ} {h : Host} {progress : List Progress} (hawaiting : h.awaiting = false)
      (hincoming : incoming c.link = []) (hfield : c.loader.field = [])
      (hdialogue : Dialogue c.loader h.fields progress (.fresh limits model))
      (hprograms : ∀ p ∈ h.programs, p.setpoints.length < 4294967296) :
      Standing limits model c h (h.fields.zip progress ++ exchanges limits model h.programs) []
  /-- A field is on its way, a part of it read and the rest of it not. -/
  | awaiting {c : Console σ} {h : Host} {field : List UInt8} {progress : List Progress}
      (hawaiting : h.awaiting = true) (hincoming : incoming c.link ≠ [])
      (hfield : field = c.loader.field ++ incoming c.link)
      (hdialogue : Dialogue { c.loader with field := [] } (field :: h.fields) progress
        (.fresh limits model))
      (hprograms : ∀ p ∈ h.programs, p.setpoints.length < 4294967296) :
      Standing limits model c h
        ((field :: h.fields).zip progress ++ exchanges limits model h.programs) c.loader.field

variable {limits : Limits} {model : ThermalModel} {c : Console σ} {h : Host}
  {todo : List (List UInt8 × Progress)} {part : List UInt8}

theorem Standing.turn (hs : Standing limits model c h todo part) :
    Standing limits model { c with link := send h.turn.2 c.link } h.turn.1 todo part := by
  obtain ⟨link, loader⟩ := c
  cases hs with
  | @free progress hawaiting hincoming hfield hdialogue hprograms =>
      obtain ⟨programs, fields, awaiting⟩ := h
      cases hawaiting
      cases fields with
      | cons field rest =>
          have hsome : field ≠ [] := by
            have hpos := loader.stage.fieldSize_pos
            rw [← hdialogue.length_head] at hpos
            exact List.length_pos_iff.mp hpos
          have hclear : { loader with field := [] } = loader := by rw [← hfield]
          have hsent : Standing limits model ⟨send field link, loader⟩ ⟨programs, rest, true⟩
              ((field :: rest).zip progress ++ exchanges limits model programs) loader.field :=
            .awaiting rfl (by rwa [incoming_send, hincoming])
              (by rw [incoming_send, hincoming, hfield]; rfl) (by rwa [hclear]) hprograms
          rwa [hfield] at hsent
      | nil =>
          cases programs with
          | cons p more =>
              have hsent : incoming (send [] link) = [] := by rw [incoming_send, hincoming]; rfl
              obtain ⟨hp, hmore⟩ := List.forall_mem_cons.mp hprograms
              cases hdialogue
              exact .free (c := ⟨send [] link, .fresh limits model⟩)
                (h := ⟨more, p.fields, false⟩) rfl hsent rfl (Program.dialogue hp) hmore
          | nil =>
              have hsent : incoming (send [] link) = [] := by rw [incoming_send, hincoming]; rfl
              exact .free (c := ⟨send [] link, loader⟩) (h := ⟨[], [], false⟩) rfl hsent hfield
                hdialogue hprograms
  | @awaiting field progress hawaiting hincoming hfield hdialogue hprograms =>
      obtain ⟨programs, fields, awaiting⟩ := h
      cases hawaiting
      have hsent : incoming (send [] link) = incoming link := by
        rw [incoming_send, List.append_nil]
      exact .awaiting (c := ⟨send [] link, loader⟩) (h := ⟨programs, fields, true⟩) rfl
        (hsent ▸ hincoming) (hsent ▸ hfield) hdialogue hprograms

/-- A look that reads a part of the field under way, but not the last of it. -/
theorem watch_of_part {field bytes : List UInt8} {progress : List Progress} {link : σ}
    (hread : Link.read chunkSize c.link = (.ok bytes, link))
    (houtgoing : outgoing link = outgoing c.link) (hawaiting : h.awaiting = true)
    (hrest : incoming link ≠ []) (hfield : field = c.loader.field ++ bytes ++ incoming link)
    (hdialogue : Dialogue { c.loader with field := [] } (field :: h.fields) progress
      (.fresh limits model))
    (hprograms : ∀ p ∈ h.programs, p.setpoints.length < 4294967296) :
    c.watch.1.Silent ∧
      Standing limits model c.watch.2 (h.hear c.watch.1.written)
        ((field :: h.fields).zip progress ++ exchanges limits model h.programs)
        (c.loader.field ++ c.watch.1.read) := by
  have hshort : (c.loader.field ++ bytes).length < c.loader.stage.fieldSize := by
    have hlength : field.length = c.loader.stage.fieldSize := hdialogue.length_head
    have hpos := List.length_pos_iff.mpr hrest
    rw [hfield, List.length_append] at hlength
    omega
  rw [watch_of_silent hread houtgoing (Loader.feed_part hshort)]
  exact ⟨⟨rfl, rfl⟩, .awaiting (c := ⟨link, { c.loader with field := c.loader.field ++ bytes }⟩)
    hawaiting hrest hfield hdialogue hprograms⟩

/-- A look that reads the last of the field under way. The host hears the answer and is free. -/
theorem watch_of_last {field bytes : List UInt8} {progress : List Progress} {link : σ}
    (hread : Link.read chunkSize c.link = (.ok bytes, link))
    (houtgoing : outgoing link = outgoing c.link) (hrest : incoming link = [])
    (hbytes : bytes ≠ []) (hfield : field = c.loader.field ++ bytes)
    (hdialogue : Dialogue { c.loader with field := [] } (field :: h.fields) progress
      (.fresh limits model))
    (hprograms : ∀ p ∈ h.programs, p.setpoints.length < 4294967296) :
    ∃ exchange more,
      (field :: h.fields).zip progress ++ exchanges limits model h.programs = exchange :: more ∧
      c.watch.1.read ≠ [] ∧ c.loader.field ++ c.watch.1.read = exchange.1 ∧
      c.watch.1.written = exchange.2.reply ∧ c.watch.1.result = .ok exchange.2.script? ∧
      Standing limits model c.watch.2 (h.hear c.watch.1.written) more [] := by
  have hfull : (c.loader.field ++ bytes).length = c.loader.stage.fieldSize :=
    hfield ▸ hdialogue.length_head
  have hroom : c.loader.field.length < c.loader.stage.fieldSize := by
    have hpos := List.length_pos_iff.mpr hbytes
    rw [← hfull, List.length_append]
    omega
  have hfeed := Loader.feed_last hroom hfull
  rw [← hfield] at hfeed
  obtain ⟨link', hwatch, hincoming⟩ := watch_of_field hread houtgoing hfeed
  rw [hrest] at hincoming
  rw [hwatch, Host.hear_reply]
  cases hdialogue with
  | refused rest _ hconclude hrefused =>
      rw [Loader.conclude_keep] at hconclude
      rw [hconclude, hrefused, List.zip_cons_cons, List.zip_nil_right]
      refine ⟨_, _, rfl, hbytes, hfield.symm, rfl, rfl, ?_⟩
      exact .free (c := ⟨link', .fresh limits model⟩) (h := ⟨h.programs, [], false⟩) rfl
        hincoming rfl (.nil _) hprograms
  | @accepted _ l' _ _ _ progress further _ hconclude haccepted hdialogue =>
      rw [Loader.conclude_keep] at hconclude
      have hnext := c.loader.conclude_field field
      rw [hconclude] at hnext
      rw [hconclude, haccepted, List.zip_cons_cons]
      refine ⟨_, _, rfl, hbytes, hfield.symm, rfl, rfl, ?_⟩
      exact .free (c := ⟨link', l'⟩) (h := ⟨h.programs, h.fields, false⟩) rfl
        hincoming hnext hdialogue hprograms

theorem Standing.watch (hs : Standing limits model c h todo part) :
    (c.watch.1.Silent ∧ Standing limits model c.watch.2 (h.hear c.watch.1.written) todo
      (part ++ c.watch.1.read)) ∨
    ∃ exchange more, todo = exchange :: more ∧ c.watch.1.read ≠ [] ∧
      part ++ c.watch.1.read = exchange.1 ∧ c.watch.1.written = exchange.2.reply ∧
      c.watch.1.result = .ok exchange.2.script? ∧
      Standing limits model c.watch.2 (h.hear c.watch.1.written) more [] := by
  obtain ⟨bytes, link, hread, -, hbytes, houtgoing⟩ := read_spec chunkSize c.link
  cases hs with
  | free hawaiting hincoming hfield hdialogue hprograms =>
      rw [hincoming] at hbytes
      obtain ⟨rfl, hrest⟩ := List.append_eq_nil_iff.mp hbytes.symm
      rw [watch_of_silent hread houtgoing rfl]
      exact Or.inl ⟨⟨rfl, rfl⟩, .free hawaiting hrest hfield hdialogue hprograms⟩
  | awaiting hawaiting hincoming hfield hdialogue hprograms =>
      rw [hbytes] at hincoming hfield
      by_cases hrest : incoming link = []
      · rw [hrest, List.append_nil] at hincoming hfield
        exact Or.inr (watch_of_last hread houtgoing hrest hincoming hfield hdialogue hprograms)
      · rw [← List.append_assoc] at hfield
        exact Or.inl (watch_of_part hread houtgoing hawaiting hrest hfield hdialogue hprograms)

/-! ### Runs -/

/-- What a session has come to: rounds for the first exchanges, then looks that have read a part of
the next field and said nothing. -/
def Session.Served (limits : Limits) (model : ThermalModel) (programs : List Program)
    (s : Session σ) : Prop :=
  ∃ (done todo : List (List UInt8 × Progress)) (rounds : List (List Poll)) (rest : List Poll),
    exchanges limits model programs = done ++ todo ∧ s.polls = rounds.flatten ++ rest ∧
    List.Forall₂ Round done rounds ∧ (∀ poll ∈ rest, poll.Silent) ∧
    Standing limits model s.console s.host todo (rest.flatMap Poll.read)

theorem Session.Served.make {programs : List Program} {s : Session σ}
    (hs : s.Served limits model programs) (move : Move) :
    (s.make move).Served limits model programs := by
  obtain ⟨done, todo, rounds, rest, hsplit, hpolls, hrounds, hsilent, hstanding⟩ := hs
  cases move with
  | turn => exact ⟨done, todo, rounds, rest, hsplit, hpolls, hrounds, hsilent, hstanding.turn⟩
  | poll =>
      rcases hstanding.watch with ⟨hpoll, hnext⟩ | ⟨exchange, more, rfl, hread, hwhole, hwritten,
        hresult, hnext⟩
      · refine ⟨done, todo, rounds, rest ++ [s.console.watch.1], hsplit, ?_, hrounds, ?_, ?_⟩
        · change s.polls ++ [s.console.watch.1] = _
          rw [hpolls, List.append_assoc]
        · exact List.forall_mem_append.mpr ⟨hsilent, List.forall_mem_singleton.mpr hpoll⟩
        · rwa [List.flatMap_append, List.flatMap_singleton]
      · refine ⟨done ++ [exchange], more, rounds ++ [rest ++ [s.console.watch.1]], [], ?_, ?_, ?_, ?_,
          hnext⟩
        · rw [hsplit, List.append_assoc, List.singleton_append]
        · change s.polls ++ [s.console.watch.1] = _
          rw [hpolls, List.flatten_append, List.flatten_singleton, List.append_nil,
            List.append_assoc]
        · refine List.rel_append hrounds (.cons ?_ .nil)
          refine ⟨rest, s.console.watch.1, rfl, hsilent, hread, ?_, hwritten, hresult⟩
          rwa [List.flatMap_append, List.flatMap_singleton]
        · exact List.forall_mem_nil _

theorem Session.served_start (limits : Limits) (model : ThermalModel) {programs : List Program}
    {link : σ} (hprograms : ∀ p ∈ programs, p.setpoints.length < 4294967296)
    (hlink : incoming link = []) :
    (start limits model programs link).Served limits model programs := by
  refine ⟨[], exchanges limits model programs, [], [], rfl, rfl, .nil, ?_, ?_⟩
  · exact List.forall_mem_nil _
  · exact .free (c := ⟨link, .fresh limits model⟩) (h := ⟨programs, [], false⟩) rfl hlink rfl
      (.nil _) hprograms

theorem Session.Served.run {programs : List Program} {s : Session σ}
    (hs : s.Served limits model programs) (moves : List Move) :
    (s.run moves).Served limits model programs := by
  induction moves generalizing s with
  | nil => exact hs
  | cons move rest ih => exact ih (hs.make move)

/-- Between two moves either nothing is on its way, or one field is, a part of it read and the rest
of it still to come. -/
theorem Standing.under_way (hs : Standing limits model c h todo part) :
    (h.awaiting = false ∧ incoming c.link = [] ∧ part = [] ∧
      (h.fields = [] → h.programs = [] → todo = [])) ∨
    (h.awaiting = true ∧ incoming c.link ≠ [] ∧
      ∃ exchange more, todo = exchange :: more ∧ exchange.1 = part ++ incoming c.link) := by
  cases hs with
  | free hawaiting hincoming hfield hdialogue hprograms =>
      refine Or.inl ⟨hawaiting, hincoming, rfl, ?_⟩
      intro hfields hnone
      rw [hfields, hnone]
      rfl
  | @awaiting field progress hawaiting hincoming hfield hdialogue hprograms =>
      refine Or.inr ⟨hawaiting, hincoming, ?_⟩
      cases hdialogue with
      | refused => exact ⟨_, _, rfl, hfield⟩
      | accepted => exact ⟨_, _, rfl, hfield⟩

/-- A session serves the programs in turn, each as its verdict says, field by field, with one answer
for each field and nothing written otherwise. -/
theorem stop_and_wait (limits : Limits) (model : ThermalModel) {programs : List Program} (link : σ)
    (moves : List Move) (hprograms : ∀ p ∈ programs, p.setpoints.length < 4294967296)
    (hlink : incoming link = []) :
    let s := (Session.start limits model programs link).run moves
    (∀ p ∈ programs, p.Verdict limits model (p.progress limits model)) ∧
    ∃ (done todo : List (List UInt8 × Progress)) (rounds : List (List Poll)) (rest : List Poll),
      (programs.flatMap fun p => p.fields.zip (p.progress limits model)) = done ++ todo ∧
      s.polls = rounds.flatten ++ rest ∧
      List.Forall₂ Round done rounds ∧
      (∀ poll ∈ rest, poll.Silent) ∧
      ((s.host.awaiting = false ∧ incoming s.console.link = [] ∧ rest.flatMap Poll.read = [] ∧
          (s.host.fields = [] → s.host.programs = [] → todo = [])) ∨
        (s.host.awaiting = true ∧ incoming s.console.link ≠ [] ∧
          ∃ exchange more, todo = exchange :: more ∧
            exchange.1 = rest.flatMap Poll.read ++ incoming s.console.link)) := by
  intro s
  obtain ⟨done, todo, rounds, rest, hsplit, hpolls, hrounds, hsilent, hstanding⟩ :=
    (Session.served_start limits model hprograms hlink).run moves
  exact ⟨fun p _ => p.verdict_progress limits model, done, todo, rounds, rest, hsplit, hpolls,
    hrounds, hsilent, hstanding.under_way⟩

/-! ### A pipe -/

/-- A link that moves few bytes at a time: no read brings and no write takes more than a slice and
one byte. -/
structure Pipe where
  arrived : List UInt8
  written : List UInt8
  slice : Nat

instance : ReliableLink Pipe where
  read size l :=
    (.ok (l.arrived.take (min size (l.slice + 1))),
      { l with arrived := l.arrived.drop (min size (l.slice + 1)) })
  write data l :=
    (.ok (min data.length (l.slice + 1)),
      { l with written := l.written ++ data.take (min data.length (l.slice + 1)) })
  flush l := (.ok (), l)
  incoming := Pipe.arrived
  outgoing := Pipe.written
  send bytes l := { l with arrived := l.arrived ++ bytes }
  incoming_send _ _ := rfl
  outgoing_send _ _ := rfl
  read_spec size l := by
    refine ⟨_, _, rfl, ?_, (List.take_append_drop ..).symm, rfl⟩
    rw [List.length_take]
    omega
  write_spec data l hdata := by
    have hpos := List.length_pos_iff.mpr hdata
    exact ⟨_, _, rfl, by omega, Nat.min_le_left .., rfl, rfl⟩
  flush_spec l := ⟨l, rfl, rfl, rfl⟩

/-- Through a narrow pipe a program without a phase is given up after two fields, and the next one
is taken in its seven. -/
theorem stop_and_wait_of_pipe :
    let programs : List Program := [⟨.initialising, 0, []⟩, ⟨.sparging, 0, [.ofCelsius 70 1000]⟩]
    let moves := (List.replicate 12 [Move.turn, .poll, .poll]).flatten
    let s := (Session.start ⟨0, 79⟩ .standard programs (⟨[], [], 2⟩ : Pipe)).run moves
    (∀ p ∈ programs, p.setpoints.length < 4294967296) ∧
      ∃ (rounds : List (List Poll)) (rest : List Poll), s.polls = rounds.flatten ++ rest ∧
        List.Forall₂ Round (exchanges ⟨0, 79⟩ .standard programs) rounds ∧ rounds.length = 9 ∧
        ∀ poll ∈ rest, poll.Silent := by
  intro programs moves s
  have hprograms : ∀ p ∈ programs, p.setpoints.length < 4294967296 := by decide +kernel
  have hfinished : s.host.awaiting = false ∧ s.host.fields = [] ∧ s.host.programs = [] := by
    decide +kernel
  obtain ⟨-, done, todo, rounds, rest, hsplit, hpolls, hrounds, hsilent, hstate⟩ :=
    stop_and_wait ⟨0, 79⟩ .standard (⟨[], [], 2⟩ : Pipe) moves hprograms rfl
  have htodo : todo = [] := by
    rcases hstate with ⟨-, -, -, hall⟩ | ⟨hawaiting, -⟩
    · exact hall hfinished.2.1 hfinished.2.2
    · exact absurd (hfinished.1.symm.trans hawaiting) Bool.false_ne_true
  rw [htodo, List.append_nil] at hsplit
  refine ⟨hprograms, rounds, rest, hpolls, ?_, ?_, hsilent⟩
  · rw [exchanges, hsplit]
    exact hrounds
  · rw [← hrounds.length_eq, ← hsplit]
    decide +kernel

end Brewhouse.Console
