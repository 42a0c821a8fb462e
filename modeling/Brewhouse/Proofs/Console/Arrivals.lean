import Brewhouse.Console.Basic

/-!
What has arrived on a link and was not read yet. Bytes may arrive at any time, they are read in the order
in which they have arrived, and writing reads none. So an answer of the operator's is the first byte that
is in the queue when he is asked, or else the first one that arrives from then on.
-/

namespace Brewhouse

/-- A link with a queue. What arrives while a call is under way is behind what was there before; a read
takes from the front, and a call that fails or writes takes nothing. -/
class QueueLink (σ : Type) extends Link σ where
  /-- What has arrived and was not read yet. -/
  queued : σ → List UInt8
  read_ok {size : Nat} {l l' : σ} {bytes : List UInt8} (h : read size l = (.ok bytes, l')) :
    bytes.length ≤ size ∧ ∃ arrived, queued l ++ arrived = bytes ++ queued l'
  read_error {size : Nat} {l l' : σ} {fault : LinkFault} (h : read size l = (.error fault, l')) :
    ∃ arrived, queued l ++ arrived = queued l'
  write_keeps (data : List UInt8) (l : σ) : ∃ arrived, queued l ++ arrived = queued (write data l).2
  flush_keeps (l : σ) : ∃ arrived, queued l ++ arrived = queued (flush l).2

namespace QueueLink

variable {σ : Type} [QueueLink σ]

/-- Between two states of a link the given bytes were read, and some may have arrived. -/
def Flows (l : σ) (taken : List UInt8) (l' : σ) : Prop :=
  ∃ arrived, queued l ++ arrived = taken ++ queued l'

theorem Flows.refl (l : σ) : Flows l [] l :=
  ⟨[], List.append_nil _⟩

theorem Flows.trans {l l' l'' : σ} {first second : List UInt8} (h : Flows l first l')
    (h' : Flows l' second l'') : Flows l (first ++ second) l'' := by
  obtain ⟨arrived, h⟩ := h
  obtain ⟨arrived', h'⟩ := h'
  refine ⟨arrived ++ arrived', ?_⟩
  rw [← List.append_assoc, h, List.append_assoc, h', List.append_assoc]

/-- The byte that was taken has arrived since, or else it was the first in the queue. -/
theorem Flows.released {l l' : σ} {byte : UInt8} (h : Flows l [byte] l') :
    ∃ arrived, (queued l = [] ∧ arrived = byte :: queued l') ∨
      ∃ rest, queued l = byte :: rest ∧ queued l' = rest ++ arrived := by
  obtain ⟨arrived, h⟩ := h
  refine ⟨arrived, ?_⟩
  cases hqueued : queued l with
  | nil =>
      rw [hqueued] at h
      exact Or.inl ⟨rfl, h⟩
  | cons oldest rest =>
      rw [hqueued] at h
      obtain ⟨rfl, hrest⟩ := List.cons.inj h
      exact Or.inr ⟨rest, rfl, hrest.symm⟩

/-! ### Writing -/

theorem flows_writeAll (data : List UInt8) (l : σ) : Flows l [] (Link.writeAll data l).2 := by
  induction data, l using Link.writeAll.induct with
  | case1 data l hempty =>
      rw [Link.writeAll, if_pos hempty]
      exact .refl l
  | case2 data l hsome fault l' hwrite =>
      rw [Link.writeAll, if_neg hsome, hwrite]
      have hkeeps := write_keeps data l
      rwa [hwrite] at hkeeps
  | case3 data l hsome l' hwrite =>
      rw [Link.writeAll, if_neg hsome, hwrite]
      have hkeeps := write_keeps data l
      rwa [hwrite] at hkeeps
  | case4 data l hsome taken l' hwrite ih =>
      rw [Link.writeAll, if_neg hsome, hwrite]
      have hkeeps : Flows l [] (Link.write data l).2 := write_keeps data l
      rw [hwrite] at hkeeps
      exact hkeeps.trans ih

theorem flows_writeLine (line : List UInt8) (l : σ) : Flows l [] (Link.writeLine line l).2 := by
  have hline := flows_writeAll line l
  unfold Link.writeLine
  rcases hwrite : Link.writeAll line l with ⟨_ | _, l₁⟩ <;> rw [hwrite] at hline
  · exact hline
  have hend := hline.trans (flows_writeAll Link.lineEnd l₁)
  dsimp only
  rcases hwrite' : Link.writeAll Link.lineEnd l₁ with ⟨_ | _, l₂⟩ <;> rw [hwrite'] at hend
  · exact hend
  · exact hend.trans (flush_keeps l₂)

end QueueLink

namespace Console

open QueueLink

variable {σ : Type} [QueueLink σ]

theorem flows_emit (c : Console σ) (event : Event) : Flows c.link [] (c.emit event).value.link := by
  unfold emit
  cases eventLine? event with
  | none => exact .refl c.link
  | some line =>
      have hline := flows_writeLine (lineBytes line) c.link
      dsimp only
      rcases hwrite : Link.writeLine (lineBytes line) c.link with ⟨_ | _, l'⟩ <;>
        rw [hwrite] at hline <;> exact hline

/-! ### Waiting for the operator -/

def Look.bytes : Look → Nat
  | .answered => 1
  | _ => 0

theorem flows_look (l : σ) :
    ∃ taken, Flows l taken (look l).2 ∧ taken.length = (look l).1.bytes := by
  unfold look
  rcases hread : Link.read 1 l with ⟨fault | bytes, l'⟩
  · exact ⟨[], read_error hread, rfl⟩
  · obtain ⟨hsize, hflows⟩ := read_ok hread
    match bytes with
    | [] => exact ⟨[], hflows, rfl⟩
    | [byte] => exact ⟨[byte], hflows, rfl⟩

/-- A wait that has come to its end has taken one byte, and one that goes on has taken none. -/
theorem flows_awaitAnswer (patience : Nat) (l : σ) :
    ∃ taken, Flows l taken (awaitAnswer patience l).link ∧
      taken.length = if (awaitAnswer patience l).answered then 1 else 0 := by
  induction patience generalizing l with
  | zero => exact ⟨[], .refl l, rfl⟩
  | succ patience ih =>
      obtain ⟨first, hfirst, hlength⟩ := flows_look l
      unfold awaitAnswer
      rcases hlook : look l with ⟨answered | silent | fault, l'⟩ <;> rw [hlook] at hfirst hlength
      · exact ⟨first, hfirst, hlength⟩
      all_goals
        obtain ⟨taken, htaken, hanswered⟩ := ih l'
        rw [List.length_eq_zero_iff.mp hlength] at hfirst
        exact ⟨taken, hfirst.trans htaken, hanswered⟩

/-- The byte that has released a wait was the first in the queue, or nothing was queued. -/
theorem released_of_answered {patience : Nat} {l : σ}
    (h : (awaitAnswer patience l).answered = true) :
    ∃ byte arrived,
      (queued l = [] ∧ arrived = byte :: queued (awaitAnswer patience l).link) ∨
        ∃ rest, queued l = byte :: rest ∧ queued (awaitAnswer patience l).link = rest ++ arrived := by
  obtain ⟨taken, htaken, hlength⟩ := flows_awaitAnswer patience l
  rw [if_pos h] at hlength
  obtain ⟨byte, rfl⟩ := List.length_eq_one_iff.mp hlength
  exact ⟨byte, htaken.released⟩

end Console

end Brewhouse
