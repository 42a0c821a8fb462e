import Brewhouse.Proofs.Brewery.Relays
import Brewhouse.Proofs.Console.Arrivals
import Brewhouse.Proofs.Place

/-!
The operator's consent at a pause. While a script runs nothing but a wait for the operator reads the link,
so what has arrived before a pause is still queued when the pause is told of, and the oldest byte of it is
taken for the consent. The consent is a fresh one only where nothing was queued.
-/

namespace Brewhouse

/-! ### Actions -/

/-- Each wait for the operator comes right after the pause has been told of. -/
def Announced (actions : List Action) : Prop :=
  ∀ before later, actions = before ++ .awaitResume :: later →
    ∃ earlier, before = earlier ++ [.emit .paused]

theorem announced_of_not_mem {actions : List Action} (h : .awaitResume ∉ actions) :
    Announced actions := by
  rintro before later rfl
  exact absurd (by simp) h

theorem Announced.append {some more : List Action} (h : Announced some) (h' : Announced more) :
    Announced (some ++ more) := by
  intro before later hactions
  rcases append_eq_append_cons_iff.mp hactions with ⟨between, hsome, -⟩ | ⟨between, rfl, hmore⟩
  · exact h before between hsome
  · obtain ⟨earlier, rfl⟩ := h' between later hmore
    exact ⟨some ++ earlier, (List.append_assoc ..).symm⟩

theorem announced_pause : Announced (Signal.actions .pause) := by
  rintro (_ | ⟨a, _ | ⟨b, _ | ⟨c, rest⟩⟩⟩) later hactions <;>
    simp only [Signal.actions, List.nil_append, List.cons_append, List.cons.injEq] at hactions
  · obtain ⟨h, -⟩ := hactions
    cases h
  · obtain ⟨-, h, -⟩ := hactions
    cases h
  · obtain ⟨rfl, rfl, -⟩ := hactions
    exact ⟨[.allOff], rfl⟩
  · obtain ⟨-, -, -, h⟩ := hactions
    cases rest <;> simp at h

theorem announced_signals (signals : List Signal) :
    Announced (signals.flatMap Signal.actions) := by
  induction signals with
  | nil => exact announced_of_not_mem (by simp)
  | cons signal rest ih =>
      rw [List.flatMap_cons]
      refine Announced.append ?_ ih
      cases signal with
      | pause => exact announced_pause
      | note notice => exact announced_of_not_mem (by simp [Signal.actions])

namespace Controller

theorem announced_crossed (c : Controller) (x : Sample) : Announced (c.crossed x) :=
  (announced_of_not_mem (by simp)).append (announced_signals _)

theorem announced_tick (c : Controller) (elapsed : Milliseconds) (r : Readings) :
    Announced (c.tick elapsed r).actions := by
  rcases tick_cases c elapsed r with
    ⟨-, h⟩ | ⟨_, -, -, h⟩ | ⟨_, _, -, -, -, h⟩ | ⟨hlt, mash, -, -, -, h⟩ <;> rw [h]
  · exact announced_of_not_mem (by simp)
  · exact announced_of_not_mem (by simp [endFaulty])
  · exact announced_of_not_mem (by simp [endFaulty])
  · have hcrossed := announced_crossed c.counted ⟨elapsed, hlt, mash⟩
    rcases carryOn_cases c.counted ⟨elapsed, hlt, mash⟩ r with
      ⟨_, -, hcarry⟩ | ⟨-, -, hcarry⟩ | ⟨-, -, hcarry⟩ <;> rw [hcarry]
    · exact hcrossed.append (announced_of_not_mem (by simp))
    · exact hcrossed.append (announced_of_not_mem (by simp))
    · rcases endRunning_cases (c.counted.stepped ⟨elapsed, hlt, mash⟩) ⟨elapsed, hlt, mash⟩ r
          (c.counted.crossed ⟨elapsed, hlt, mash⟩) with
        ⟨-, hend⟩ | ⟨_, _, _, _, -, -, -, hactions⟩
      · rw [hend]
        exact hcrossed
      · rw [hactions]
        exact hcrossed.append (announced_of_not_mem (by simp))

theorem awaitResume_not_mem_load (c : Controller) (script : Script) :
    .awaitResume ∉ (c.load script).2 := by
  simp [load]

/-- No order waits for the operator. -/
theorem awaitResume_not_mem_obey (c : Controller) (order : Order) :
    .awaitResume ∉ (c.obey order).2 := by
  cases order with
  | load script => simp [obey, awaitResume_not_mem_load]
  | abort =>
      simp only [obey]
      split <;> simp

end Controller

theorem Console.answered_awaitResume {σ : Type} [Link σ] (patience : Nat) (l : σ) :
    (awaitResume patience l).answered = (awaitAnswer patience l).answered := by
  unfold awaitResume
  dsimp only
  split <;> rfl

namespace Brewery

open QueueLink

variable {β σ : Type} [Board β] [QueueLink σ]

/-! ### Performing actions -/

theorem perform_flows (patience : Nat) (s : Station β) (console : Console σ) {action : Action}
    (h : action ≠ .awaitResume) :
    (perform patience s console action).value.finished = true ∧
      Flows console.link [] (perform patience s console action).value.console.link := by
  cases action with
  | awaitResume => exact absurd rfl h
  | emit event => exact ⟨rfl, Console.flows_emit console event⟩
  | readTemperature | readLevel | allOff | setHeater | setPump | note => exact ⟨rfl, .refl _⟩

/-- Without a wait for the operator nothing is read, and all is performed. -/
theorem performAll_flows (patience : Nat) (s : Station β) (console : Console σ)
    {actions : List Action} (h : .awaitResume ∉ actions) :
    (performAll patience s console actions).value.finished = true ∧
      Flows console.link [] (performAll patience s console actions).value.console.link := by
  induction actions generalizing s console with
  | nil => exact ⟨rfl, .refl _⟩
  | cons action rest ih =>
      rw [List.mem_cons, not_or] at h
      obtain ⟨hfinished, hflows⟩ := perform_flows patience s console (Ne.symm h.1)
      obtain ⟨hrest, hfurther⟩ := ih (perform patience s console action).value.station
        (perform patience s console action).value.console h.2
      rw [performAll_cons, if_pos hfinished]
      exact ⟨hrest, hflows.trans hfurther⟩

/-- Actions with a wait among them come to their end only if the operator answers. -/
theorem answered_of_finished {patience : Nat} {s : Station β} {console : Console σ}
    {before later : List Action}
    (h : (performAll patience s console (before ++ .awaitResume :: later)).value.finished = true) :
    let reached := (performAll patience s console before).value
    reached.finished = true ∧
      (Console.awaitAnswer patience reached.console.link).answered = true := by
  intro reached
  rw [performAll_append] at h
  split at h
  · next hreached =>
      refine ⟨hreached, ?_⟩
      change (performAll patience reached.station reached.console
        (.awaitResume :: later)).value.finished = true at h
      rw [performAll_cons] at h
      rw [← Console.answered_awaitResume]
      split at h
      · next hanswered => exact hanswered
      · exact h
  · next hunfinished => exact absurd h hunfinished

/-! ### Runs without a wait -/

/-- The breweries that come of one by loading scripts, by orders and by ticks that do not wait for the
operator. Bytes may arrive between any two of them. -/
inductive Unasked (start : Brewery β σ) : Brewery β σ → Prop where
  | start : Unasked start start
  | arrival {b : Brewery β σ} (link : σ) : Unasked start b → Flows b.console.link [] link →
      Unasked start { b with console := { b.console with link := link } }
  | load {b : Brewery β σ} (script : Script) : Unasked start b →
      Unasked start (b.answer 0 (.load script)).1
  | order {b : Brewery β σ} (order : Order) : Unasked start b → Unasked start (b.obey order).value
  | tick {b : Brewery β σ} (patience : Nat) (elapsed : Milliseconds) : Unasked start b →
      .awaitResume ∉ (b.controller.tick elapsed b.station.readings).actions →
      Unasked start (b.tick patience elapsed).value.brewery

theorem Unasked.flows {start b : Brewery β σ} (h : Unasked start b) :
    Flows start.console.link [] b.console.link := by
  induction h with
  | start => exact .refl _
  | arrival link _ harrival ih => exact ih.trans harrival
  | @load b script _ ih =>
      exact ih.trans
        (performAll_flows 0 _ _ (Controller.awaitResume_not_mem_load b.controller script)).2
  | @order b order _ ih =>
      exact ih.trans
        (performAll_flows 0 _ _ (Controller.awaitResume_not_mem_obey b.controller order)).2
  | tick patience elapsed _ hunasked ih => exact ih.trans (performAll_flows patience _ _ hunasked).2

end Brewery

/-! ### A terminal -/

/-- A link to a terminal: what is typed arrives at the next look, and what is written is shown. -/
structure Terminal where
  arrived : List UInt8
  /-- What is typed from one look to the next. -/
  typed : List (List UInt8)
  shown : List UInt8

instance : QueueLink Terminal where
  read size l :=
    let arrived := l.arrived ++ l.typed.headD []
    (.ok (arrived.take size), { l with arrived := arrived.drop size, typed := l.typed.tail })
  write data l := (.ok data.length, { l with shown := l.shown ++ data })
  flush l := (.ok (), l)
  queued := Terminal.arrived
  read_ok h := by
    cases h
    exact ⟨List.length_take_le .., _, (List.take_append_drop ..).symm⟩
  read_error h := by cases h
  write_keeps _ _ := ⟨[], List.append_nil _⟩
  flush_keeps _ := ⟨[], List.append_nil _⟩

end Brewhouse
