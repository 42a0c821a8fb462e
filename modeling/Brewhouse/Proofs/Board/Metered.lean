import Brewhouse.Proofs.Board.Relays

/-!
Boards on which writes to the relays may fail, with a meter at each relay. The meter shows the level that
the pin is driven to, which is that of the last write that took effect, and whether the last write was one
of these. What fails, and when, is up to the board.
-/

namespace Brewhouse

/-- A board with meters at its relays. -/
structure Metered (β : Type) where
  board : β
  /-- Whether the pin of a relay is driven high. -/
  level : Load → Bool
  /-- Whether the last write to the pin of a relay took effect. -/
  took : Load → Bool

namespace Metered

variable {β : Type}

def Alike (m m' : Metered β) : Prop :=
  m'.level = m.level ∧ m'.took = m.took

/-- The pin of the heater's relay is driven low, unless the last write to it failed. -/
def HeaterLow (m : Metered β) : Prop :=
  m.took .heater = true → m.level .heater = false

theorem HeaterLow.of_alike {m m' : Metered β} (h : m.HeaterLow) (halike : Alike m m') :
    m'.HeaterLow := by
  unfold HeaterLow
  rw [halike.1, halike.2]
  exact h

/-- The board and its meters after a write to the pin of a relay. -/
def meter (m : Metered β) (load : Load) (high done : Bool) (board : β) : Metered β where
  board := board
  level other := if other = load ∧ done then high else m.level other
  took other := if other = load then done else m.took other

variable [Board β]

instance : Board (Metered β) where
  write pin high m :=
    match pin, Board.write pin high m.board with
    | .relay load, (done, board) => (done, m.meter load high done board)
    | _, (done, board) => (done, { m with board })
  read pin m := ((Board.read pin m.board).1, { m with board := (Board.read pin m.board).2 })
  delay what time m := { m with board := Board.delay what time m.board }

theorem relaysOnly_alike : Board.RelaysOnly (Alike : Metered β → Metered β → Prop) where
  refl m := ⟨rfl, rfl⟩
  trans h h' := ⟨h'.1.trans h.1, h'.2.trans h.2⟩
  write pin high m hpin := by
    cases pin with
    | relay load => exact absurd rfl (hpin load)
    | select | clock => exact ⟨rfl, rfl⟩
  read pin m := ⟨rfl, rfl⟩
  delay what time m := ⟨rfl, rfl⟩

theorem heaterLow_of_off (m : Metered β) : (Board.write (.relay .heater) false m).2.HeaterLow := by
  intro htook
  exact if_pos ⟨rfl, htook⟩

theorem HeaterLow.write_pump {m : Metered β} (h : m.HeaterLow) (on : Bool) :
    (Board.write (.relay .pump) on m).2.HeaterLow :=
  h

end Metered

end Brewhouse
