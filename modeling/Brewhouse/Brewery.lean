import Brewhouse.Board.Station
import Brewhouse.Console.Basic

/-!
The brewery: controller, station and console together. What the controller asks for is performed on
the station and the console, action by action.
-/

namespace Brewhouse

structure Brewery (β σ : Type) where
  controller : Controller
  station : Station β
  console : Console σ

namespace Brewery

variable {β σ : Type} [Board β] [Link σ]

/-- A brewery that has been switched on. -/
def install (c : Configuration) (board : β) (link : σ) : Noted (Brewery β σ) := do
  let station ← Station.install board
  pure ⟨.fresh c, station, ⟨link, .fresh c.setpointLimits c.thermalModel⟩⟩

/-- Lets the pauses between a number of looks for the operator pass. -/
def passPolls : Nat → β → β
  | 0, b => b
  | polls + 1, b => passPolls polls (Board.delay .resumePoll Console.resumePoll b)

def pollTime (polls : Nat) : Milliseconds :=
  UInt32.ofNat (min (polls * Console.resumePoll.toNat) 4294967295)

structure Performed (β σ : Type) where
  station : Station β
  console : Console σ
  /-- The times that the operator was waited for, in order. -/
  waits : List Milliseconds
  /-- Whether all has been performed; otherwise the operator is still waited for. -/
  finished : Bool

/-- Performs one action. Readings have been taken beforehand; asking an instrument again here leaves
it in the state it is in after the reading. -/
def perform (patience : Nat) (station : Station β) (console : Console σ) :
    Action → Noted (Performed β σ)
  | .readTemperature vessel => pure ⟨(station.readTemperature vessel).2, console, [], true⟩
  | .readLevel switch => do
    let (_, station) ← station.readLevel switch
    pure ⟨station, console, [], true⟩
  | .allOff => do
    let station ← station.allOff
    pure ⟨station, console, [], true⟩
  | .setHeater duty => do
    let station ← station.setHeater duty
    pure ⟨station, console, [], true⟩
  | .setPump on => do
    let station ← station.setLoad .pump on
    pure ⟨station, console, [], true⟩
  | .awaitResume =>
    let wait := Console.awaitResume patience console.link
    let station := { station with board := passPolls wait.polls station.board }
    ⟨wait.notices, station, { console with link := wait.link }, [pollTime wait.polls],
      wait.answered⟩
  | .emit event => do
    let console ← console.emit event
    pure ⟨station, console, [], true⟩
  | .note notice => ⟨[notice], station, console, [], true⟩

/-- Performs actions in turn, up to a wait that has been given up. -/
def performAll (patience : Nat) (station : Station β) (console : Console σ) :
    List Action → Noted (Performed β σ)
  | [] => pure ⟨station, console, [], true⟩
  | action :: rest => do
    let first ← perform patience station console action
    if first.finished then
      let further ← performAll patience first.station first.console rest
      pure { further with waits := first.waits ++ further.waits }
    else pure first

/-- Follows an order. No order waits for the operator. -/
def obey (b : Brewery β σ) (order : Order) : Noted (Brewery β σ) := do
  let (controller, actions) := b.controller.obey order
  let performed ← performAll 0 b.station b.console actions
  pure ⟨controller, performed.station, performed.console⟩

/-- A tick of the brewery: the brewery after it, what it tells its caller, and whether it came to
its end or the operator is still waited for. -/
structure Ticked (β σ : Type) where
  brewery : Brewery β σ
  outcome? : Option (Except Fault TickOutcome)
  finished : Bool

/-- One tick. The operator is waited for with the given patience. -/
def tick (patience : Nat) (b : Brewery β σ) (elapsed : Milliseconds) : Noted (Ticked β σ) := do
  let t := b.controller.tick elapsed b.station.readings
  let performed ← performAll patience b.station b.console t.actions
  pure
    ⟨⟨t.controller, performed.station, performed.console⟩, t.outcome? performed.waits,
      performed.finished⟩

def poll (b : Brewery β σ) : Noted (Except LinkFault (Option Script) × Brewery β σ) := do
  let (result, console) ← b.console.pollScript
  pure (result, { b with console := console })

end Brewery

end Brewhouse
