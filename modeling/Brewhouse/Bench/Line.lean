import Brewhouse.Console.Basic

/-!
A simulated serial link. Calls can be made to fail, writes to take only a part of what is offered,
and a waiting operator to answer after some looks.
-/

namespace Brewhouse.Bench

structure Line where
  /-- What has arrived and was not read yet. -/
  incoming : List UInt8
  /-- What has been written. -/
  outgoing : List UInt8
  /-- How many calls fail from now on, by kind. -/
  readFaults : Nat
  writeFaults : Nat
  flushFaults : Nat
  /-- The most bytes that one write takes; none if there is no such limit. -/
  writeLimit : Option Nat
  /-- How many looks for a single byte find nothing before the operator answers. -/
  resumeAfter : Nat
  /-- How many such looks there have been. -/
  looks : Nat
  /-- How often a flush succeeded. -/
  flushes : Nat
  deriving DecidableEq, Repr

namespace Line

/-- A link without faults or limits on which nothing has arrived. -/
def idle : Line :=
  ⟨[], [], 0, 0, 0, none, 0, 0, 0⟩

/-- Brings what has arrived. A look for a single byte that finds nothing counts as one more look for
the operator's answer, a line break. -/
def read (count : Nat) (l : Line) : Except LinkFault (List UInt8) × Line :=
  if 0 < l.readFaults then (.error .readFailed, { l with readFaults := l.readFaults - 1 })
  else if count = 1 ∧ l.incoming = [] then
    if l.looks < l.resumeAfter then (.ok [], { l with looks := l.looks + 1 })
    else (.ok [10], { l with looks := 0 })
  else (.ok (l.incoming.take count), { l with incoming := l.incoming.drop count })

def write (data : List UInt8) (l : Line) : Except LinkFault Nat × Line :=
  if 0 < l.writeFaults then (.error .writeFailed, { l with writeFaults := l.writeFaults - 1 })
  else
    let taken := data.take (l.writeLimit.getD data.length)
    (.ok taken.length, { l with outgoing := l.outgoing ++ taken })

def flush (l : Line) : Except LinkFault Unit × Line :=
  if 0 < l.flushFaults then (.error .writeFailed, { l with flushFaults := l.flushFaults - 1 })
  else (.ok (), { l with flushes := l.flushes + 1 })

instance : Link Line where
  read := read
  write := write
  flush := flush

def receive (l : Line) (data : List UInt8) : Line :=
  { l with incoming := l.incoming ++ data }

def takeOutgoing (l : Line) : List UInt8 × Line :=
  (l.outgoing, { l with outgoing := [] })

/-- The patience that a wait on this link needs to come to its end. -/
def patience (l : Line) : Nat :=
  l.readFaults + l.resumeAfter + l.incoming.length + 2

end Line

end Brewhouse.Bench
