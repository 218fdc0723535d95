import SharedBus.Transfer

/-!
# Requests

A request outlives its submissions: it can be configured, submitted, retired and
submitted again. While it is pending it can be neither configured nor submitted,
and its received bytes cannot be copied out.
-/

namespace SharedBus

/-- Whoever asked to be told about the completion of a request. -/
abbrev ListenerId := Nat

structure Request where
  command : Command
  /-- Bytes received by the latest read. -/
  received : Buffer
  status : Status
  /-- Bytes moved by the latest submission to be retired. -/
  count : Nat
  /-- The listener woken at each retirement, the latest one to have asked. -/
  listener : Option ListenerId
  deriving DecidableEq, Repr

namespace Request

def fresh : Request := ⟨.blank, .empty, .ok, 0, none⟩

/-- Takes a new command. Only a read clears what the last read received. -/
def configure (q : Request) (c : Command) : Except Error Request :=
  if q.status.isPending then .error .pending
  else .ok { q with command := c, received := if c.isRead then .empty else q.received }

def arm (q : Request) : Except Error Request :=
  if q.status.isPending then .error .pending else .ok { q with status := .pending, count := 0 }

def retire (q : Request) (t : Transfer) (status : Status) : Request :=
  { q with received := .holding t.received.bytes, count := t.byteCount, status := status }

def listen (q : Request) (listener : ListenerId) : Request := { q with listener := some listener }

/-- Copies received bytes over the front of `out`, as many as there are and as
fit, and tells how many. -/
def readInto (q : Request) (out : List UInt8) : Except Error (Nat × List UInt8) :=
  if q.status.isPending then .error .pending
  else
    let n := min out.length q.received.bytes.length
    .ok (n, q.received.bytes.take n ++ out.drop n)

end Request

end SharedBus
