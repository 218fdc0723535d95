import SharedBus.Command
import SharedBus.Status
import SharedBus.Time

/-!
# Transfers

A transfer is a command on the bus: the copy taken from the request when it was
begun, and how far it has come. The hardware drives it with three actions, and
what each answers depends on the transfer alone. A hardware event is a list of
such actions: a driver that looks at one answer before it decides on the next
action still performs some list of them.
-/

namespace SharedBus

abbrev RequestId := Nat

structure Transfer where
  request : RequestId
  command : Command
  /-- How many bytes have been handed out. -/
  sent : Nat
  /-- The bytes that have not. -/
  unsent : List UInt8
  received : Buffer
  status : Status
  /-- When it was begun; zero until then. -/
  startedAt : Ticks
  deriving DecidableEq, Repr

inductive Action where
  /-- Ask for the next byte to put on the bus. -/
  | send
  | receive (byte : UInt8)
  | complete (status : Status)
  deriving DecidableEq, Repr

inductive Answer where
  | sent (byte : Option UInt8)
  | received (taken : Bool)
  | completed (status : Status)
  deriving DecidableEq, Repr

namespace Answer

def byte? : Answer → Option UInt8
  | .sent byte => byte
  | .received _ | .completed _ => none

def taken : Answer → Bool
  | .received taken => taken
  | .sent _ | .completed _ => false

end Answer

namespace Transfer

def ofCommand (request : RequestId) (command : Command) : Transfer :=
  ⟨request, command, 0, command.data, Buffer.empty, .pending, 0⟩

def stamp (t : Transfer) (now : Ticks) : Transfer := { t with startedAt := now }

def unread (t : Transfer) : Nat := t.command.readLength - t.received.bytes.length

/-- The next byte to send; `none` once the write phase is over. -/
def send (t : Transfer) : Option UInt8 × Transfer :=
  match t.unsent with
  | [] => (none, t)
  | byte :: rest => (some byte, { t with sent := t.sent + 1, unsent := rest })

/-- Stores a byte, or drops it when the read phase is over. -/
def receive (t : Transfer) (byte : UInt8) : Bool × Transfer :=
  if t.unread = 0 then (false, t)
  else match t.received.push? byte with
    | some received => (true, { t with received := received })
    | none => (false, t)

/-- Sets the outcome. The first terminal one stays. -/
def complete (t : Transfer) (status : Status) : Transfer :=
  if t.status.isPending then { t with status := status } else t

/-- The count that the request reports: bytes received by a read, sent by a write. -/
def byteCount (t : Transfer) : Nat :=
  if t.command.isRead then t.received.bytes.length else t.sent

def perform (t : Transfer) : Action → Answer × Transfer
  | .send => (.sent t.send.1, t.send.2)
  | .receive byte => (.received (t.receive byte).1, (t.receive byte).2)
  | .complete status => (.completed (t.complete status).status, t.complete status)

def advance (t : Transfer) (actions : List Action) : Transfer :=
  actions.foldl (fun t a => (t.perform a).2) t

def answers (t : Transfer) : List Action → List Answer
  | [] => []
  | a :: actions => (t.perform a).1 :: (t.perform a).2.answers actions

@[simp] theorem advance_nil (t : Transfer) : t.advance [] = t := rfl

@[simp] theorem advance_cons (t : Transfer) (a : Action) (actions : List Action) :
    t.advance (a :: actions) = (t.perform a).2.advance actions := rfl

theorem advance_append (t : Transfer) (xs ys : List Action) :
    t.advance (xs ++ ys) = (t.advance xs).advance ys := List.foldl_append

theorem answers_append (t : Transfer) (xs ys : List Action) :
    t.answers (xs ++ ys) = t.answers xs ++ (t.advance xs).answers ys := by
  induction xs generalizing t with
  | nil => rfl
  | cons a xs ih => simp [answers, ih]

end Transfer

end SharedBus
