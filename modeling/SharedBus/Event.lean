import SharedBus.Request

/-!
# What happens on a bus

The entries of a bus's history. The first group are the calls made on the
platform, the second what they mean to the requests.
-/

namespace SharedBus

inductive Event where
  | reset
  | clockSet (hz : Nat)
  | closed
  /-- A transfer was begun; it is given as the platform saw it, before its stamp. -/
  | begun (transfer : Transfer)
  | serviced (before : Transfer) (actions : List Action) (after : Transfer)
  | broughtUp
  | shutDown
  | configured (request : RequestId) (command : Command)
  | accepted (request : RequestId)
  /-- A transfer left the bus, and `status` went to its request. -/
  | retired (transfer : Transfer) (status : Status)
  /-- A transfer was given up after the timeout and the hardware reset. -/
  | recovered
  | polled (request : RequestId) (listener : ListenerId)
  deriving DecidableEq, Repr

/-- Latest event first. -/
abbrev History := List Event

end SharedBus
