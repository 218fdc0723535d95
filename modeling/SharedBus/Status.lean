/-!
# Outcomes of a submission

A request is `pending` from its submission until it is retired with one of the
three terminal outcomes.
-/

namespace SharedBus

/-- The byte that was left without acknowledgement. -/
inductive Unacknowledged where
  | address
  | data
  | unknown
  deriving DecidableEq, Repr

inductive Fault where
  | bus
  | arbitrationLoss
  | noAcknowledge (byte : Unacknowledged)
  | overrun
  | other
  deriving DecidableEq, Repr

inductive Status where
  | pending
  | ok
  /-- Given up after the bus timeout. -/
  | timeout
  | failed (fault : Fault)
  deriving DecidableEq, Repr

namespace Status

def isPending (s : Status) : Bool := s == .pending

/-- Success, or the status itself as the reason that there is none. -/
def toExcept : Status → Except Status Unit
  | .ok => .ok ()
  | s => .error s

@[simp] theorem isPending_iff {s : Status} : s.isPending = true ↔ s = .pending := by
  simp [isPending]

@[simp] theorem isPending_eq_false {s : Status} : s.isPending = false ↔ s ≠ .pending := by
  simp [isPending]

theorem toExcept_eq (s : Status) : s.toExcept = if s = .ok then .ok () else .error s := by
  cases s <;> rfl

end Status

end SharedBus
