import SharedBus.Bus.Wait

/-!
# Submitting requests

A call that fails yields an error and no bus, so that it cannot have changed
one. `request` and the three calls made of it wait for the last submission of
their request first, with a limit on the ticks they may spend, and have a bus to
show even when they fail.
-/

namespace SharedBus.Bus

variable {σ : Type} [Platform σ]

omit [Platform σ] in
def configure (b : Bus σ) (r : RequestId) (c : Command) : Except Error (Bus σ) := do
  let q ← (b.requests r).configure c
  return (b.setRequest r q).note (.configured r c)

omit [Platform σ] in
/-- The first half of a submission: the request is pending but not yet queued. -/
def arm (b : Bus σ) (r : RequestId) : Except Error (Bus σ) := do
  let q ← (b.requests r).arm
  return { b with queue := b.queue.link r none }.setRequest r q

/-- The second half of a submission: the request is queued, and begun if it is
alone. -/
def enqueue (b : Bus σ) (r : RequestId) : Bus σ :=
  ({ b with queue := b.queue.pushBack r }.note (.accepted r)).startNext

def submit (b : Bus σ) (r : RequestId) : Except Error (Bus σ) := do
  let b ← b.arm r
  return b.enqueue r

def place (b : Bus σ) (r : RequestId) (command : Except Error Command) : Except Error (Bus σ) := do
  let c ← command
  let b ← b.configure r c
  b.submit r

/-- Places `r` once its last submission is over. -/
def request (b : Bus σ) (limit : Nat) (r : RequestId) (command : Except Error Command) :
    Option (Except Error Unit × Bus σ) := do
  let (_, b) ← b.wait r limit
  match b.place r command with
  | .ok b' => return (.ok (), b')
  | .error e => return (.error e, b)

def write (b : Bus σ) (limit : Nat) (r : RequestId) (address : UInt8) (data : List UInt8) :
    Option (Except Error Unit × Bus σ) :=
  b.request limit r (Command.copying address data)

/-- A write of any length from storage that never changes. -/
def writeFixed (b : Bus σ) (limit : Nat) (r : RequestId) (address : UInt8) (data : List UInt8) :
    Option (Except Error Unit × Bus σ) :=
  b.request limit r (.ok (.writeFixed address data))

/-- A read of `length` bytes, after a write of `lead` unless that is empty. -/
def read (b : Bus σ) (limit : Nat) (r : RequestId) (address : UInt8) (length : Nat)
    (lead : List UInt8) : Option (Except Error Unit × Bus σ) :=
  b.request limit r (Command.reading address length lead)

/-! ### Polling -/

omit [Platform σ] in
/-- The first half of a poll: `l` is the listener of `r` from now on. -/
def listen (b : Bus σ) (r : RequestId) (l : ListenerId) : Bus σ :=
  (b.setRequest r ((b.requests r).listen l)).note (.polled r l)

omit [Platform σ] in
/-- The second half of a poll: the outcome of `r`, if there is one. -/
def outcome? (b : Bus σ) (r : RequestId) : Option Status :=
  let status := (b.requests r).status
  if status.isPending then none else some status

omit [Platform σ] in
def poll (b : Bus σ) (r : RequestId) (l : ListenerId) : Option Status × Bus σ :=
  let b := b.listen r l
  (b.outcome? r, b)

omit [Platform σ] in
theorem outcome?_eq_none_iff {b : Bus σ} {r : RequestId} :
    b.outcome? r = none ↔ (b.requests r).status = .pending := by
  simp [outcome?]

omit [Platform σ] in
theorem outcome?_of_idle {b : Bus σ} {r : RequestId} (h : (b.requests r).status ≠ .pending) :
    b.outcome? r = some (b.requests r).status := by
  simp [outcome?, h]

omit [Platform σ] in
@[simp] theorem history_listen (b : Bus σ) (r : RequestId) (l : ListenerId) :
    (b.listen r l).history = .polled r l :: b.history := rfl

omit [Platform σ] in
theorem outcome?_listen (b : Bus σ) (r s : RequestId) (l : ListenerId) :
    (b.listen r l).outcome? s = b.outcome? s := by
  have hstatus : ((b.listen r l).requests s).status = (b.requests s).status := by
    change ((b.setRequest r ((b.requests r).listen l)).requests s).status = (b.requests s).status
    by_cases hs : s = r
    · subst s
      rw [requests_setRequest_self]
      rfl
    · rw [requests_setRequest_of_ne b _ hs]
  simp only [outcome?, hstatus]

omit [Platform σ] in
theorem poll_eq (b : Bus σ) (r : RequestId) (l : ListenerId) :
    b.poll r l = (b.outcome? r, b.listen r l) := by
  rw [poll, outcome?_listen]

end SharedBus.Bus
