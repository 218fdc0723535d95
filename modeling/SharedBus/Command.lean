import SharedBus.Buffer
import SharedBus.Error

/-!
# Commands

What a request asks of the bus: where to, which bytes to send, how many to
receive. Bytes handed over for copying are limited by the buffer they are copied
into, and so is the length of a read; a write from fixed storage has no limit.
-/

namespace SharedBus

inductive Operation where
  | write
  /-- A write straight from storage that never changes. -/
  | writeFixed
  | read
  /-- A write followed by a read under a repeated start. -/
  | writeThenRead
  deriving DecidableEq, Repr

def Operation.isRead : Operation → Bool
  | .read | .writeThenRead => true
  | .write | .writeFixed => false

inductive Command where
  | write (address : UInt8) (data : Buffer)
  | writeFixed (address : UInt8) (data : List UInt8)
  /-- `length` bytes are read once `lead` has been sent. -/
  | read (address : UInt8) (length : Nat) (lead : Buffer)
  deriving DecidableEq, Repr

namespace Command

def blank : Command := .write 0 Buffer.empty

def address : Command → UInt8
  | .write address _ | .writeFixed address _ | .read address _ _ => address

def operation : Command → Operation
  | .write .. => .write
  | .writeFixed .. => .writeFixed
  | .read _ _ lead => if lead.bytes.isEmpty then .read else .writeThenRead

def data : Command → List UInt8
  | .write _ data => data.bytes
  | .writeFixed _ data => data
  | .read _ _ lead => lead.bytes

def readLength : Command → Nat
  | .write .. | .writeFixed .. => 0
  | .read _ length _ => length

def isRead : Command → Bool
  | .write .. | .writeFixed .. => false
  | .read .. => true

def checkLength (length : Nat) : Except Error Unit :=
  if length ≤ Buffer.capacity then .ok () else .error (.bufferTooLong length Buffer.capacity)

/-- A write of a copy of `data`. -/
def copying (address : UInt8) (data : List UInt8) : Except Error Command := do
  checkLength data.length
  return .write address (Buffer.holding data)

/-- A read of `length` bytes after a write of a copy of `lead`. Of two lengths
past the limit the read's is the one reported. -/
def reading (address : UInt8) (length : Nat) (lead : List UInt8) : Except Error Command := do
  checkLength length
  checkLength lead.length
  return .read address length (Buffer.holding lead)

@[simp] theorem isRead_operation (c : Command) : c.operation.isRead = c.isRead := by
  cases c with
  | write | writeFixed => rfl
  | read a n lead => simp only [operation, isRead]; split <;> rfl

end Command

end SharedBus
