import SharedBus.Bus.Control
import SharedBus.Bus.Submission

/-!
# Eight-line expanders

A PCF8574 has eight quasi-bidirectional lines and one output latch: a line written
high can be pulled low from outside, so it is released before it is read. The
lines are known by pin numbers that start at `firstPin`. Writing a pin returns
once the new latch byte is queued; reading one waits for the bus.
-/

namespace SharedBus

structure Expander where
  address : UInt8
  firstPin : UInt16
  /-- How many pins from `firstPin` on belong to the device. -/
  pinCount : UInt16
  /-- The latch byte last sent or queued, a bit for each line. -/
  latch : UInt8
  writeRequest : RequestId
  readRequest : RequestId
  deriving DecidableEq, Repr

namespace Expander

inductive Error where
  | invalidPin (pin : UInt16)
  | request (error : SharedBus.Error)
  /-- The transfer ended with another status than success. -/
  | bus (status : Status)
  deriving DecidableEq, Repr

def lineCount : UInt16 := 8

/-- A device with up to eight pins; a larger count is cut to eight. -/
def attach (address : UInt8) (firstPin count : UInt16) (writeRequest readRequest : RequestId) :
    Expander :=
  ⟨address, firstPin, if count ≤ lineCount then count else lineCount, 0, writeRequest, readRequest⟩

def owns (x : Expander) (pin : UInt16) : Bool :=
  x.firstPin ≤ pin && pin - x.firstPin < x.pinCount

def mask (x : Expander) (pin : UInt16) : Except Error UInt8 :=
  if x.owns pin then .ok (1 <<< (pin - x.firstPin).toUInt8) else .error (.invalidPin pin)

def raise (x : Expander) (mask : UInt8) : Expander := { x with latch := x.latch ||| mask }

def lower (x : Expander) (mask : UInt8) : Expander := { x with latch := x.latch &&& ~~~mask }

def drive (x : Expander) (mask : UInt8) (level : Bool) : Expander :=
  if level then x.raise mask else x.lower mask

variable {σ : Type} [Platform σ]

/-- The device supports standard mode only. -/
def selectClock (_ : Expander) (b : Bus σ) : Bus σ := b.setClock Config.standardMode

def writePin (x : Expander) (limit : Nat) (pin : UInt16) (level : Bool) (b : Bus σ) :
    Option (Except Error Unit × Expander × Bus σ) :=
  match x.mask pin with
  | .error e => some (.error e, x, b)
  | .ok mask => do
    let x := x.drive mask level
    let (result, b) ← b.write limit x.writeRequest x.address [x.latch]
    return (result.mapError .request, x, b)

/-- The level of a pin in the byte that request `r` received. -/
def levelOf (q : Request) (mask : UInt8) : Except Error Bool :=
  match q.readInto [0] with
  | .error e => .error (.request e)
  | .ok (_, input) => .ok (input.headD 0 &&& mask != 0)

/-- Releases a pin, then reads the lines and waits for the answer. -/
def readPin (x : Expander) (limit : Nat) (pin : UInt16) (b : Bus σ) :
    Option (Except Error Bool × Expander × Bus σ) :=
  match x.mask pin with
  | .error e => some (.error e, x, b)
  | .ok mask => do
    let x := x.raise mask
    let (result, b) ← b.read limit x.readRequest x.address 1 [x.latch]
    match result with
    | .error e => return (.error (.request e), x, b)
    | .ok () =>
      let (status, b) ← b.wait x.readRequest limit
      match status.toExcept with
      | .error status => return (.error (.bus status), x, b)
      | .ok () => return (levelOf (b.requests x.readRequest) mask, x, b)

end Expander

end SharedBus
