import SharedBus.Config
import SharedBus.Event
import SharedBus.Platform
import SharedBus.Queue
import SharedBus.Request

/-!
# The state of a shared bus

A bus owns its platform, the requests that may be submitted to it, the queue of
those that have been, and at most one transfer in flight. `history` tells what
has happened to it and is never consulted by it.
-/

namespace SharedBus

structure Bus (σ : Type) where
  platform : σ
  config : Config
  requests : RequestId → Request
  queue : Queue
  active : Option Transfer
  /-- Timeout recoveries so far, on a 32-bit counter. -/
  recoveries : UInt32
  wakes : ListenerId → Nat
  history : History

namespace Bus

variable {σ : Type}

def create (platform : σ) (config : Config) : Bus σ where
  platform := platform
  config := config
  requests _ := .fresh
  queue := .empty
  active := none
  recoveries := 0
  wakes _ := 0
  history := []

def queued (b : Bus σ) : Nat := b.queue.size

def isIdle (b : Bus σ) : Bool := b.queue.head.isNone && b.active.isNone

def isBusy (b : Bus σ) (r : RequestId) : Bool := (b.requests r).status.isPending

def note (b : Bus σ) (e : Event) : Bus σ := { b with history := e :: b.history }

def setRequest (b : Bus σ) (r : RequestId) (q : Request) : Bus σ :=
  { b with requests := fun s => if s = r then q else b.requests s }

def wake (b : Bus σ) : Option ListenerId → Bus σ
  | none => b
  | some l => { b with wakes := fun m => if m = l then b.wakes m + 1 else b.wakes m }

@[simp] theorem requests_setRequest_self (b : Bus σ) (r : RequestId) (q : Request) :
    (b.setRequest r q).requests r = q := if_pos rfl

theorem requests_setRequest_of_ne (b : Bus σ) {r s : RequestId} (q : Request) (h : s ≠ r) :
    (b.setRequest r q).requests s = b.requests s := if_neg h

variable [Platform σ]

/-! ### Calls on the platform -/

def resetPlatform (b : Bus σ) : Bus σ :=
  { b with platform := Platform.reset b.platform }.note .reset

def closePlatform (b : Bus σ) : Bus σ :=
  { b with platform := Platform.close b.platform }.note .closed

def applyClock (b : Bus σ) : Bus σ :=
  { b with platform := Platform.setClock b.config.clock b.platform }.note (.clockSet b.config.clock)

def startPlatform (b : Bus σ) (t : Transfer) : Bus σ :=
  { b with platform := Platform.start t b.platform }.note (.begun t)

/-- Has the platform service an event of `t`, and yields what becomes of `t`. -/
def advancePlatform (b : Bus σ) (t : Transfer) : Transfer × Bus σ :=
  let (actions, platform) := Platform.advance t b.platform
  (t.advance actions, { b with platform := platform }.note (.serviced t actions (t.advance actions)))

def readClock (b : Bus σ) : Ticks × Bus σ :=
  let (now, platform) := Platform.now b.platform
  (now, { b with platform := platform })

end Bus

end SharedBus
