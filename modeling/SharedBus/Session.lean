import SharedBus.Bench
import SharedBus.System

/-!
# Sessions on the bench

A session takes calls and adjustments of the bench in turn. A call that might
wait forever is refused: one that waits for a request which was forgotten when
the bus was brought up again, or for any request while neither events nor the
timeout can move the bus.
-/

namespace SharedBus

inductive Step where
  | call (call : Call)
  | adjust (adjustment : Bench.Adjustment)
  deriving DecidableEq, Repr

inductive Response where
  | reply (reply : Reply)
  | wouldBlock
  deriving DecidableEq, Repr

structure Session where
  system : System Bench
  /-- Requests that were pending when the bus was brought up. -/
  forgotten : RequestId → Bool

namespace Session

def create (bench : Bench) (config : Config) (expanders : List Expander) : Session :=
  ⟨System.create bench config expanders, fun _ => false⟩

def bus (s : Session) : Bus Bench := s.system.bus

def bench (s : Session) : Bench := s.bus.platform

def withBench (s : Session) (h : Bench) : Session :=
  { s with system := s.system.withBus { s.bus with platform := h } }

/-- No tick can change the bus: events arrive by interrupt only, and there is no
timeout or no time passes. -/
def isStalled (s : Session) : Bool :=
  s.bus.config.delivery == .interrupt && (s.bus.config.timeout == 0 || s.bench.step == 0)

/-- A wait for `r` might not end. -/
def blocks (s : Session) (r : RequestId) : Bool :=
  s.bus.isBusy r && (s.forgotten r || s.isStalled)

def blocksDevice (s : Session) (device : Nat) (pin : UInt16) (p : Expander → Bool) : Bool :=
  match s.system.expanders[device]? with
  | none => false
  | some x => x.owns pin && p x

def refuses (s : Session) : Call → Bool
  | .write r _ _ | .writeFixed r _ _ | .read r _ _ _ | .wait r => s.blocks r
  | .writePin device pin _ => s.blocksDevice device pin fun x => s.blocks x.writeRequest
  | .readPin device pin =>
      s.blocksDevice device pin fun x => s.isStalled || s.blocks x.readRequest
  | _ => false

/-- More ticks than any wait can take that ends: each uses up a round, retires a
request, or moves the clock. -/
def patience (s : Session) : Nat :=
  s.bench.roundsLeft + s.bus.queued + (Ticks.last - s.bench.time) + 2

/-- What the call makes forgotten: bringing the bus up forgets whatever is pending. -/
def forget (s : Session) : Call → RequestId → Bool
  | .bringUp => fun r => s.forgotten r || s.bus.isBusy r
  | _ => s.forgotten

def call (s : Session) (c : Call) : Response × Session :=
  if s.refuses c then (.wouldBlock, s)
  else match s.system.perform s.patience c with
    | none => (.wouldBlock, s)
    | some (reply, system) => (.reply reply, ⟨system, s.forget c⟩)

/-- One step. The record of calls on the bench starts anew with each. -/
def step (s : Session) (step : Step) : Response × Session :=
  let s := s.withBench { s.bench with calls := [] }
  match step with
  | .call c => s.call c
  | .adjust a => (.reply .done, s.withBench (s.bench.adjust a))

def run (s : Session) : List Step → List (Response × Session)
  | [] => []
  | step :: steps => s.step step :: (s.step step).2.run steps

end Session

end SharedBus
