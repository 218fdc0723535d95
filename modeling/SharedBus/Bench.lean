import SharedBus.Platform

/-!
# A scripted platform

The bench stands in for real hardware. Its clock moves by a fixed step at each
reading and stops at the last instant. How it services an event is scripted per
address, one round of instructions an event; an address without rounds left
finishes the transfer. Bytes to receive come from a supply, and a line that
nobody drives reads as all ones once the supply has run out. The bench keeps a
record of the calls made on it.
-/

namespace SharedBus

inductive Instruction where
  /-- Ask for the next byte this many times. -/
  | send (times : Nat)
  | receive (bytes : List UInt8)
  | complete (status : Status)
  | spend (time : Ticks)
  /-- Send what is unsent, receive what is unread and declare success. -/
  | finish
  deriving DecidableEq, Repr

abbrev Round := List Instruction

/-- What came of an instruction. -/
inductive Outcome where
  | sent (bytes : List (Option UInt8))
  | received (taken : List Bool)
  | status (status : Status)
  | spent
  | finished (sent : List UInt8) (received : Nat)
  deriving DecidableEq, Repr

inductive PlatformCall where
  | reset
  | setClock (hz : Nat)
  | close
  | start (transfer : Transfer)
  | advance (before : Transfer) (outcomes : List Outcome) (after : Transfer)
  deriving DecidableEq, Repr

structure Bench where
  time : Ticks
  /-- How far a reading moves the clock. -/
  step : Ticks
  startCost : Ticks
  rounds : UInt8 → List Round
  supply : List UInt8
  /-- Latest call first. -/
  calls : List PlatformCall

namespace Instruction

/-- `n` bytes from the supply, all ones where it has run out. -/
def draw (supply : List UInt8) (n : Nat) : List UInt8 :=
  supply.take n ++ List.replicate (n - supply.length) 0xFF

def actions (supply : List UInt8) (t : Transfer) : Instruction → List Action
  | .send times => List.replicate times .send
  | .receive bytes => bytes.map .receive
  | .complete status => [.complete status]
  | .spend _ => []
  | .finish => List.replicate (t.unsent.length + 1) .send ++ (draw supply t.unread).map .receive ++
      [.complete .ok]

def outcome (supply : List UInt8) (t : Transfer) (i : Instruction) : Outcome :=
  let answers := t.answers (i.actions supply t)
  match i with
  | .send _ => .sent (answers.map Answer.byte?)
  | .receive _ => .received (answers.map Answer.taken)
  | .complete _ => .status (t.advance (i.actions supply t)).status
  | .spend _ => .spent
  | .finish => .finished (answers.filterMap Answer.byte?) (answers.countP Answer.taken)

end Instruction

namespace Bench

def create (time step : Ticks) : Bench := ⟨time, step, 0, fun _ => [], [], []⟩

def record (h : Bench) (c : PlatformCall) : Bench := { h with calls := c :: h.calls }

def spend (h : Bench) (d : Ticks) : Bench := { h with time := h.time.after d }

def carryOut (h : Bench) (t : Transfer) : Instruction → Bench
  | .spend d => h.spend d
  | .finish => { h with supply := h.supply.drop t.unread }
  | _ => h

/-- The actions and outcomes of a round on `t`, and the bench after it. -/
def play (h : Bench) (t : Transfer) : Round → List Action × List Outcome × Bench
  | [] => ([], [], h)
  | i :: round =>
    let actions := i.actions h.supply t
    let (more, outcomes, h') := (h.carryOut t i).play (t.advance actions) round
    (actions ++ more, i.outcome h.supply t :: outcomes, h')

/-- The round that services the next event of a transfer to `address`. -/
def nextRound (h : Bench) (address : UInt8) : Round := (h.rounds address).headD [.finish]

def dropRound (h : Bench) (address : UInt8) : Bench :=
  { h with rounds := fun a => if a = address then (h.rounds a).tail else h.rounds a }

def advance (t : Transfer) (h : Bench) : List Action × Bench :=
  let (actions, outcomes, h') := (h.dropRound t.command.address).play t (h.nextRound t.command.address)
  (actions, h'.record (.advance t outcomes (t.advance actions)))

instance : Platform Bench where
  reset h := h.record .reset
  setClock hz h := h.record (.setClock hz)
  start t h := (h.record (.start t)).spend h.startCost
  advance := Bench.advance
  close h := h.record .close
  now h := (h.time, h.spend h.step)

inductive Adjustment where
  | script (address : UInt8) (rounds : List Round)
  | supply (bytes : List UInt8)
  | spend (time : Ticks)
  | setTime (time : Ticks)
  | setStep (step : Ticks)
  | setStartCost (cost : Ticks)
  deriving DecidableEq, Repr

def adjust (h : Bench) : Adjustment → Bench
  | .script address rounds =>
      { h with rounds := fun a => if a = address then rounds else h.rounds a }
  | .supply bytes => { h with supply := h.supply ++ bytes }
  | .spend d => h.spend d
  | .setTime time => { h with time := time }
  | .setStep step => { h with step := step }
  | .setStartCost cost => { h with startCost := cost }

def roundsLeft (h : Bench) : Nat :=
  ((List.range 256).flatMap fun a => h.rounds (UInt8.ofNat a)).length

end Bench

end SharedBus
