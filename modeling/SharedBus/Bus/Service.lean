import SharedBus.Bus.Basic

/-!
# Serving the queue

Transfers are begun from the head of the queue and retired one at a time. Two
things retire a transfer: the hardware event that completes it and the timeout
check that gives it up. Either way the next one is begun at once. Each of the two
runs as a whole, with the interrupt masked: nothing comes between the outcome
that it writes and the wake that follows.
-/

namespace SharedBus.Bus

variable {σ : Type} [Platform σ]

/-- Begins the transfer of the request at the head of the queue, unless one is
in flight. It is stamped once the platform has begun it. -/
def startNext (b : Bus σ) : Bus σ :=
  match b.active, b.queue.head with
  | none, some r =>
    let t := Transfer.ofCommand r (b.requests r).command
    let (now, b) := (b.startPlatform t).readClock
    { b with active := some (t.stamp now) }
  | _, _ => b

/-- Takes the transfer in flight off the bus, its request off the queue, and
gives the request the outcome: `status`, or what the hardware declared. -/
def retireActive (b : Bus σ) (status : Option Status) : Bus σ :=
  match b.active with
  | none => b
  | some t =>
    let status := status.getD t.status
    let q := (b.requests t.request).retire t status
    ({ b with active := none, queue := b.queue.popFront }.setRequest t.request q
      |>.note (.retired t status)).wake q.listener

/-- The handler of a hardware event. Without a transfer in flight it does nothing. -/
def handleEvent (b : Bus σ) : Bus σ :=
  match b.active with
  | none => b
  | some t =>
    let (t', b) := b.advancePlatform t
    let b := { b with active := some t' }
    if t'.status.isPending then b else (b.retireActive none).startNext

/-- Gives up the transfer in flight and resets the hardware the default way: it is closed, then
reset, and the clock in force is set again. -/
def recover (b : Bus σ) : Bus σ :=
  let b := (b.retireActive (some .timeout)).closePlatform.resetPlatform.applyClock.startNext
  { b with recoveries := b.recoveries + 1 }.note .recovered

/-- Gives up the transfer in flight if it has been there for longer than the
timeout. The clock is read whenever there is a timeout to check. -/
def checkTimeout (b : Bus σ) : Bus σ :=
  if b.config.timeout = 0 then b
  else
    let (now, b) := b.readClock
    match b.active with
    | none => b
    | some t => if b.config.timeout < now.since t.startedAt then b.recover else b

/-- One round of foreground work. -/
def tick (b : Bus σ) : Bus σ :=
  match b.config.delivery with
  | .polled => b.handleEvent.checkTimeout
  | .interrupt => b.checkTimeout

end SharedBus.Bus
