import SharedBus.Expander

/-!
# A bus with its users

A system is a bus, the expanders on it and the completions that wait for its
requests. `perform` is the effect of one call; it yields `none` when the call
waits for longer than the limit on ticks that it is given. A call is a single
move, also one that waits: calls and hardware events come one after another, and
none of them between two ticks of a wait.
-/

namespace SharedBus

/-- Resolves once, when its request is found not to be pending. -/
structure Completion where
  request : RequestId
  resolved : Bool
  deriving DecidableEq, Repr

structure System (σ : Type) where
  bus : Bus σ
  expanders : List Expander
  /-- A completion listens under its position in the list. -/
  completions : List Completion

/-- Devices and completions are named by their positions. -/
inductive Call where
  | bringUp
  | shutDown
  | setClock (hz : Nat)
  | setTimeout (limit : Ticks)
  | tick
  | handleEvent
  | submit (r : RequestId)
  | write (r : RequestId) (address : UInt8) (data : List UInt8)
  | writeFixed (r : RequestId) (address : UInt8) (data : List UInt8)
  | read (r : RequestId) (address : UInt8) (length : Nat) (lead : List UInt8)
  | setWrite (r : RequestId) (address : UInt8) (data : List UInt8)
  | setWriteFixed (r : RequestId) (address : UInt8) (data : List UInt8)
  | setRead (r : RequestId) (address : UInt8) (length : Nat) (lead : List UInt8)
  | readInto (r : RequestId) (out : List UInt8)
  | wait (r : RequestId)
  /-- Ask for a completion of `r`, which is not polled yet. -/
  | complete (r : RequestId)
  | poll (completion : Nat)
  | selectClock (device : Nat)
  | describePins (device : Nat)
  | ownsPin (device : Nat) (pin : UInt16)
  | writePin (device : Nat) (pin : UInt16) (level : Bool)
  | readPin (device : Nat) (pin : UInt16)
  deriving DecidableEq, Repr

inductive Reply where
  | done
  | ok
  | error (e : Error)
  | copied (count : Nat) (out : List UInt8)
  | notCopied (e : Error) (out : List UInt8)
  | status (s : Status)
  | completion (position : Nat)
  /-- A poll found its request pending. -/
  | unresolved
  /-- A poll of a completion that had been resolved before. -/
  | finished
  | owned (yes : Bool)
  | level (high : Bool)
  | pinError (e : Expander.Error)
  /-- There is no device or completion in that place. -/
  | absent
  deriving DecidableEq, Repr

namespace Reply

def ofResult : Except Error Unit → Reply
  | .ok () => .ok
  | .error e => .error e

def ofWritePin : Except Expander.Error Unit → Reply
  | .ok () => .ok
  | .error e => .pinError e

def ofReadPin : Except Expander.Error Bool → Reply
  | .ok high => .level high
  | .error e => .pinError e

end Reply

namespace System

variable {σ : Type}

def create (platform : σ) (config : Config) (expanders : List Expander) : System σ :=
  ⟨Bus.create platform config, expanders, []⟩

def withBus (s : System σ) (b : Bus σ) : System σ := { s with bus := b }

def attempt (s : System σ) : Except Error (Bus σ) → Reply × System σ
  | .ok b => (.ok, s.withBus b)
  | .error e => (.error e, s)

def readInto (s : System σ) (r : RequestId) (out : List UInt8) : Reply :=
  match (s.bus.requests r).readInto out with
  | .ok (count, out) => .copied count out
  | .error e => .notCopied e out

/-- A completion that is resolved already is left alone. -/
def poll (s : System σ) (i : Nat) : Reply × System σ :=
  match s.completions[i]? with
  | none => (.absent, s)
  | some ⟨_, true⟩ => (.finished, s)
  | some ⟨r, false⟩ =>
    let (status, b) := s.bus.poll r i
    match status with
    | none => (.unresolved, s.withBus b)
    | some status =>
      (.status status, { s with bus := b, completions := s.completions.set i ⟨r, true⟩ })

variable [Platform σ]

def writePin (s : System σ) (limit : Nat) (i : Nat) (pin : UInt16) (level : Bool) :
    Option (Reply × System σ) :=
  match s.expanders[i]? with
  | none => some (.absent, s)
  | some x => (x.writePin limit pin level s.bus).map fun (result, x, b) =>
      (.ofWritePin result, { s with bus := b, expanders := s.expanders.set i x })

def readPin (s : System σ) (limit : Nat) (i : Nat) (pin : UInt16) : Option (Reply × System σ) :=
  match s.expanders[i]? with
  | none => some (.absent, s)
  | some x => (x.readPin limit pin s.bus).map fun (result, x, b) =>
      (.ofReadPin result, { s with bus := b, expanders := s.expanders.set i x })

def perform (limit : Nat) (s : System σ) : Call → Option (Reply × System σ)
  | .bringUp => some (.done, s.withBus s.bus.bringUp)
  | .shutDown => some (s.attempt s.bus.shutDown)
  | .setClock hz => some (.done, s.withBus (s.bus.setClock hz))
  | .setTimeout limit => some (.done, s.withBus (s.bus.setTimeout limit))
  | .tick => some (.done, s.withBus s.bus.tick)
  | .handleEvent => some (.done, s.withBus s.bus.handleEvent)
  | .submit r => some (s.attempt (s.bus.submit r))
  | .write r address data => (s.bus.write limit r address data).map fun (result, b) =>
      (.ofResult result, s.withBus b)
  | .writeFixed r address data => (s.bus.writeFixed limit r address data).map fun (result, b) =>
      (.ofResult result, s.withBus b)
  | .read r address length lead => (s.bus.read limit r address length lead).map fun (result, b) =>
      (.ofResult result, s.withBus b)
  | .setWrite r address data =>
      some (s.attempt (Command.copying address data >>= s.bus.configure r))
  | .setWriteFixed r address data =>
      some (s.attempt (s.bus.configure r (.writeFixed address data)))
  | .setRead r address length lead =>
      some (s.attempt (Command.reading address length lead >>= s.bus.configure r))
  | .readInto r out => some (s.readInto r out, s)
  | .wait r => (s.bus.wait r limit).map fun (status, b) => (.status status, s.withBus b)
  | .complete r =>
      some (.completion s.completions.length,
        { s with completions := s.completions ++ [⟨r, false⟩] })
  | .poll i => some (s.poll i)
  | .selectClock i => match s.expanders[i]? with
      | none => some (.absent, s)
      | some x => some (.done, s.withBus (x.selectClock s.bus))
  | .describePins _ => some (.done, s)
  | .ownsPin i pin => match s.expanders[i]? with
      | none => some (.absent, s)
      | some x => some (.owned (x.owns pin), s)
  | .writePin i pin level => s.writePin limit i pin level
  | .readPin i pin => s.readPin limit i pin

end System

end SharedBus
