import SharedBus.Bus.Service

/-!
# Bringing a bus up and down
-/

namespace SharedBus.Bus

variable {σ : Type} [Platform σ]

/-- Empties the queue and brings the platform up at the configured clock. What
was queued is forgotten and stays pending. -/
def bringUp (b : Bus σ) : Bus σ :=
  ({ b with queue := b.queue.clear, active := none }.note .broughtUp).resetPlatform.applyClock

def setClock (b : Bus σ) (hz : Nat) : Bus σ :=
  { b with config := { b.config with clock := hz } }.applyClock

omit [Platform σ] in
/-- Sets how long a transfer may stay in flight, the one in flight included. -/
def setTimeout (b : Bus σ) (limit : Ticks) : Bus σ :=
  { b with config := { b.config with timeout := limit } }

/-- Switches the platform off, unless requests are queued. -/
def shutDown (b : Bus σ) : Except Error (Bus σ) :=
  if b.queued = 0 then .ok (b.closePlatform.note .shutDown) else .error (.inUse b.queued)

end SharedBus.Bus
