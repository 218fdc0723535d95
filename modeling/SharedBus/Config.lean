import SharedBus.Time

/-!
# Bus configuration
-/

namespace SharedBus

inductive Delivery where
  /-- The event handler is called when the hardware raises an event. -/
  | interrupt
  /-- Every tick services the hardware before it checks for a timeout. -/
  | polled
  deriving DecidableEq, Repr

structure Config where
  /-- Bus clock in Hz. -/
  clock : Nat
  /-- The longest a transfer may stay in flight; zero is no limit. -/
  timeout : Ticks
  delivery : Delivery
  deriving DecidableEq, Repr

namespace Config

def standardMode : Nat := 100000

def fastMode : Nat := 400000

def fastModePlus : Nat := 1000000

/-- Standard mode, no timeout, events by interrupt. -/
def standard : Config := ⟨standardMode, 0, .interrupt⟩

inductive Setting where
  | clock (hz : Nat)
  | timeout (limit : Ticks)
  | delivery (delivery : Delivery)
  deriving DecidableEq, Repr

def set (c : Config) : Setting → Config
  | .clock hz => { c with clock := hz }
  | .timeout limit => { c with timeout := limit }
  | .delivery delivery => { c with delivery := delivery }

/-- The standard configuration with `settings` made in order: the last one of a
kind decides. -/
def ofSettings (settings : List Setting) : Config := settings.foldl set standard

end Config

end SharedBus
