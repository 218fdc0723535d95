import SharedBus.Transfer

/-!
# Platforms

The hardware and the clock that a bus runs on, as one state. Every call may
change that state in any way, so a law about all platforms covers hardware that
fails, stalls or finishes early, and clocks that stop or run backwards. How the
calls are put together is not the platform's to choose: in particular a transfer
that takes too long is given up by a `close` and a `reset`. Hardware with a way
of its own to give up a transfer is outside these laws.
-/

namespace SharedBus

class Platform (σ : Type) where
  /-- Brings the peripheral to a known idle state. -/
  reset : σ → σ
  /-- Sets the bus clock in Hz. -/
  setClock : Nat → σ → σ
  start : Transfer → σ → σ
  /-- Services one hardware event of the transfer in flight. -/
  advance : Transfer → σ → List Action × σ
  close : σ → σ
  now : σ → Ticks × σ

end SharedBus
