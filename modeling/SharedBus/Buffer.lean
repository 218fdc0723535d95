/-!
# Staging buffers

The bytes a request carries by itself are kept in buffers of fixed capacity, the
size of the peripheral's own. Putting in more than fits is refused as a whole.
-/

namespace SharedBus

structure Buffer where
  bytes : List UInt8
  deriving DecidableEq, Repr

namespace Buffer

def capacity : Nat := 32

def empty : Buffer := ⟨[]⟩

/-- `data` behind what the buffer holds, unless there is no room for all of it. -/
def append? (b : Buffer) (data : List UInt8) : Option Buffer :=
  if b.bytes.length + data.length ≤ capacity then some ⟨b.bytes ++ data⟩ else none

def push? (b : Buffer) (byte : UInt8) : Option Buffer := b.append? [byte]

/-- A cleared buffer filled with `data`; it stays empty when `data` is refused. -/
def holding (data : List UInt8) : Buffer := (empty.append? data).getD empty

theorem bytes_holding {data : List UInt8} (h : data.length ≤ capacity) :
    (holding data).bytes = data := by
  simp [holding, append?, empty, h]

theorem length_holding_le (data : List UInt8) : (holding data).bytes.length ≤ capacity := by
  by_cases h : data.length ≤ capacity
  · rwa [bytes_holding h]
  · simp [holding, append?, empty, h]

theorem push?_eq_some {b : Buffer} (byte : UInt8) (h : b.bytes.length < capacity) :
    b.push? byte = some ⟨b.bytes ++ [byte]⟩ := by
  simp [push?, append?, Nat.succ_le_of_lt h]

end Buffer

end SharedBus
