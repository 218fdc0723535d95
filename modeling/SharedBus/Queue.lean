import SharedBus.Transfer

/-!
# The chain of queued requests

Queued requests form a chain in order of submission: each points at the one
behind it, and the queue knows both ends. A request outside the chain points
nowhere. `toList` follows the chain from its head.
-/

namespace SharedBus

structure Queue where
  head : Option RequestId
  tail : Option RequestId
  size : Nat
  /-- The request behind each one. -/
  next : RequestId → Option RequestId

namespace Queue

def empty : Queue := ⟨none, none, 0, fun _ => none⟩

def link (q : Queue) (r : RequestId) (behind : Option RequestId) : Queue :=
  { q with next := fun s => if s = r then behind else q.next s }

def pushBack (q : Queue) (r : RequestId) : Queue :=
  let q := q.link r none
  let q := match q.tail with
    | none => { q with head := some r }
    | some last => q.link last (some r)
  { q with tail := some r, size := q.size + 1 }

/-- The first request, and the queue without it. -/
def popFront? (q : Queue) : Option (RequestId × Queue) :=
  match q.head with
  | none => none
  | some r =>
    let rest := q.next r
    some (r, { q.link r none with
      head := rest, tail := if rest.isNone then none else q.tail, size := q.size - 1 })

def popFront (q : Queue) : Queue :=
  match q.popFront? with
  | none => q
  | some (_, rest) => rest

/-- Takes requests off the front until `n` are gone or none is left. -/
def drop : Nat → Queue → Queue
  | 0, q => q
  | n + 1, q => match q.popFront? with
    | none => q
    | some (_, rest) => rest.drop n

def clear (q : Queue) : Queue := q.drop q.size

/-- The requests met on `n` steps along the chain. -/
def follow (next : RequestId → Option RequestId) : Nat → Option RequestId → List RequestId
  | 0, _ => []
  | _ + 1, none => []
  | n + 1, some r => r :: follow next n (next r)

def toList (q : Queue) : List RequestId := follow q.next q.size q.head

@[simp] theorem toList_empty : empty.toList = [] := rfl

end Queue

end SharedBus
