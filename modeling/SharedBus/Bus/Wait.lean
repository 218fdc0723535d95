import SharedBus.Bus.Service

/-!
# Waiting for a request

To wait is to tick until the request is no longer pending. Whether that ever
happens depends on the platform, so `wait` takes a limit on the ticks it may
spend. `wait_eq_some_iff` says that the limit decides only whether there is an
answer: the answer is the first of the states reached by ticking in which the
request is not pending.

A wait is a single move of whoever makes it: what serves the queue meanwhile is
its own ticks. Where events come by interrupt a tick only checks the timeout, so
a wait for a pending request ends there by the timeout or not at all. The waits
in which a handler may run between two ticks are the relation `Awaits`, of which
`wait` is the case without one.
-/

namespace SharedBus.Bus

variable {σ : Type} [Platform σ]

def ticks (b : Bus σ) : Nat → Bus σ
  | 0 => b
  | n + 1 => b.tick.ticks n

def wait (b : Bus σ) (r : RequestId) : (limit : Nat) → Option (Status × Bus σ)
  | 0 => if b.isBusy r then none else some ((b.requests r).status, b)
  | n + 1 => if b.isBusy r then b.tick.wait r n else some ((b.requests r).status, b)

theorem wait_of_not_busy {b : Bus σ} {r : RequestId} (h : b.isBusy r = false) (n : Nat) :
    b.wait r n = some ((b.requests r).status, b) := by
  cases n <;> simp [wait, h]

theorem wait_succ_of_busy {b : Bus σ} {r : RequestId} (h : b.isBusy r = true) (n : Nat) :
    b.wait r (n + 1) = b.tick.wait r n := by
  simp [wait, h]

theorem wait_eq_some_iff {b b' : Bus σ} {r : RequestId} {n : Nat} {s : Status} :
    b.wait r n = some (s, b') ↔
      ∃ k ≤ n, (∀ j < k, (b.ticks j).isBusy r = true) ∧ (b.ticks k).isBusy r = false ∧
        b' = b.ticks k ∧ s = ((b.ticks k).requests r).status := by
  induction n generalizing b with
  | zero =>
    constructor
    · intro h
      cases hb : b.isBusy r with
      | true => simp [wait, hb] at h
      | false =>
        rw [wait_of_not_busy hb, Option.some.injEq, Prod.mk.injEq] at h
        exact ⟨0, Nat.le_refl 0, by intro j hj; omega, hb, h.2.symm, h.1.symm⟩
    · rintro ⟨k, hk, -, hb, rfl, rfl⟩
      obtain rfl : k = 0 := by omega
      exact wait_of_not_busy hb 0
  | succ n ih =>
    cases hb : b.isBusy r with
    | false =>
      rw [wait_of_not_busy hb, Option.some.injEq, Prod.mk.injEq]
      constructor
      · rintro ⟨rfl, rfl⟩
        exact ⟨0, Nat.zero_le _, by intro j hj; omega, hb, rfl, rfl⟩
      · rintro ⟨k, -, hbusy, -, rfl, rfl⟩
        cases k with
        | zero => exact ⟨rfl, rfl⟩
        | succ k =>
          have h := hbusy 0 (Nat.succ_pos k)
          exact absurd (hb.symm.trans h) Bool.false_ne_true
    | true =>
      rw [wait_succ_of_busy hb, ih]
      constructor
      · rintro ⟨k, hk, hbusy, h⟩
        refine ⟨k + 1, Nat.succ_le_succ hk, ?_, h⟩
        intro j hj
        cases j with
        | zero => exact hb
        | succ j => exact hbusy j (Nat.lt_of_succ_lt_succ hj)
      · rintro ⟨k, hk, hbusy, hidle, h⟩
        cases k with
        | zero => exact absurd (hidle.symm.trans hb) Bool.false_ne_true
        | succ k =>
          exact ⟨k, Nat.le_of_succ_le_succ hk, fun j hj => hbusy (j + 1) (Nat.succ_lt_succ hj),
            hidle, h⟩

end SharedBus.Bus
