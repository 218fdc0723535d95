import SharedBus.Proofs.Run
import SharedBus.Bench

/-!
# The transfer in flight and the queue

Between calls a transfer is in flight exactly when requests are queued. It serves
the head of the queue: it is not finished, and its command is the one with which the
head is still configured. Hence an idle bus is one with an empty queue, and whatever
the next event brings, the request that is popped when the transfer is retired is
the request of the transfer.
-/

namespace SharedBus

namespace Bus

variable {σ : Type} {b : Bus σ}

/-- `t` is an unfinished transfer of the head of the queue, as this is configured. -/
structure Serves (b : Bus σ) (t : Transfer) : Prop where
  head_eq : b.queue.head = some t.request
  status_eq : t.status = .pending
  command_eq : t.command = (b.requests t.request).command
  unsent_eq : t.unsent = t.command.data.drop t.sent

theorem Accords.popFront?_eq (h : b.Accords) {t : Transfer} (ht : b.active = some t) :
    ∃ rest, b.queue.popFront? = some (t.request, rest) := by
  have hhead := h.head_eq ht
  exact ⟨_, by rw [Queue.popFront?, hhead]⟩

namespace Coherent

theorem serves (h : b.Coherent) {t : Transfer} (ht : b.active = some t) : b.Serves t := by
  have hcarries := h.carries ht
  refine ⟨h.head_eq ht, h.settled t ht, ?_, hcarries.inStep⟩
  rw [h.requests_eq]
  exact hcarries.command_eq

theorem active_eq_none_iff (h : b.Coherent) : b.active = none ↔ b.queue.head = none := by
  rw [← h.active_request, Option.map_eq_none_iff]

theorem isIdle_iff (h : b.Coherent) : b.isIdle = true ↔ b.queued = 0 := by
  rw [isIdle, Bool.and_eq_true, Option.isNone_iff_eq_none, Option.isNone_iff_eq_none,
    h.active_eq_none_iff, and_self, h.queued_eq_zero_iff]

theorem shutDown_iff [Platform σ] (h : b.Coherent) :
    (∃ b', b.shutDown = .ok b') ↔ b.active = none := by
  rw [h.active_eq_none_iff, ← h.queued_eq_zero_iff]
  constructor
  · rintro ⟨b', hdown⟩
    exact (act_shutDown hdown).1
  · intro hq
    exact ⟨_, shutDown_of_empty hq⟩

end Coherent

end Bus

namespace System

variable {σ : Type} [Platform σ] {s : System σ}

/-- What holds of the transfer in flight and of the queue after every run. The last part is
about whatever the hardware may do before the transfer is retired, which pops the queue. -/
theorem active_of_queued {platform : σ} {config : Config} {xs : List Expander}
    {ms : List (Move σ)} {replies : List Reply}
    (h : (create platform config xs).run ms = some (replies, s)) :
    (s.bus.active ≠ none ↔ s.bus.queue.toList ≠ []) ∧
      (∀ t, s.bus.active = some t → s.bus.Serves t) ∧
      (s.bus.isIdle = true ↔ s.bus.queued = 0) ∧
      ((∃ b, s.bus.shutDown = .ok b) ↔ s.bus.active = none) ∧
      (s.bus.active = none → s.bus.queue.head = none) ∧
      ∀ t actions, s.bus.active = some t →
        ∃ rest, s.bus.queue.popFront? = some ((t.advance actions).request, rest) := by
  have hs : s.bus.Coherent := coherent_run h (Bus.coherent_create platform config)
  refine ⟨?_, fun t ht => hs.serves ht, hs.isIdle_iff, hs.shutDown_iff, hs.served, ?_⟩
  · rw [ne_eq, ne_eq, hs.active_eq_none_iff, hs.toList_eq_nil_iff]
  · intro t actions ht
    rw [Transfer.request_advance]
    exact hs.popFront?_eq ht

/-- A write is in flight and another request waits. -/
theorem active_of_queued_write :
    ∃ replies s t, (create (Bench.create 0 0) Config.standard []).run
        [.call 0 .bringUp, .call 0 (.setWrite 1 0x48 [1, 2]), .call 0 (.submit 1),
          .call 0 (.submit 2)] = some (replies, s) ∧ s.bus.active = some t ∧ s.bus.Serves t ∧
      t.command = .write 0x48 (.holding [1, 2]) ∧ ¬ ∃ b, s.bus.shutDown = .ok b := by
  have hrun : ∃ replies s t, (create (Bench.create 0 0) Config.standard []).run
        [.call 0 .bringUp, .call 0 (.setWrite 1 0x48 [1, 2]), .call 0 (.submit 1),
          .call 0 (.submit 2)] = some (replies, s) ∧ s.bus.active = some t ∧
      t.command = .write 0x48 (.holding [1, 2]) := ⟨_, _, _, rfl, rfl, rfl⟩
  obtain ⟨replies, s, t, hrun, ht, hcommand⟩ := hrun
  obtain ⟨-, hserves, -, hdown, -⟩ := active_of_queued hrun
  refine ⟨replies, s, t, hrun, ht, hserves t ht, hcommand, ?_⟩
  rw [hdown, ht]
  exact Option.some_ne_none t

end System

end SharedBus
