import SharedBus.Bench
import SharedBus.Proofs.Coupling
import SharedBus.Proofs.Forgotten
import SharedBus.Proofs.Outcome

/-!
# Ticks and the queue

A tick takes requests off the front of the queue and adds none. So while a queued
request is waited for it is busy exactly as long as it is in the queue, and the wait
returns as soon as enough requests in front of it are gone.
-/

namespace SharedBus

namespace Bus

variable {σ : Type} {b : Bus σ} {t : Transfer} {r : RequestId}

theorem Accords.nodup (h : b.Accords) : b.queue.toList.Nodup := h.toList_eq ▸ h.lawful.sound.nodup

/-- A request is left in a queue unless more are taken off than are in front of it. -/
theorem mem_drop_iff {xs : List RequestId} {p : Nat} (hnodup : xs.Nodup) (hr : xs[p]? = some r)
    (k : Nat) : r ∈ xs.drop k ↔ k ≤ p := by
  obtain ⟨hp, -⟩ := List.getElem?_eq_some_iff.1 hr
  rw [List.mem_iff_getElem?]
  constructor
  · rintro ⟨i, hi⟩
    rw [List.getElem?_drop] at hi
    have hsame : p = k + i := (List.getElem?_inj hp hnodup).1 (hr.trans hi.symm)
    omega
  · intro hk
    refine ⟨p - k, ?_⟩
    rw [List.getElem?_drop, Nat.add_sub_cancel' hk, hr]

theorem Accords.toList_retireActive (h : b.Accords) (ht : b.active = some t)
    (status : Option Status) : (b.retireActive status).queue.toList = b.queue.toList.tail := by
  rw [b.retireActive_of_active ht, h.toList_eq]
  exact h.chains.popFront.toList_eq

theorem Coherent.toList_accept (h : b.Coherent) (hr : (b.requests r).status ≠ .pending) :
    (b.accept r).queue.toList = b.queue.toList ++ [r] := by
  rw [(h.accords_accept hr).toList_eq, h.toList_eq]
  rfl

theorem Coherent.toList_eq_cons (h : b.Coherent) (ht : b.active = some t) :
    b.queue.toList = t.request :: b.queue.toList.tail := by
  rw [h.toList_eq]
  exact (h.carries ht).waiting_eq

theorem Coherent.toList_ne_nil (h : b.Coherent) (ht : b.active = some t) :
    b.queue.toList ≠ [] := by
  rw [h.toList_eq_cons ht]
  exact List.cons_ne_nil _ _

theorem Coherent.exists_active (h : b.Coherent) (hqueue : b.queue.toList ≠ []) :
    ∃ t, b.active = some t := by
  rw [ne_eq, h.toList_eq_nil_iff, ← h.active_eq_none_iff] at hqueue
  exact Option.ne_none_iff_exists'.1 hqueue

theorem platform_retireActive (b : Bus σ) (status : Option Status) :
    (b.retireActive status).platform = b.platform :=
  b.apply_retireActive platform (fun _ _ _ _ _ _ => rfl) status

variable [Platform σ]

theorem queue_startNext (b : Bus σ) : b.startNext.queue = b.queue :=
  b.apply_startNext queue fun _ _ _ _ => rfl

theorem tick_of_polled (h : b.config.delivery = .polled) :
    b.tick = b.handleEvent.checkTimeout := by
  unfold tick
  rw [h]

theorem tick_of_interrupt (h : b.config.delivery = .interrupt) : b.tick = b.checkTimeout := by
  unfold tick
  rw [h]

/-! ### Ticks leave the configuration alone -/

theorem config_startNext (b : Bus σ) : b.startNext.config = b.config :=
  b.apply_startNext config fun _ _ _ _ => rfl

omit [Platform σ] in
theorem config_retireActive (b : Bus σ) (status : Option Status) :
    (b.retireActive status).config = b.config :=
  b.apply_retireActive config (fun _ _ _ _ _ _ => rfl) status

theorem config_handleEvent (b : Bus σ) : b.handleEvent.config = b.config := by
  cases ht : b.active with
  | none => rw [b.handleEvent_of_free ht]
  | some t =>
    rw [b.handleEvent_of_active ht]
    split
    · rfl
    · rw [config_startNext, config_retireActive]
      rfl

theorem config_recover (b : Bus σ) : b.recover.config = b.config := by
  have hstarted := b.reclaimed.config_startNext
  exact hstarted.trans (b.config_retireActive (some .timeout))

theorem config_checkTimeout (b : Bus σ) : b.checkTimeout.config = b.config := by
  rcases b.checkTimeout_cases with ⟨-, he⟩ | ⟨-, he, -⟩ | ⟨t, -, -, -, he⟩
  · rw [he]
  · rw [he]
    rfl
  · rw [he, config_recover]
    rfl

theorem config_tick (b : Bus σ) : b.tick.config = b.config := by
  unfold tick
  split
  · rw [config_checkTimeout, config_handleEvent]
  · rw [config_checkTimeout]

/-! ### What service leaves alone on a bench

Without events a bus moves the clock of its bench and makes calls, and does nothing else to
it. -/

section Bench

variable {α : Type} (f : Bench → α)
  (hf : ∀ (h : Bench) time calls, f { h with time := time, calls := calls } = f h)

include hf

theorem bench_startNext (b : Bus Bench) : f b.startNext.platform = f b.platform := by
  rcases b.startNext_cases with he | ⟨r, hfree, hhead⟩
  · rw [he]
  · rw [b.startNext_of_waiting hfree hhead]
    exact hf b.platform _ _

theorem bench_recover (b : Bus Bench) : f b.recover.platform = f b.platform := by
  have hstarted := bench_startNext f hf b.reclaimed
  have hreset : f b.reclaimed.platform = f (b.retireActive (some .timeout)).platform :=
    hf (b.retireActive _).platform _ _
  exact hstarted.trans (hreset.trans (congrArg f (b.platform_retireActive _)))

theorem bench_checkTimeout (b : Bus Bench) : f b.checkTimeout.platform = f b.platform := by
  have hread : f b.readClock.2.platform = f b.platform := hf b.platform _ _
  rcases b.checkTimeout_cases with ⟨-, he⟩ | ⟨-, he, -⟩ | ⟨t, -, -, -, he⟩
  · rw [he]
  · rw [he, hread]
  · rw [he, bench_recover f hf, hread]

end Bench

/-! ### What ticks do to the queue -/

namespace Coherent

theorem toList_handleEvent (h : b.Coherent) (ht : b.active = some t) :
    b.handleEvent.queue.toList = if (t.advance (b.eventActions t)).status = .pending
      then b.queue.toList else b.queue.toList.tail := by
  rw [b.handleEvent_of_active ht]
  split
  · rfl
  · have hserviced := h.toAccords.serviced ht (h.settled t ht)
    rw [queue_startNext, hserviced.toList_retireActive rfl]
    rfl

theorem toList_recover (h : b.Coherent) (ht : b.active = some t) :
    b.recover.queue.toList = b.queue.toList.tail := by
  have hqueue : b.recover.queue = (b.retireActive (some .timeout)).queue := queue_startNext _
  rw [hqueue, h.toList_retireActive ht]

theorem toList_checkTimeout (h : b.Coherent) :
    ∃ k, b.checkTimeout.queue.toList = b.queue.toList.drop k := by
  rcases b.checkTimeout_cases with ⟨-, he⟩ | ⟨-, he, -⟩ | ⟨t, -, ht, -, he⟩
  · exact ⟨0, by rw [he, List.drop_zero]⟩
  · exact ⟨0, by rw [he, List.drop_zero]; rfl⟩
  · have hrecover := h.readClock.toList_recover ht
    exact ⟨1, by rw [he, hrecover, List.drop_one]; rfl⟩

theorem toList_tick (h : b.Coherent) : ∃ k, b.tick.queue.toList = b.queue.toList.drop k := by
  unfold Bus.tick
  split
  · obtain ⟨k, hk⟩ := h.handleEvent.toList_checkTimeout
    cases ht : b.active with
    | none =>
      rw [b.handleEvent_of_free ht] at hk ⊢
      exact ⟨k, hk⟩
    | some t =>
      have hevent := h.toList_handleEvent ht
      split at hevent
      · exact ⟨k, by rw [hk, hevent]⟩
      · exact ⟨1 + k, by rw [hk, hevent, ← List.drop_one, List.drop_drop]⟩
  · exact h.toList_checkTimeout

theorem tick (h : b.Coherent) : b.tick.Coherent := by
  unfold Bus.tick
  split
  · exact h.handleEvent.checkTimeout
  · exact h.checkTimeout

theorem ticks (h : b.Coherent) (n : Nat) : (b.ticks n).Coherent := by
  induction n generalizing b with
  | zero => exact h
  | succ n ih => exact ih h.tick

/-- Nothing is forgotten by waiting. -/
theorem isBusy_ticks_iff (h : b.Coherent) (hr : r ∈ b.queue.toList) (n : Nat) :
    (b.ticks n).isBusy r = true ↔ r ∈ (b.ticks n).queue.toList := by
  obtain ⟨as, hpath, has⟩ := b.path_ticks n
  obtain ⟨added, hhistory, hadded⟩ := hpath.grows
  have hticks := h.ticks n
  have hkept : ¬ History.Forgets r (b.ticks n).history := by
    intro hforgets
    rw [hhistory] at hforgets
    have hquiet : .broughtUp ∉ added := by
      intro hmem
      have hcaller : .broughtUp ∈ added.filter Event.byCaller := List.mem_filter.2 ⟨hmem, rfl⟩
      rw [hadded, has] at hcaller
      cases hcaller
    have hbefore := (h.lawful.of_forgets (hforgets.of_append hquiet)).2
    rw [← h.toList_eq] at hbefore
    exact hbefore hr
  rw [isBusy, Status.isPending_iff, hticks.requests_eq, hticks.toList_eq, hticks.lawful.pending_iff]
  exact or_iff_left hkept

end Coherent

/-- A wait returns once its request is found idle, whatever more the limit allows. -/
theorem exists_wait {n : Nat} (hidle : (b.ticks n).isBusy r = false) :
    ∃ k ≤ n, ((b.ticks k).requests r).status ≠ .pending ∧
      ∀ limit, k ≤ limit →
        b.wait r limit = some (((b.ticks k).requests r).status, b.ticks k) := by
  induction n generalizing b with
  | zero =>
    have hstatus : ((b.ticks 0).requests r).status ≠ .pending := Status.isPending_eq_false.1 hidle
    exact ⟨0, Nat.le_refl 0, hstatus, fun limit _ => wait_of_not_busy hidle limit⟩
  | succ n ih =>
    cases hb : b.isBusy r with
    | false =>
      have hstatus : ((b.ticks 0).requests r).status ≠ .pending := Status.isPending_eq_false.1 hb
      exact ⟨0, Nat.zero_le _, hstatus, fun limit _ => wait_of_not_busy hb limit⟩
    | true =>
      obtain ⟨k, hk, hstatus, hwait⟩ := ih hidle
      refine ⟨k + 1, Nat.succ_le_succ hk, hstatus, fun limit hlimit => ?_⟩
      cases limit with
      | zero => cases hlimit
      | succ m =>
        rw [wait_succ_of_busy hb]
        exact hwait m (Nat.le_of_succ_le_succ hlimit)

end Bus

end SharedBus
