import SharedBus.Proofs.Chain
import SharedBus.Proofs.Ledger

/-!
# A bus accords with its history

The requests, the queue, the transfer in flight and the wakes of a bus are those of
the ledger of its history, which is lawful. Between calls the bus is moreover
coherent: no outcome is left in the transfer in flight, and nothing waits while the
bus is free. Each part of an operation keeps the accord, and each operation as a
whole coherence.
-/

namespace SharedBus.Bus

variable {σ : Type}

structure Accords (b : Bus σ) : Prop where
  lawful : History.Lawful b.history
  requests_eq : b.requests = b.history.ledger.requests
  chains : b.queue.Chains b.history.ledger.waiting
  flight_eq : b.active.map (·.stamp 0) = b.history.ledger.flight
  wakes_eq : b.wakes = b.history.ledger.wakes

def Settled (b : Bus σ) : Prop := ∀ t, b.active = some t → t.status = .pending

structure Coherent (b : Bus σ) : Prop extends b.Accords where
  settled : b.Settled
  /-- A free bus has nothing to do. -/
  served : b.active = none → b.queue.head = none

theorem coherent_create (platform : σ) (config : Config) : (create platform config).Coherent where
  lawful := trivial
  requests_eq := rfl
  chains := Queue.chains_empty
  flight_eq := rfl
  wakes_eq := rfl
  settled := fun _ h => by cases h
  served := fun _ => rfl

namespace Accords

variable {b b' : Bus σ}

/-- The step that all others are made of: what the ledger does with one event, the bus did. -/
theorem of_event (h : b.Accords) {e : Event} (he : b.history.ledger.Allows e)
    (hhistory : b'.history = e :: b.history)
    (hrequests : b'.requests = (b.history.ledger.after e).requests)
    (hchains : b'.queue.Chains (b.history.ledger.after e).waiting)
    (hflight : b'.active.map (·.stamp 0) = (b.history.ledger.after e).flight)
    (hwakes : b'.wakes = (b.history.ledger.after e).wakes) : b'.Accords := by
  refine ⟨?_, ?_, ?_, ?_, ?_⟩ <;> rw [hhistory]
  · exact ⟨he, h.lawful⟩
  · exact hrequests
  · exact hchains
  · exact hflight
  · exact hwakes

/-- Events that only the platform and the counters of the bus take notice of. -/
theorem of_quiet_event (h : b.Accords) {e : Event} (he : b.history.ledger.Allows e)
    (hquiet : b.history.ledger.after e = b.history.ledger) (hhistory : b'.history = e :: b.history)
    (hrequests : b'.requests = b.requests) (hqueue : b'.queue = b.queue)
    (hactive : b'.active = b.active) (hwakes : b'.wakes = b.wakes) : b'.Accords := by
  apply h.of_event he hhistory <;> rw [hquiet]
  · rw [hrequests, h.requests_eq]
  · rw [hqueue]
    exact h.chains
  · rw [hactive, h.flight_eq]
  · rw [hwakes, h.wakes_eq]

theorem flight_eq_none (h : b.Accords) (hfree : b.active = none) :
    b.history.ledger.flight = none := by
  rw [← h.flight_eq, hfree, Option.map_none]

theorem flight_eq_some (h : b.Accords) {t : Transfer} (ht : b.active = some t) :
    b.history.ledger.flight = some (t.stamp 0) := by
  rw [← h.flight_eq, ht, Option.map_some]

theorem settled_ledger (h : b.Accords) (hs : b.Settled) : b.history.ledger.Settled := by
  intro u hu
  rw [← h.flight_eq, Option.map_eq_some_iff] at hu
  obtain ⟨t, ht, rfl⟩ := hu
  exact hs t ht

theorem carries (h : b.Accords) {t : Transfer} (ht : b.active = some t) :
    b.history.ledger.Carries (t.stamp 0) :=
  h.lawful.sound.carries _ (h.flight_eq_some ht)

theorem toList_eq (h : b.Accords) : b.queue.toList = b.history.ledger.waiting := h.chains.toList_eq

theorem head_eq (h : b.Accords) {t : Transfer} (ht : b.active = some t) :
    b.queue.head = some t.request := by
  rw [h.chains.head_eq]
  exact (h.carries ht).head_eq

theorem head?_toList (h : b.Accords) : b.queue.toList.head? = b.queue.head := by
  rw [h.toList_eq, h.chains.head_eq]

theorem toList_eq_nil_iff (h : b.Accords) : b.queue.toList = [] ↔ b.queue.head = none := by
  rw [← h.head?_toList, List.head?_eq_none_iff]

theorem queued_eq (h : b.Accords) : b.queued = b.queue.toList.length := by
  rw [queued, h.chains.size_eq, h.toList_eq]

theorem queued_eq_zero_iff (h : b.Accords) : b.queued = 0 ↔ b.queue.head = none := by
  rw [h.queued_eq, List.length_eq_zero_iff, h.toList_eq_nil_iff]

theorem flight_request (h : b.Accords) :
    b.history.ledger.flight.map Transfer.request = b.active.map Transfer.request := by
  rw [← h.flight_eq, Option.map_map]
  rfl

variable [Platform σ]

/-! ### The parts of an operation -/

theorem resetPlatform (h : b.Accords) (hfree : b.active = none) : b.resetPlatform.Accords :=
  h.of_quiet_event (e := .reset) (h.flight_eq_none hfree) rfl rfl rfl rfl rfl rfl

theorem closePlatform (h : b.Accords) (hfree : b.active = none) : b.closePlatform.Accords :=
  h.of_quiet_event (e := .closed) (h.flight_eq_none hfree) rfl rfl rfl rfl rfl rfl

theorem applyClock (h : b.Accords) (hs : b.Settled) : b.applyClock.Accords :=
  h.of_quiet_event (e := .clockSet b.config.clock) (h.settled_ledger hs) rfl rfl rfl rfl rfl rfl

omit [Platform σ] in
theorem recovered (h : b.Accords) (hs : b.Settled) :
    ({ b with recoveries := b.recoveries + 1 }.note .recovered).Accords :=
  h.of_quiet_event (e := .recovered) (h.settled_ledger hs) rfl rfl rfl rfl rfl rfl

theorem readClock (h : b.Accords) : b.readClock.2.Accords :=
  ⟨h.lawful, h.requests_eq, h.chains, h.flight_eq, h.wakes_eq⟩

end Accords

/-! ### Beginning and retiring -/

section Parts

variable (b : Bus σ)

theorem wake_eq (o : Option ListenerId) :
    b.wake o = { b with wakes := fun m => if o = some m then b.wakes m + 1 else b.wakes m } := by
  cases o with
  | none => simp [wake]
  | some l => simp only [wake, Option.some.injEq, eq_comm]

theorem retireActive_of_free (h : b.active = none) (status : Option Status) :
    b.retireActive status = b := by
  rw [retireActive, h]

theorem retireActive_of_active {t : Transfer} (h : b.active = some t) (status : Option Status) :
    b.retireActive status = { b with
      active := none
      queue := b.queue.popFront
      requests := fun r => if r = t.request then
        (b.requests t.request).retire t (status.getD t.status) else b.requests r
      history := .retired t (status.getD t.status) :: b.history
      wakes := fun m => if (b.requests t.request).listener = some m then
        b.wakes m + 1 else b.wakes m } := by
  rw [retireActive, h]
  exact wake_eq _ _

/-- To retire a transfer changes neither the platform, nor the configuration, nor the count of
recoveries. -/
theorem apply_retireActive {α : Type} (f : Bus σ → α) (hf : ∀ (b : Bus σ) a q r h w,
    f { b with active := a, queue := q, requests := r, history := h, wakes := w } = f b)
    (status : Option Status) : f (b.retireActive status) = f b := by
  cases ht : b.active with
  | none => rw [b.retireActive_of_free ht]
  | some t =>
    rw [b.retireActive_of_active ht]
    exact hf b _ _ _ _ _

theorem active_retireActive (status : Option Status) : (b.retireActive status).active = none := by
  cases h : b.active with
  | none => rw [b.retireActive_of_free h, h]
  | some t => rw [b.retireActive_of_active h]

variable [Platform σ]

theorem startNext_of_active (h : b.active ≠ none) : b.startNext = b := by
  unfold startNext
  split
  · contradiction
  · rfl

theorem startNext_of_empty (h : b.queue.head = none) : b.startNext = b := by
  unfold startNext
  split
  · simp_all
  · rfl

def transferFor (b : Bus σ) (r : RequestId) : Transfer := .ofCommand r (b.requests r).command

/-- The stamp is a reading made after the platform began the transfer. -/
theorem startNext_of_waiting {r : RequestId} (hfree : b.active = none)
    (hhead : b.queue.head = some r) :
    b.startNext = { b with
      platform := (Platform.now (Platform.start (b.transferFor r) b.platform)).2
      active := some ((b.transferFor r).stamp
        (Platform.now (Platform.start (b.transferFor r) b.platform)).1)
      history := .begun (b.transferFor r) :: b.history } := by
  rw [startNext, hfree, hhead]
  rfl

/-- Nothing is begun unless the bus is free and a request waits. -/
theorem startNext_cases :
    b.startNext = b ∨ ∃ r, b.active = none ∧ b.queue.head = some r := by
  cases hfree : b.active with
  | some t => exact .inl (b.startNext_of_active (by simp [hfree]))
  | none =>
    cases hhead : b.queue.head with
    | none => exact .inl (b.startNext_of_empty hhead)
    | some r => exact .inr ⟨r, rfl, rfl⟩

/-- To begin a transfer changes the platform, the transfer in flight and the history, and nothing
else. -/
theorem apply_startNext {α : Type} (f : Bus σ → α) (hf : ∀ (b : Bus σ) p a h,
    f { b with platform := p, active := a, history := h } = f b) : f b.startNext = f b := by
  rcases b.startNext_cases with he | ⟨r, hfree, hhead⟩
  · rw [he]
  · rw [b.startNext_of_waiting hfree hhead]
    exact hf b _ _ _

def eventActions (b : Bus σ) (t : Transfer) : List Action := (Platform.advance t b.platform).1

def serviced (b : Bus σ) (t : Transfer) : Bus σ := { b with
  platform := (Platform.advance t b.platform).2
  active := some (t.advance (b.eventActions t))
  history := .serviced t (b.eventActions t) (t.advance (b.eventActions t)) :: b.history }

/-- The bus once the transfer in flight is given up and the hardware reset. -/
def reclaimed (b : Bus σ) : Bus σ :=
  (b.retireActive (some .timeout)).closePlatform.resetPlatform.applyClock

theorem active_reclaimed : b.reclaimed.active = none := b.active_retireActive _

theorem handleEvent_of_free (h : b.active = none) : b.handleEvent = b := by
  rw [handleEvent, h]

theorem handleEvent_of_active {t : Transfer} (h : b.active = some t) :
    b.handleEvent = if (t.advance (b.eventActions t)).status = .pending then b.serviced t
      else ((b.serviced t).retireActive none).startNext := by
  rw [handleEvent, h]
  simp only [Status.isPending_iff]
  rfl

/-- All that the timeout check can do. It reads the clock whenever there is a limit. -/
theorem checkTimeout_cases :
    b.config.timeout = 0 ∧ b.checkTimeout = b ∨
    b.config.timeout ≠ 0 ∧ b.checkTimeout = b.readClock.2 ∧
      (∀ t, b.active = some t → b.readClock.1.since t.startedAt ≤ b.config.timeout) ∨
    ∃ t, b.config.timeout ≠ 0 ∧ b.active = some t ∧
      b.config.timeout < b.readClock.1.since t.startedAt ∧
      b.checkTimeout = b.readClock.2.recover := by
  by_cases hzero : b.config.timeout = 0
  · exact .inl ⟨hzero, by rw [checkTimeout, if_pos hzero]⟩
  cases ht : b.active with
  | none =>
    have hread : b.checkTimeout = b.readClock.2 := by
      unfold checkTimeout
      simp only [if_neg hzero, readClock, ht]
    exact .inr (.inl ⟨hzero, hread, fun t h => by cases h⟩)
  | some t =>
    have hread : b.checkTimeout = if b.config.timeout < b.readClock.1.since t.startedAt then
        b.readClock.2.recover else b.readClock.2 := by
      unfold checkTimeout
      simp only [if_neg hzero, readClock, ht]
    by_cases hlate : b.config.timeout < b.readClock.1.since t.startedAt
    · exact .inr (.inr ⟨t, hzero, rfl, hlate, by rw [hread, if_pos hlate]⟩)
    · refine .inr (.inl ⟨hzero, by rw [hread, if_neg hlate], fun u hu => ?_⟩)
      obtain rfl := Option.some.inj hu
      exact Nat.le_of_not_lt hlate

end Parts

variable {b : Bus σ}

theorem Accords.retireActive (h : b.Accords) {t : Transfer} (ht : b.active = some t)
    {status : Option Status}
    (hstatus : t.status ≠ .pending ∧ status = none ∨ t.status = .pending ∧ status = some .timeout) :
    (b.retireActive status).Accords := by
  have hallowed : b.history.ledger.Allows (.retired t (status.getD t.status)) := by
    refine ⟨h.flight_eq_some ht, ?_⟩
    rcases hstatus with ⟨hs, rfl⟩ | ⟨hs, rfl⟩
    · exact .inl ⟨hs, rfl⟩
    · exact .inr ⟨hs, rfl⟩
  rw [b.retireActive_of_active ht]
  apply h.of_event hallowed rfl
  · simp only [Ledger.after, Ledger.wake, Ledger.setRequest, h.requests_eq]
  · exact h.chains.popFront
  · rfl
  · simp only [Ledger.after, Ledger.wake, Ledger.setRequest, h.requests_eq, h.wakes_eq]

variable [Platform σ]

theorem Accords.startNext (h : b.Accords) (hs : b.Settled) : b.startNext.Coherent := by
  cases hfree : b.active with
  | some t =>
    have hactive : b.active ≠ none := by simp [hfree]
    rw [b.startNext_of_active hactive]
    exact ⟨h, hs, fun hnone => absurd hnone hactive⟩
  | none =>
    cases hhead : b.queue.head with
    | none =>
      rw [b.startNext_of_empty hhead]
      exact ⟨h, hs, fun _ => hhead⟩
    | some r =>
      have hwaiting : b.history.ledger.waiting.head? = some r := by rw [← h.chains.head_eq, hhead]
      have hcommand : (b.requests r).command = (b.history.ledger.requests r).command := by
        rw [h.requests_eq]
      have hallowed : b.history.ledger.Allows (.begun (b.transferFor r)) := by
        refine ⟨h.flight_eq_none hfree, hwaiting, ?_⟩
        rw [transferFor, hcommand]
        rfl
      rw [b.startNext_of_waiting hfree hhead]
      refine ⟨h.of_event hallowed rfl h.requests_eq h.chains rfl h.wakes_eq, fun t ht => ?_,
        fun hnone => ?_⟩
      · obtain rfl := Option.some.inj ht
        rfl
      · cases hnone

theorem Accords.serviced (h : b.Accords) {t : Transfer} (ht : b.active = some t)
    (hs : t.status = .pending) : (b.serviced t).Accords :=
  h.of_event (e := .serviced t (b.eventActions t) (t.advance (b.eventActions t)))
    ⟨h.flight_eq_some ht, hs, rfl⟩ rfl h.requests_eq h.chains rfl h.wakes_eq

/-! ### Giving up a transfer -/

theorem requests_reclaimed {t : Transfer} (ht : b.active = some t) :
    b.reclaimed.requests = fun r =>
      if r = t.request then (b.requests t.request).retire t .timeout else b.requests r :=
  congrArg requests (b.retireActive_of_active ht (some .timeout))

theorem history_reclaimed {t : Transfer} (ht : b.active = some t) : b.reclaimed.history =
    .clockSet b.config.clock :: .reset :: .closed :: .retired t .timeout :: b.history := by
  rw [reclaimed, b.retireActive_of_active ht]
  rfl

theorem recoveries_recover (b : Bus σ) : b.recover.recoveries = b.recoveries + 1 := by
  have hstarted := b.reclaimed.apply_startNext recoveries fun _ _ _ _ => rfl
  have hretired := b.apply_retireActive recoveries (fun _ _ _ _ _ _ => rfl) (some .timeout)
  exact congrArg (· + 1) (hstarted.trans hretired)

/-! ### Whole operations -/

namespace Coherent

theorem handleEvent (h : b.Coherent) : b.handleEvent.Coherent := by
  cases ht : b.active with
  | none =>
    rw [b.handleEvent_of_free ht]
    exact h
  | some t =>
    have hserviced := h.toAccords.serviced ht (h.settled t ht)
    rw [b.handleEvent_of_active ht]
    by_cases hs : (t.advance (b.eventActions t)).status = .pending
    · rw [if_pos hs]
      refine ⟨hserviced, fun u hu => ?_, fun hnone => by cases hnone⟩
      obtain rfl := Option.some.inj hu
      exact hs
    · rw [if_neg hs]
      apply (hserviced.retireActive rfl (.inl ⟨hs, rfl⟩)).startNext
      intro u hu
      rw [active_retireActive] at hu
      cases hu

theorem recover (h : b.Coherent) {t : Transfer} (ht : b.active = some t) : b.recover.Coherent := by
  have hretired := h.toAccords.retireActive ht (.inr ⟨h.settled t ht, rfl⟩)
  have hfree := b.active_retireActive (some .timeout)
  have hsettled : ∀ u, (b.retireActive (some .timeout)).active = some u → u.status = .pending := by
    intro u hu
    rw [hfree] at hu
    cases hu
  have hreset := ((hretired.closePlatform hfree).resetPlatform hfree).applyClock hsettled
  have hstarted := hreset.startNext hsettled
  exact ⟨hstarted.toAccords.recovered hstarted.settled, hstarted.settled, hstarted.served⟩

theorem readClock (h : b.Coherent) : b.readClock.2.Coherent :=
  ⟨h.toAccords.readClock, h.settled, h.served⟩

theorem checkTimeout (h : b.Coherent) : b.checkTimeout.Coherent := by
  rcases b.checkTimeout_cases with ⟨-, he⟩ | ⟨-, he, -⟩ | ⟨t, -, ht, -, he⟩
  · rwa [he]
  · rw [he]
    exact h.readClock
  · rw [he]
    exact h.readClock.recover ht

theorem bringUp (h : b.Coherent) : b.bringUp.Coherent := by
  have hcleared : Accords ({ b with queue := b.queue.clear, active := none }.note .broughtUp) :=
    h.of_event (e := .broughtUp) (h.settled_ledger h.settled) rfl h.requests_eq h.chains.clear rfl
      h.wakes_eq
  have hsettled : Settled ({ b with queue := b.queue.clear, active := none }.note .broughtUp) := by
    intro t ht
    cases ht
  refine ⟨(hcleared.resetPlatform rfl).applyClock hsettled, hsettled, fun _ => ?_⟩
  exact h.chains.clear.head_eq

theorem setClock (h : b.Coherent) (hz : Nat) : (b.setClock hz).Coherent := by
  have hconfig : Accords { b with config := { b.config with clock := hz } } :=
    ⟨h.lawful, h.requests_eq, h.chains, h.flight_eq, h.wakes_eq⟩
  exact ⟨hconfig.applyClock h.settled, h.settled, h.served⟩

omit [Platform σ] in
theorem setTimeout (h : b.Coherent) (limit : Ticks) : (b.setTimeout limit).Coherent :=
  ⟨⟨h.lawful, h.requests_eq, h.chains, h.flight_eq, h.wakes_eq⟩, h.settled, h.served⟩

omit [Platform σ] in
theorem shift (h : b.Coherent) (platform : σ) : Coherent { b with platform := platform } :=
  ⟨⟨h.lawful, h.requests_eq, h.chains, h.flight_eq, h.wakes_eq⟩, h.settled, h.served⟩

omit [Platform σ] in
/-- The transfer in flight is that of the head of the queue, if the queue has one. -/
theorem active_request (h : b.Coherent) : b.active.map Transfer.request = b.queue.head := by
  cases ht : b.active with
  | none => rw [Option.map_none, h.served ht]
  | some t => rw [Option.map_some, h.head_eq ht]

omit [Platform σ] in
theorem active_eq_none_of_queued (h : b.Coherent) (hq : b.queued = 0) : b.active = none := by
  have hactive := h.active_request
  rwa [h.queued_eq_zero_iff.1 hq, Option.map_eq_none_iff] at hactive

theorem shutDown (h : b.Coherent) (hq : b.queued = 0) :
    (b.closePlatform.note .shutDown).Coherent := by
  have hclosed := h.toAccords.closePlatform (h.active_eq_none_of_queued hq)
  have hempty : b.history.ledger.waiting = [] := by
    rw [← h.toList_eq, h.toList_eq_nil_iff, ← h.queued_eq_zero_iff, hq]
  refine ⟨?_, h.settled, h.served⟩
  exact hclosed.of_quiet_event (e := .shutDown) hempty rfl rfl rfl rfl rfl rfl

omit [Platform σ] in
theorem configure (h : b.Coherent) {r : RequestId} (hr : (b.requests r).status ≠ .pending)
    (c : Command) :
    ((b.setRequest r ((b.requests r).configured c)).note (.configured r c)).Coherent := by
  refine ⟨?_, h.settled, h.served⟩
  have hallowed : b.history.ledger.Allows (.configured r c) :=
    ⟨h.settled_ledger h.settled, by rwa [← h.requests_eq]⟩
  refine h.of_event hallowed rfl ?_ h.chains h.flight_eq h.wakes_eq
  simp only [Ledger.after, Ledger.setRequest, ← h.requests_eq, note, setRequest]

omit [Platform σ] in
theorem not_mem_waiting (h : b.Coherent) {r : RequestId} (hr : (b.requests r).status ≠ .pending) :
    r ∉ b.history.ledger.waiting := by
  intro hmem
  apply hr
  rw [h.requests_eq]
  exact h.lawful.sound.pending r hmem

omit [Platform σ] in
theorem accords_accept (h : b.Coherent) {r : RequestId} (hr : (b.requests r).status ≠ .pending) :
    (b.accept r).Accords := by
  have hallowed : b.history.ledger.Allows (.accepted r) :=
    ⟨h.settled_ledger h.settled, by rwa [← h.requests_eq]⟩
  have hmem := h.not_mem_waiting hr
  refine h.of_event hallowed rfl ?_ ?_ h.flight_eq h.wakes_eq
  · simp only [Ledger.after, Ledger.setRequest, ← h.requests_eq, accept, note, setRequest]
  · have hqueue : (b.accept r).queue = b.queue.pushBack r := by
      change (b.queue.link r none).pushBack r = b.queue.pushBack r
      rw [h.chains.link_none hmem]
    rw [hqueue]
    exact h.chains.pushBack hmem

theorem submit (h : b.Coherent) {r : RequestId} (hr : (b.requests r).status ≠ .pending) :
    (b.accept r).startNext.Coherent :=
  (h.accords_accept hr).startNext h.settled

omit [Platform σ] in
theorem poll (h : b.Coherent) (r : RequestId) (l : ListenerId) : (b.poll r l).2.Coherent := by
  refine ⟨?_, h.settled, h.served⟩
  refine h.of_event (e := .polled r l) (h.settled_ledger h.settled) rfl ?_ h.chains h.flight_eq
    h.wakes_eq
  simp only [Ledger.after, Ledger.setRequest, ← h.requests_eq, Bus.poll, listen, note, setRequest]

end Coherent

end SharedBus.Bus
