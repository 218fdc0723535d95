import SharedBus.Proofs.Draining

/-!
# What a polled tick gives up

A polled tick has the hardware service the transfer in flight before it looks at the clock. What
the timeout check then gives up is either this transfer, which the service has left pending, or
the next one: the service has ended the first, the next has been begun and stamped, and the very
next reading of the clock is past its timeout. It is given up before the hardware was asked to
advance it. Nothing that was in flight before the tick is given up without having been serviced
by it.
-/

namespace SharedBus

namespace Bus

variable {σ : Type} [Platform σ] {b : Bus σ} {t u : Transfer}

def CheckRetires (b : Bus σ) (t : Transfer) : Prop :=
  ∃ added, b.tick.history = added ++ b.handleEvent.history ∧ .retired t .timeout ∈ added

/-- The event services the transfer `u` in flight and leaves it, now `t`, pending. -/
structure LeavesPending (b : Bus σ) (u t : Transfer) : Prop where
  advanced : t = u.advance (b.eventActions u)
  pending : t.status = .pending
  history_eq : b.handleEvent.history = .serviced u (b.eventActions u) t :: b.history

/-- The event services the transfer `u` in flight, ends and retires it, and begins `t` for the next
request. When the clock is read again, right after the stamp, the time of `t` is up. -/
structure Replaces (b : Bus σ) (u t : Transfer) : Prop where
  ended : (u.advance (b.eventActions u)).status ≠ .pending
  history_eq : b.handleEvent.history = .begun (b.transferFor t.request) ::
    .retired (u.advance (b.eventActions u)) (u.advance (b.eventActions u)).status ::
    .serviced u (b.eventActions u) (u.advance (b.eventActions u)) :: b.history
  next : b.queue.toList[1]? = some t.request
  fresh : t = (b.transferFor t.request).stamp t.startedAt
  stamped : Platform.now
      (Platform.start (b.transferFor t.request) (Platform.advance u b.platform).2) =
    (t.startedAt, b.handleEvent.platform)
  late : b.config.timeout < (Platform.now b.handleEvent.platform).1.since t.startedAt

/-- What the check enters as retired is what it has found overdue. -/
theorem retired_mem_entries_iff : .retired t .timeout ∈ b.entries .checkTimeout ↔
    b.overdue? = some t := by
  cases ho : b.overdue? with
  | none => simp [entries, ho]
  | some u => simp [entries, ho, not_mem_beginning (e := .retired t .timeout) rfl, eq_comm]

theorem Coherent.checkRetires_iff (h : b.Coherent) (hpolled : b.config.delivery = .polled) :
    b.CheckRetires t ↔ b.handleEvent.overdue? = some t := by
  have hhistory := h.handleEvent.history_checkTimeout
  rw [← retired_mem_entries_iff, CheckRetires, tick_of_polled hpolled]
  constructor
  · rintro ⟨added, hadded, hmem⟩
    rw [hhistory, List.append_cancel_right_eq] at hadded
    rwa [hadded]
  · exact fun hmem => ⟨_, hhistory, hmem⟩

/-- Nothing is in flight after an event that found nothing in flight. -/
theorem exists_active_before (ht : b.handleEvent.active = some t) : ∃ u, b.active = some u := by
  cases hu : b.active with
  | some u => exact ⟨u, rfl⟩
  | none =>
    rw [b.handleEvent_of_free hu, hu] at ht
    cases ht

theorem leavesPending (hu : b.active = some u)
    (hs : (u.advance (b.eventActions u)).status = .pending) (ht : b.handleEvent.active = some t) :
    b.LeavesPending u t := by
  have hevent := b.handleEvent_of_active hu
  rw [if_pos hs] at hevent
  rw [hevent] at ht
  obtain rfl := Option.some.inj ht
  exact ⟨rfl, hs, congrArg history hevent⟩

namespace Coherent

/-- If the event ends the transfer in flight, the check finds overdue what was begun since. -/
theorem replaces (h : b.Coherent) (hpolled : b.config.delivery = .polled) (hu : b.active = some u)
    (hs : (u.advance (b.eventActions u)).status ≠ .pending) (ho : b.handleEvent.overdue? = some t) :
    b.Replaces u t := by
  obtain ⟨ht, -, hlate⟩ := overdue?_eq_some_iff.1 ho
  have hqueue := (h.oversteps hpolled hu hs ho).queue_eq
  have hevent := b.handleEvent_of_active hu
  rw [if_neg hs] at hevent
  rcases ((b.serviced u).retireActive none).startNext_cases with he | ⟨r, hfree, hhead⟩
  · rw [hevent, he, active_retireActive] at ht
    cases ht
  · have hgiven : ((b.serviced u).retireActive none).transferFor r = b.transferFor r :=
      congrArg (Transfer.ofCommand r) ((b.serviced u).command_retireActive none r)
    have hplatform : ((b.serviced u).retireActive none).platform =
        (Platform.advance u b.platform).2 := platform_retireActive _ _
    have hretired := congrArg history ((b.serviced u).retireActive_of_active rfl none)
    have hbegun := hevent.trans (startNext_of_waiting _ hfree hhead)
    rw [hgiven, hplatform, hretired] at hbegun
    rw [hbegun] at ht
    obtain rfl := Option.some.inj ht
    refine ⟨hs, congrArg history hbegun, by rw [hqueue]; rfl, rfl, ?_, ?_⟩
    · exact Prod.ext rfl (congrArg platform hbegun).symm
    · rwa [config_handleEvent] at hlate

theorem checkRetires_cases (h : b.Coherent) (hpolled : b.config.delivery = .polled)
    (ht : b.CheckRetires t) :
    ∃ u, b.active = some u ∧ (b.LeavesPending u t ∨ b.Replaces u t) := by
  have ho := (h.checkRetires_iff hpolled).1 ht
  have hactive := (overdue?_eq_some_iff.1 ho).1
  obtain ⟨u, hu⟩ := exists_active_before hactive
  refine ⟨u, hu, ?_⟩
  by_cases hs : (u.advance (b.eventActions u)).status = .pending
  · exact .inl (leavesPending hu hs hactive)
  · exact .inr (h.replaces hpolled hu hs ho)

end Coherent

end Bus

namespace System

variable {σ : Type} [Platform σ] {s : System σ} {ms : List (Move σ)} {replies : List Reply}

/-- A polled tick in every state that a run leads to, after or within a call, so that the ticks of
every wait are among these. It services the hardware and then checks for a timeout, and the check
retires what has been in flight for too long by then. If it does, the transfer that was in flight
before the tick has been serviced by it, and is the one retired or has made room for it. -/
theorem serviced_before_timing_out (platform : σ) (config : Config) (xs : List Expander)
    (h : (create platform config xs).run ms = some (replies, s)) {as : List (Act σ)} {b : Bus σ}
    (hpath : s.bus.Path as b) (hpolled : b.config.delivery = .polled) :
    b.tick = b.handleEvent.checkTimeout ∧
    (∀ t, b.CheckRetires t ↔ b.handleEvent.overdue? = some t) ∧
    ∀ t, b.CheckRetires t → ∃ u, b.active = some u ∧ (b.LeavesPending u t ∨ b.Replaces u t) := by
  have hb := hpath.coherent (coherent_run h (Bus.coherent_create platform config))
  exact ⟨Bus.tick_of_polled hpolled, fun _ => hb.checkRetires_iff hpolled,
    fun t ht => hb.checkRetires_cases hpolled ht⟩

def stuckBus : System Bench :=
  create ((Bench.create 0 20).adjust (.script 0 [[.send 1]])) ⟨Config.standardMode, 10, .polled⟩ []

theorem serviced_before_timing_out_stuck :
    ∃ s t u, stuckBus.run [.call 0 (.submit 1)] = some ([.ok], s) ∧ s.bus.CheckRetires t ∧
      s.bus.active = some u ∧ s.bus.LeavesPending u t := by
  have hrun : ∃ s, stuckBus.run [.call 0 (.submit 1)] = some ([.ok], s) ∧
      s.bus.config.delivery = .polled ∧ s.bus.queue.toList = [1] ∧
      s.bus.tick.history = [.recovered, .clockSet Config.standardMode, .reset, .closed,
        .retired (Transfer.ofCommand 1 .blank) .timeout] ++ s.bus.handleEvent.history :=
    ⟨_, rfl, rfl, rfl, rfl⟩
  obtain ⟨s, hrun, hpolled, hqueue, hhistory⟩ := hrun
  have hretires : s.bus.CheckRetires (Transfer.ofCommand 1 .blank) := ⟨_, hhistory, by simp⟩
  obtain ⟨-, -, hserviced⟩ := serviced_before_timing_out _ _ _ hrun (.nil s.bus) hpolled
  obtain ⟨u, hu, hleft | hreplaced⟩ := hserviced _ hretires
  · exact ⟨s, _, u, hrun, hretires, hu, hleft⟩
  · have hnext := hreplaced.next
    rw [hqueue] at hnext
    cases hnext

/-- The first transfer ends, and the second one is given up in the same tick. The hardware was never
asked to advance it. -/
theorem times_out_unserviced :
    ∃ s t, hastyBus.run [.call 0 (.submit 1), .call 0 (.submit 2)] = some ([.ok, .ok], s) ∧
      s.bus.config.delivery = .polled ∧ s.bus.CheckRetires t ∧
      (¬ ∃ u, s.bus.active = some u ∧ s.bus.LeavesPending u t) ∧
      ∀ u actions u', .serviced u actions u' ∈ s.bus.tick.history → u.request ≠ t.request := by
  have hrun : ∃ s actions u', hastyBus.run [.call 0 (.submit 1), .call 0 (.submit 2)] =
        some ([.ok, .ok], s) ∧
      s.bus.config.delivery = .polled ∧ s.bus.active = some (Transfer.ofCommand 1 .blank) ∧
      s.bus.tick.history = [.recovered, .clockSet Config.standardMode, .reset, .closed,
        .retired ((Transfer.ofCommand 2 .blank).stamp 20) .timeout] ++ s.bus.handleEvent.history ∧
      s.bus.handleEvent.history = [.begun (.ofCommand 2 .blank), .retired u' .ok,
        .serviced (.ofCommand 1 .blank) actions u', .accepted 2, .begun (.ofCommand 1 .blank),
        .accepted 1] := ⟨_, _, _, rfl, rfl, rfl, rfl, rfl⟩
  obtain ⟨s, actions, u', hrun, hpolled, hactive, hcheck, hevent⟩ := hrun
  have hretires : s.bus.CheckRetires ((Transfer.ofCommand 2 .blank).stamp 20) :=
    ⟨_, hcheck, by simp⟩
  refine ⟨s, _, hrun, hpolled, hretires, ?_, fun u acts u'' hmem => ?_⟩
  · rintro ⟨u, hu, hleft⟩
    obtain rfl := Option.some.inj (hactive.symm.trans hu)
    have hrequest := congrArg Transfer.request hleft.advanced
    rw [Transfer.request_advance] at hrequest
    cases hrequest
  · rw [hcheck, hevent] at hmem
    obtain ⟨rfl, -⟩ : u = .ofCommand 1 .blank ∧ acts = actions ∧ u'' = u' := by simpa using hmem
    decide

end System

end SharedBus
