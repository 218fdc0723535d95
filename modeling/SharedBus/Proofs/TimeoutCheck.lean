import SharedBus.Proofs.Run
import SharedBus.Proofs.Stamps

/-!
# The timeout check

Without a timeout the check does nothing. Otherwise it reads the clock once, and gives up the
transfer in flight if the time since its stamp is over the timeout: the request at the head of the
queue is retired with what its transfer has come to, the platform is closed, reset and told the
clock, and the next transfer is begun and stamped with a reading of its own. Nothing else changes.
-/

namespace SharedBus

def Transfer.Fits (t : Transfer) : Prop := t.received.bytes.length ≤ Buffer.capacity

theorem Transfer.Fits.perform {t : Transfer} (h : t.Fits) (a : Action) : (t.perform a).2.Fits := by
  cases a with
  | send =>
    simp only [Transfer.perform, Transfer.send]
    split <;> exact h
  | complete status =>
    simp only [Transfer.perform, Transfer.complete]
    split <;> exact h
  | receive byte =>
    by_cases hroom : t.received.bytes.length < Buffer.capacity
    · have hfits : (⟨t.received.bytes ++ [byte]⟩ : Buffer).bytes.length ≤ Buffer.capacity := by
        rw [List.length_append]
        exact hroom
      simp only [Transfer.perform, Transfer.receive, Buffer.push?_eq_some byte hroom]
      split
      · exact h
      · exact hfits
    · have hfull : t.received.push? byte = none := by
        rw [Buffer.push?, Buffer.append?, if_neg]
        exact fun hle => hroom hle
      simp only [Transfer.perform, Transfer.receive, hfull, ite_self]
      exact h

theorem Transfer.Fits.advance {t : Transfer} (h : t.Fits) (actions : List Action) :
    (t.advance actions).Fits := by
  induction actions generalizing t with
  | nil => exact h
  | cons a actions ih => exact ih (h.perform a)

/-- So the request gets all of them when the transfer is retired. -/
theorem Request.retire_of_fits {t : Transfer} (h : t.Fits) (q : Request) (status : Status) :
    q.retire t status =
      { q with received := t.received, count := t.byteCount, status := status } := by
  have hheld : Buffer.holding t.received.bytes = t.received :=
    congrArg Buffer.mk (Buffer.bytes_holding h)
  rw [retire, hheld]

namespace Bus

variable {σ : Type} [Platform σ] {b : Bus σ} {t : Transfer}

def restarted (b : Bus σ) : σ :=
  Platform.setClock b.config.clock
    (Platform.reset (Platform.close (Platform.now b.platform).2))

/-- `b'` is `b` with the transfer `t` given up and the next one begun. -/
structure TimesOut (b : Bus σ) (t : Transfer) (b' : Bus σ) : Prop where
  /-- Exactly the head of the queue is retired. -/
  queue_eq : b.queue.toList = t.request :: b'.queue.toList
  request_eq : b'.requests t.request = { b.requests t.request with
    status := .timeout, count := t.byteCount, received := t.received }
  others_eq : ∀ r, r ≠ t.request → b'.requests r = b.requests r
  history_eq : b'.history = .recovered :: (b.beginning b'.queue.toList ++
    .clockSet b.config.clock :: .reset :: .closed :: .retired t .timeout :: b.history)
  /-- With nothing left in the queue the platform is left as it was restarted. -/
  idle : b'.queue.toList = [] → b'.active = none ∧ b'.platform = b.restarted
  /-- Otherwise the next request is begun, and stamped with a reading made after that. -/
  begun : ∀ r rest, b'.queue.toList = r :: rest → ∃ now,
    Platform.now (Platform.start (b.transferFor r) b.restarted) = (now, b'.platform) ∧
      b'.active = some ((b.transferFor r).stamp now)
  recoveries_eq : b'.recoveries = b.recoveries + 1
  config_eq : b'.config = b.config
  wakes_eq : b'.wakes = fun m =>
    if (b.requests t.request).listener = some m then b.wakes m + 1 else b.wakes m

theorem platform_reclaimed (b : Bus σ) : b.readClock.2.reclaimed.platform = b.restarted := by
  have hplatform := b.readClock.2.apply_retireActive platform (fun _ _ _ _ _ _ => rfl)
    (some .timeout)
  have hconfig := b.readClock.2.config_retireActive (some .timeout)
  simp only [reclaimed, applyClock, resetPlatform, closePlatform, note, hplatform, hconfig]
  rfl

/-- All that a recovery does after the clock was read. -/
theorem Coherent.timesOut (h : b.Coherent) (ht : b.active = some t) (hfits : t.Fits) :
    b.TimesOut t b.readClock.2.recover := by
  have hread : b.readClock.2.active = some t := ht
  have hqueue : b.readClock.2.recover.queue.toList = b.queue.toList.tail :=
    h.readClock.toList_recover hread
  have hrequests : b.readClock.2.recover.requests = b.readClock.2.reclaimed.requests :=
    b.readClock.2.reclaimed.apply_startNext requests fun _ _ _ _ => rfl
  have hwakes : b.readClock.2.recover.wakes = b.readClock.2.reclaimed.wakes :=
    b.readClock.2.reclaimed.apply_startNext wakes fun _ _ _ _ => rfl
  obtain ⟨hreclaimed, hwaiting⟩ := h.readClock.accords_reclaimed hread
  have hhead : b.readClock.2.reclaimed.queue.head =
      b.readClock.2.recover.queue.toList.head? := by
    rw [← hreclaimed.head?_toList, hwaiting, hqueue]
    rfl
  refine ⟨?_, ?_, fun r hr => ?_, ?_, fun hempty => ?_, fun r rest hnext => ?_,
    recoveries_recover _, config_recover _, ?_⟩
  · rw [hqueue]
    exact h.toList_eq_cons ht
  · have hretired : b.readClock.2.recover.requests t.request =
        (b.requests t.request).retire t .timeout := by
      rw [hrequests, requests_reclaimed hread]
      exact if_pos rfl
    rw [hretired, Request.retire_of_fits hfits]
  · rw [hrequests, requests_reclaimed hread]
    exact if_neg hr
  · rw [hqueue]
    exact h.readClock.history_recover hread
  · rw [hempty, List.head?_nil] at hhead
    have hidle := b.readClock.2.reclaimed.startNext_of_empty hhead
    exact ⟨(congrArg active hidle).trans (active_reclaimed _),
      (congrArg platform hidle).trans b.platform_reclaimed⟩
  · rw [hnext, List.head?_cons] at hhead
    have hgiven : b.readClock.2.reclaimed.transferFor r = b.transferFor r :=
      congrArg (Transfer.ofCommand r) (b.readClock.2.command_retireActive (some .timeout) r)
    have hbegun := b.readClock.2.reclaimed.startNext_of_waiting (active_reclaimed _) hhead
    rw [hgiven, b.platform_reclaimed] at hbegun
    exact ⟨_, Prod.ext rfl (congrArg platform hbegun).symm, congrArg active hbegun⟩
  · rw [hwakes, reclaimed, b.readClock.2.retireActive_of_active hread]
    rfl

/-- What is in flight fits into its request. -/
theorem Path.fits {platform : σ} {config : Config} {as : List (Act σ)}
    (hpath : (Bus.create platform config).Path as b) (ht : b.active = some t) : t.Fits := by
  obtain ⟨r, c, now, actions, -, rfl⟩ := hpath.stamped ht
  exact Transfer.Fits.advance (Nat.zero_le _) actions

end Bus

namespace System

variable {σ : Type} [Platform σ] {s : System σ} {ms : List (Move σ)} {replies : List Reply}

/-- The timeout check in every state that a run leads to, after or within a call. Without a timeout
it changes nothing. With one it reads the clock once, and that is all unless the time that has
passed since the stamp of the transfer in flight is over the timeout; then the transfer is given
up. The stamp is the time shown right after the platform had begun the transfer. -/
theorem checked_for_timeout (platform : σ) (config : Config) (xs : List Expander)
    (h : (create platform config xs).run ms = some (replies, s)) {as : List (Act σ)} {b : Bus σ}
    (hpath : s.bus.Path as b) :
    (b.config.timeout = 0 → b.checkTimeout = b) ∧
    (b.config.timeout ≠ 0 →
      (∀ t, b.active = some t →
        (Platform.now b.platform).1.since t.startedAt ≤ b.config.timeout) →
      b.checkTimeout = { b with platform := (Platform.now b.platform).2 }) ∧
    (b.config.timeout ≠ 0 → ∀ t, b.active = some t →
      b.config.timeout < (Platform.now b.platform).1.since t.startedAt →
      b.TimesOut t b.checkTimeout) ∧
    ∀ t, b.active = some t → ∃ as u, (Bus.create platform config).BegunOn as b u t.startedAt ∧
      u.request = t.request ∧ u.command = t.command := by
  obtain ⟨as₀, hpath₀⟩ := path_run h
  have hall : (Bus.create platform config).Path (as₀ ++ as) b := hpath₀.trans hpath
  have hcoherent := hall.coherent (Bus.coherent_create platform config)
  refine ⟨fun hzero => ?_, fun hlimit hintime => ?_, fun hlimit t ht hlate => ?_, fun t ht => ?_⟩
  · rw [Bus.checkTimeout_eq, if_pos hzero]
  · have hnone : b.overdue? = none := Bus.overdue?_eq_none_iff.2 fun t ht _ => hintime t ht
    rw [Bus.checkTimeout_eq, if_neg hlimit, if_pos hnone]
    rfl
  · rw [Bus.checkTimeout_of_overdue (Bus.overdue?_eq_some_iff.2 ⟨ht, hlimit, hlate⟩)]
    exact hcoherent.timesOut ht (hall.fits ht)
  · obtain ⟨r, c, now, actions, hbegun, rfl⟩ := hall.stamped ht
    refine ⟨as₀ ++ as, .ofCommand r c, ?_, ?_, ?_⟩
    · rwa [Transfer.startedAt_advance]
    · rw [Transfer.request_advance]
      rfl
    · rw [Transfer.command_advance]
      rfl

def dawdlingMoves : List (Move Bench) :=
  [.call 0 (.submit 1), .call 0 (.submit 2), .shift (Bench.create 50 1)]

theorem checked_for_timeout_dawdling :
    ∃ s t, (create (Bench.create 5 1) ⟨100000, 10, .interrupt⟩ []).run dawdlingMoves =
        some ([.ok, .ok, .done], s) ∧
      s.bus.active = some t ∧ t.startedAt = 5 ∧ s.bus.TimesOut t s.bus.checkTimeout ∧
      ∃ as u, (Bus.create (Bench.create 5 1) ⟨100000, 10, .interrupt⟩).BegunOn as s.bus u 5 ∧
        u.request = 1 := by
  have hend : ((create (Bench.create 5 1) ⟨100000, 10, .interrupt⟩ []).run dawdlingMoves).map
      (fun x => (x.1, x.2.bus.active, x.2.bus.config.timeout,
        (Platform.now x.2.bus.platform).1)) =
      some ([.ok, .ok, .done], some ((Transfer.ofCommand 1 .blank).stamp 5), 10, 50) := rfl
  obtain ⟨⟨replies, s⟩, hrun, heq⟩ := Option.map_eq_some_iff.1 hend
  simp only [Prod.mk.injEq] at heq
  obtain ⟨rfl, hactive, hlimit, hnow⟩ := heq
  obtain ⟨-, -, hlate, hstamped⟩ := checked_for_timeout _ _ _ hrun (.nil s.bus)
  obtain ⟨as, u, hbegun, hrequest, -⟩ := hstamped _ hactive
  refine ⟨s, _, hrun, hactive, rfl, hlate ?_ _ hactive ?_, as, u, hbegun, hrequest⟩
  · rw [hlimit]
    decide
  · rw [hlimit, hnow]
    decide

end System

end SharedBus
