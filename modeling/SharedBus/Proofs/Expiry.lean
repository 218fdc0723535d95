import SharedBus.Proofs.Run
import SharedBus.Proofs.Waiting

/-!
# Waiting without events

Where events come by interrupt and none does, the clock alone ends a wait. A bench
whose clock moves carries each transfer in turn past its stamp by more than the
timeout, and the transfer is given up: up to the request waited for, the queue is
retired front to back, and each time the hardware is reset. A clock that stops at
the last instant must have room for that.
-/

namespace SharedBus

def Event.retirement? : Event → Option (RequestId × Status)
  | .retired t s => some (t.request, s)
  | _ => none

def History.retirements (h : History) : List (RequestId × Status) :=
  (h.filterMap Event.retirement?).reverse

namespace Bus

section GivesUp

variable {σ : Type} {b b₁ b₂ : Bus σ} {t : Transfer} {r : RequestId}

def standing (b : Bus σ) (r : RequestId) : Transfer :=
  match b.active with
  | some t => if t.request = r then t.stamp 0 else b.transferFor r
  | none => b.transferFor r

/-- `b'` is `b` once the first `n` requests of the queue have timed out one after the other,
with the progress that each had made. -/
structure GivesUp (b : Bus σ) (n : Nat) (b' : Bus σ) : Prop where
  toList_eq : b'.queue.toList = b.queue.toList.drop n
  requests_of_mem : ∀ r ∈ b.queue.toList.take n,
    b'.requests r = (b.requests r).retire (b.standing r) .timeout
  requests_of_not_mem : ∀ r, r ∉ b.queue.toList.take n → b'.requests r = b.requests r
  recoveries_eq : b'.recoveries = b.recoveries + UInt32.ofNat n
  retirements_eq : b'.history.retirements =
    b.history.retirements ++ (b.queue.toList.take n).map fun r => (r, .timeout)
  resets_eq : b'.history.count .reset = b.history.count .reset + n

theorem standing_of_active (ht : b.active = some t) (r : RequestId) :
    b.standing r = if t.request = r then t.stamp 0 else b.transferFor r := by
  rw [standing, ht]

/-- Giving up some requests and then more, when the first part has brought the later ones no
further. -/
theorem GivesUp.trans {m n : Nat} (h : b.GivesUp m b₁) (h' : b₁.GivesUp n b₂)
    (hnodup : b.queue.toList.Nodup)
    (hstanding : ∀ r ∈ b₁.queue.toList, b₁.standing r = b.standing r) : b.GivesUp (m + n) b₂ := by
  have htake : b.queue.toList.take (m + n) =
      b.queue.toList.take m ++ b₁.queue.toList.take n := by rw [h.toList_eq, List.take_add]
  have hdisjoint : ∀ r ∈ b.queue.toList.take m, r ∉ b₁.queue.toList.take n := by
    intro r hfront hback
    rw [h.toList_eq] at hback
    rw [← List.take_append_drop m b.queue.toList, List.nodup_append] at hnodup
    exact hnodup.2.2 r hfront r (List.mem_of_mem_take hback) rfl
  refine ⟨?_, fun r hr => ?_, fun r hr => ?_, ?_, ?_, ?_⟩
  · rw [h'.toList_eq, h.toList_eq, List.drop_drop]
  · rw [htake, List.mem_append] at hr
    rcases hr with hr | hr
    · rw [h'.requests_of_not_mem r (hdisjoint r hr), h.requests_of_mem r hr]
    · have hkept : b₁.requests r = b.requests r :=
        h.requests_of_not_mem r fun hfront => hdisjoint r hfront hr
      rw [h'.requests_of_mem r hr, hkept, hstanding r (List.mem_of_mem_take hr)]
  · rw [htake, List.mem_append, not_or] at hr
    rw [h'.requests_of_not_mem r hr.2, h.requests_of_not_mem r hr.1]
  · rw [h'.recoveries_eq, h.recoveries_eq, UInt32.ofNat_add, UInt32.add_assoc]
  · rw [h'.retirements_eq, h.retirements_eq, htake, List.map_append, List.append_assoc]
  · rw [h'.resets_eq, h.resets_eq, Nat.add_assoc]

theorem GivesUp.of_shift {platform : σ} {n : Nat}
    (h : GivesUp { b with platform := platform } n b₁) : b.GivesUp n b₁ :=
  ⟨h.toList_eq, h.requests_of_mem, h.requests_of_not_mem, h.recoveries_eq, h.retirements_eq,
    h.resets_eq⟩

/-! ### One recovery -/

variable [Platform σ]

/-- To begin a transfer enters nothing else in the history. -/
theorem history_startNext {α : Type} (f : History → α) (hf : ∀ t h, f (.begun t :: h) = f h)
    (b : Bus σ) : f b.startNext.history = f b.history := by
  rcases b.startNext_cases with he | ⟨r, hfree, hhead⟩
  · rw [he]
  · rw [b.startNext_of_waiting hfree hhead]
    exact hf _ b.history

theorem history_recover {α : Type} (f : History → α) (hf : ∀ t h, f (.begun t :: h) = f h)
    (hrecovered : ∀ h, f (.recovered :: h) = f h) (b : Bus σ) :
    f b.recover.history = f b.reclaimed.history :=
  (hrecovered _).trans (history_startNext f hf b.reclaimed)

theorem Coherent.givesUp_recover (h : b.Coherent) (ht : b.active = some t) :
    b.GivesUp 1 b.recover := by
  have hqueue := h.toList_eq_cons ht
  have htake : b.queue.toList.take 1 = [t.request] := by rw [hqueue]; rfl
  have hrequests : b.recover.requests = _ := (requests_startNext _).trans (requests_reclaimed ht)
  have hhistory := history_reclaimed ht
  refine ⟨?_, fun r hr => ?_, fun r hr => ?_, b.recoveries_recover, ?_, ?_⟩
  · rw [h.toList_recover ht, List.drop_one]
  · rw [htake, List.mem_singleton] at hr
    rw [hrequests, hr, standing_of_active ht, if_pos rfl]
    exact if_pos rfl
  · rw [htake, List.mem_singleton] at hr
    rw [hrequests]
    exact if_neg hr
  · rw [history_recover History.retirements (fun _ _ => rfl) fun _ => rfl, hhistory, htake]
    exact List.reverse_cons
  · rw [history_recover (List.count .reset) (by simp) (by simp), hhistory]
    simp

/-- What is begun next has made no progress. -/
theorem standing_startNext (hfree : b.active = none) (r : RequestId) :
    b.startNext.standing r = b.transferFor r := by
  cases hhead : b.queue.head with
  | none =>
    rw [b.startNext_of_empty hhead, standing, hfree]
  | some q =>
    rw [b.startNext_of_waiting hfree hhead, standing_of_active rfl]
    by_cases hq : q = r
    · subst hq
      exact if_pos rfl
    · exact if_neg hq

/-- A recovery gets the other requests no further. -/
theorem standing_recover (ht : b.active = some t) (hr : t.request ≠ r) :
    b.recover.standing r = b.standing r := by
  have hkept : b.reclaimed.requests r = b.requests r := by
    rw [requests_reclaimed ht]
    exact if_neg (Ne.symm hr)
  have hstarted := standing_startNext b.active_reclaimed r
  rw [transferFor, hkept] at hstarted
  rw [standing_of_active ht, if_neg hr]
  exact hstarted

end GivesUp

/-! ### The clock of a bench -/

section Clock

variable {b : Bus Bench} {t : Transfer} {r : RequestId}

/-- What stalls is given up: events come by interrupt, there is a limit, and the clock moves. -/
structure Expires (b : Bus Bench) : Prop where
  interrupt : b.config.delivery = .interrupt
  limited : 0 < b.config.timeout
  moving : 0 < b.platform.step

/-- The later of the clock and the stamp of the transfer in flight. -/
def horizon (b : Bus Bench) : Ticks :=
  b.active.elim b.platform.time fun t => max b.platform.time t.startedAt

/-- How far a transfer that stalls can move the horizon: to the first reading past the limit, and
over this reading, the cost of beginning the next transfer and the reading that stamps it. -/
def patience (b : Bus Bench) : Ticks :=
  b.config.timeout + 3 * b.platform.step + b.platform.startCost

def atTime (b : Bus Bench) (now : Ticks) : Bus Bench :=
  { b with platform := { b.platform with time := now } }

theorem horizon_of_active (ht : b.active = some t) :
    b.horizon = max b.platform.time t.startedAt := by
  rw [horizon, ht, Option.elim_some]

theorem Expires.recover (h : b.Expires) : b.recover.Expires := by
  have hconfig := b.config_recover
  have hstep := bench_recover Bench.step (fun _ _ _ => rfl) b
  exact ⟨by rw [hconfig, h.interrupt], by rw [hconfig]; exact h.limited,
    by rw [hstep]; exact h.moving⟩

theorem patience_recover (b : Bus Bench) : b.recover.patience = b.patience := by
  rw [patience, config_recover, bench_recover Bench.step fun _ _ _ => rfl,
    bench_recover Bench.startCost fun _ _ _ => rfl, patience]

theorem horizon_startNext (hfree : b.active = none) :
    b.startNext.horizon ≤ b.platform.time + b.platform.startCost + b.platform.step := by
  cases hhead : b.queue.head with
  | none =>
    rw [b.startNext_of_empty hhead, horizon, hfree, Option.elim_none, Nat.add_assoc]
    exact Nat.le_add_right _ _
  | some q =>
    rw [b.startNext_of_waiting hfree hhead, horizon_of_active rfl]
    have hbegun := b.platform.time.after_le_add b.platform.startCost
    have hread := (b.platform.time.after b.platform.startCost).after_le_add b.platform.step
    refine Nat.max_le.2 ⟨?_, ?_⟩
    · exact Nat.le_trans hread (Nat.add_le_add_right hbegun _)
    · exact Nat.le_trans hbegun (Nat.le_add_right _ _)

theorem horizon_recover (b : Bus Bench) :
    b.recover.horizon ≤ b.platform.time + b.platform.startCost + b.platform.step := by
  have hstarted := horizon_startNext b.active_reclaimed
  rw [← b.platform_retireActive (some .timeout)]
  exact hstarted

/-- Without events a tick reads the clock, and recovers if the reading is late. -/
theorem Expires.tick_eq (h : b.Expires) (ht : b.active = some t) :
    b.tick = if t.startedAt + b.config.timeout < b.platform.time
      then (b.atTime (b.platform.time.after b.platform.step)).recover
      else b.atTime (b.platform.time.after b.platform.step) := by
  have hlate : b.config.timeout < b.readClock.1.since t.startedAt ↔
      t.startedAt + b.config.timeout < b.platform.time := Nat.lt_sub_iff_add_lt'
  rw [tick_of_interrupt h.interrupt]
  rcases b.checkTimeout_cases with ⟨hzero, -⟩ | ⟨-, he, hintime⟩ | ⟨u, -, hu, hpast, he⟩
  · exact absurd hzero (Nat.ne_of_gt h.limited)
  · rw [he, if_neg (mt hlate.2 (Nat.not_lt.2 (hintime t ht)))]
    rfl
  · obtain rfl := Option.some.inj (ht.symm.trans hu)
    rw [he, if_pos (hlate.1 hpast)]
    rfl

/-- As long as the clock has room, a wait comes to a recovery, and to nothing before it. -/
theorem Expires.exists_wait {b : Bus Bench} (h : b.Expires) (ht : b.active = some t)
    (hclock : b.platform.time + b.platform.step ≤ Ticks.last)
    (hroom : t.startedAt + b.config.timeout + 2 * b.platform.step ≤ Ticks.last) :
    ∃ n now, now ≤ max (b.platform.time + b.platform.step)
        (t.startedAt + b.config.timeout + 2 * b.platform.step) ∧
      ∀ r, b.isBusy r = true → ∀ limit,
        b.wait r (n + limit) = (b.atTime now).recover.wait r limit := by
  by_cases hlate : t.startedAt + b.config.timeout < b.platform.time
  · refine ⟨1, b.platform.time.after b.platform.step, ?_, fun r hr limit => ?_⟩
    · exact Nat.le_trans (Ticks.after_le_add _ _) (Nat.le_max_left _ _)
    · rw [Nat.add_comm, wait_succ_of_busy hr, h.tick_eq ht, if_pos hlate]
  · have hearly := Nat.not_lt.1 hlate
    have htick : b.tick = b.atTime (b.platform.time + b.platform.step) := by
      rw [h.tick_eq ht, if_neg hlate, Ticks.after_eq_add hclock]
    have hnext : b.platform.time + b.platform.step + b.platform.step ≤
        t.startedAt + b.config.timeout + 2 * b.platform.step := by
      rw [Nat.two_mul, Nat.add_assoc]
      exact Nat.add_le_add_right hearly _
    have hmoved : (b.atTime (b.platform.time + b.platform.step)).Expires :=
      ⟨h.interrupt, h.limited, h.moving⟩
    obtain ⟨n, now, hnow, hwait⟩ := hmoved.exists_wait ht (Nat.le_trans hnext hroom) hroom
    refine ⟨n + 1, now, ?_, fun r hr limit => ?_⟩
    · have hlater := Nat.le_trans hnext (Nat.le_max_right (b.platform.time + b.platform.step) _)
      exact Nat.le_trans hnow (Nat.max_le.2 ⟨hlater, Nat.le_max_right _ _⟩)
    · rw [Nat.add_right_comm, wait_succ_of_busy hr, htick, hwait r hr limit]
      rfl
termination_by t.startedAt + b.config.timeout + 1 - b.platform.time
decreasing_by
  have hnearer : b.platform.time < b.platform.time + b.platform.step :=
    Nat.lt_add_of_pos_right h.moving
  exact Nat.sub_lt_sub_left (Nat.lt_succ_of_le hearly) hnearer

/-- The horizon and the patience suffice for one transfer, and for beginning the next. -/
theorem Expires.exists_wait_recover (h : b.Expires) (ht : b.active = some t)
    (hroom : b.horizon + b.patience ≤ Ticks.last) :
    ∃ n now, (b.atTime now).recover.horizon ≤ b.horizon + b.patience ∧
      ∀ r, b.isBusy r = true → ∀ limit,
        b.wait r (n + limit) = (b.atTime now).recover.wait r limit := by
  have harith (time start limit step cost : Nat) :
      max (time + step) (start + limit + 2 * step) + cost + step ≤
        max time start + (limit + 3 * step + cost) := by omega
  have hbound := harith b.platform.time t.startedAt b.config.timeout b.platform.step
    b.platform.startCost
  rw [horizon_of_active ht, patience] at hroom ⊢
  have hlast := Nat.le_of_add_right_le (Nat.le_of_add_right_le (Nat.le_trans hbound hroom))
  obtain ⟨n, now, hnow, hwait⟩ := h.exists_wait ht
    (Nat.le_trans (Nat.le_max_left _ _) hlast) (Nat.le_trans (Nat.le_max_right _ _) hlast)
  refine ⟨n, now, ?_, hwait⟩
  calc (b.atTime now).recover.horizon
    _ ≤ now + b.platform.startCost + b.platform.step := (b.atTime now).horizon_recover
    _ ≤ _ := Nat.add_le_add_right (Nat.add_le_add_right hnow _) _
    _ ≤ _ := hbound

/-- A wait for a queued request gives up the transfer in flight first. -/
theorem Coherent.exists_wait_first (h : b.Coherent) (he : b.Expires) (hr : r ∈ b.queue.toList)
    (hroom : b.horizon + b.patience ≤ Ticks.last) :
    ∃ n b₁, b₁.Coherent ∧ b₁.Expires ∧ b₁.patience = b.patience ∧
      b₁.horizon ≤ b.horizon + b.patience ∧ b.GivesUp 1 b₁ ∧
      (∀ q ∈ b₁.queue.toList, b₁.standing q = b.standing q) ∧
      ∀ limit, b.wait r (n + limit) = b₁.wait r limit := by
  obtain ⟨t, ht⟩ := h.exists_active (List.ne_nil_of_mem hr)
  obtain ⟨n, now, hhorizon, hwait⟩ := he.exists_wait_recover ht hroom
  have hmoved : (b.atTime now).Coherent := h.shift _
  have hexpires : (b.atTime now).Expires := ⟨he.interrupt, he.limited, he.moving⟩
  have hgiven := (hmoved.givesUp_recover ht).of_shift
  refine ⟨n, (b.atTime now).recover, hmoved.recover ht, hexpires.recover,
    (b.atTime now).patience_recover, hhorizon, hgiven, fun q hq => ?_,
    hwait r ((h.isBusy_ticks_iff hr 0).2 hr)⟩
  refine standing_recover ht ?_
  rintro rfl
  rw [hgiven.toList_eq, List.drop_one] at hq
  have hnodup := h.nodup
  rw [h.toList_eq_cons ht, List.nodup_cons] at hnodup
  exact hnodup.1 hq

/-- A wait for the request in place `p` of the queue gives up the requests in front of it one after
the other, and then this. -/
theorem Coherent.exists_wait_givesUp (h : b.Coherent) (he : b.Expires) {p : Nat}
    (hr : b.queue.toList[p]? = some r)
    (hroom : b.horizon + (p + 1) * b.patience ≤ Ticks.last) :
    ∃ n b', (∀ limit, n ≤ limit → b.wait r limit = some (.timeout, b')) ∧
      b.GivesUp (p + 1) b' := by
  induction p generalizing b with
  | zero =>
    rw [Nat.zero_add, Nat.one_mul] at hroom
    obtain ⟨n, b₁, -, -, -, -, hgiven, -, hwait⟩ :=
      h.exists_wait_first he (List.mem_of_getElem? hr) hroom
    have hmem : r ∈ b.queue.toList.take 1 := List.mem_of_getElem? (i := 0) (by simpa using hr)
    have hstatus : (b₁.requests r).status = .timeout := by
      rw [hgiven.requests_of_mem r hmem]
      rfl
    have hidle : b₁.isBusy r = false := by
      rw [isBusy, hstatus]
      rfl
    refine ⟨n, b₁, fun limit hlimit => ?_, hgiven⟩
    obtain ⟨more, rfl⟩ := Nat.exists_eq_add_of_le hlimit
    rw [hwait, wait_of_not_busy hidle, hstatus]
  | succ p ih =>
    rw [Nat.succ_mul, Nat.add_comm ((p + 1) * b.patience), ← Nat.add_assoc] at hroom
    obtain ⟨m, b₁, hcoherent, hexpires, hpatience, hhorizon, hgiven, hstanding, hwait⟩ :=
      h.exists_wait_first he (List.mem_of_getElem? hr) (Nat.le_of_add_right_le hroom)
    have hr₁ : b₁.queue.toList[p]? = some r := by
      rw [hgiven.toList_eq, List.getElem?_drop, Nat.add_comm, hr]
    have hroom₁ : b₁.horizon + (p + 1) * b₁.patience ≤ Ticks.last := by
      rw [hpatience]
      exact Nat.le_trans (Nat.add_le_add_right hhorizon _) hroom
    obtain ⟨n, b', hwait₁, hgiven₁⟩ := ih hcoherent hexpires hr₁ hroom₁
    refine ⟨m + n, b', fun limit hlimit => ?_, ?_⟩
    · obtain ⟨more, rfl⟩ := Nat.exists_eq_add_of_le hlimit
      rw [Nat.add_assoc, hwait]
      exact hwait₁ _ (Nat.le_add_right n more)
    · rw [Nat.add_comm (p + 1)]
      exact hgiven.trans hgiven₁ h.nodup hstanding

end Clock

end Bus

namespace System

/-- Without events a wait for the request in place `p` of the queue times out, given that the clock
has room for `p + 1` transfers that stall. By then exactly the requests up to that place have been
given up. -/
theorem wait_times_out {bench : Bench} {config : Config} {xs : List Expander}
    {ms : List (Move Bench)} {replies : List Reply} {s : System Bench} {r : RequestId} {p : Nat}
    (h : (create bench config xs).run ms = some (replies, s))
    (hinterrupt : s.bus.config.delivery = .interrupt) (htimeout : 0 < s.bus.config.timeout)
    (hstep : 0 < s.bus.platform.step) (hr : s.bus.queue.toList[p]? = some r)
    (hroom : s.bus.horizon + (p + 1) *
      (s.bus.config.timeout + 3 * s.bus.platform.step + s.bus.platform.startCost) ≤ Ticks.last) :
    ∃ n b, (∀ limit, n ≤ limit → s.bus.wait r limit = some (.timeout, b)) ∧
      s.bus.GivesUp (p + 1) b := by
  have hs : s.bus.Coherent := coherent_run h (Bus.coherent_create bench config)
  exact hs.exists_wait_givesUp ⟨hinterrupt, htimeout, hstep⟩ hr hroom

def stallingBench : Bench :=
  { Bench.create 0 1 with rounds := fun a => if a = 0x48 then [[.send 1]] else [] }

/-- A transfer that has come half way is given up, and then one that has not come anywhere. -/
theorem wait_times_out_stalling :
    ∃ replies s n b, (create stallingBench ⟨Config.standardMode, 5, .interrupt⟩ []).run
        [.call 0 .bringUp, .call 0 (.setWrite 1 0x48 [1, 2]), .call 0 (.submit 1),
          .call 0 (.submit 2), .call 0 .handleEvent] = some (replies, s) ∧
      s.bus.wait 2 n = some (.timeout, b) ∧ (b.requests 1).outcome = (.timeout, 1) ∧
      (b.requests 2).outcome = (.timeout, 0) ∧ b.recoveries = 2 ∧ b.queue.toList = [] := by
  have hrun : ∃ replies s, (create stallingBench ⟨Config.standardMode, 5, .interrupt⟩ []).run
        [.call 0 .bringUp, .call 0 (.setWrite 1 0x48 [1, 2]), .call 0 (.submit 1),
          .call 0 (.submit 2), .call 0 .handleEvent] = some (replies, s) ∧
      s.bus.config = ⟨Config.standardMode, 5, .interrupt⟩ ∧ s.bus.platform.step = 1 ∧
      s.bus.platform.startCost = 0 ∧ s.bus.horizon = 1 ∧ s.bus.queue.toList = [1, 2] ∧
      s.bus.recoveries = 0 ∧ (s.bus.standing 1).byteCount = 1 ∧
      (s.bus.standing 2).byteCount = 0 := ⟨_, _, rfl, rfl, rfl, rfl, rfl, rfl, rfl, rfl, rfl⟩
  obtain ⟨replies, s, hrun, hconfig, hstep, hcost, hhorizon, hqueue, hcount, hone, htwo⟩ := hrun
  obtain ⟨n, b, hwait, hgiven⟩ := wait_times_out (p := 1) (r := 2) hrun (by rw [hconfig])
    (by rw [hconfig]; decide) (by rw [hstep]; decide) (by rw [hqueue]; rfl)
    (by rw [hconfig, hstep, hcost, hhorizon]; decide)
  have hfirst := hgiven.requests_of_mem 1 (by rw [hqueue]; decide)
  have hsecond := hgiven.requests_of_mem 2 (by rw [hqueue]; decide)
  refine ⟨replies, s, n, b, hrun, hwait n (Nat.le_refl n), ?_, ?_, ?_, ?_⟩
  · rw [hfirst]
    exact congrArg (Prod.mk Status.timeout) hone
  · rw [hsecond]
    exact congrArg (Prod.mk Status.timeout) htwo
  · rw [hgiven.recoveries_eq, hcount]
    rfl
  · rw [hgiven.toList_eq, hqueue]
    rfl

end System

end SharedBus
