import SharedBus.Proofs.Conservation
import SharedBus.Proofs.TimeoutCheck

/-!
# How far a wait drives the bus

A tick retires at most one request, unless the bus is polled: then the event may end one
transfer and the timeout check give up the next one, which the event has begun. So a wait
for the request at position `p` retires the first `p + 1` requests of the queue, in order,
and on a polled bus sometimes one more, which has timed out before the hardware was ever
asked to advance it. Whatever stands behind waits on.
-/

namespace SharedBus

namespace Bus

variable {σ : Type} [Platform σ] {b b' : Bus σ} {t u : Transfer} {r q : RequestId}

theorem ticks_succ (b : Bus σ) (n : Nat) : b.ticks (n + 1) = (b.ticks n).tick := by
  induction n generalizing b with
  | zero => rfl
  | succ n ih => exact ih b.tick

theorem config_ticks (b : Bus σ) (n : Nat) : (b.ticks n).config = b.config := by
  induction n with
  | zero => rfl
  | succ n ih => rw [ticks_succ, config_tick, ih]

/-! ### One tick -/

/-- One tick ends the transfer of `r`, begins that of `q` and gives it up. Of the queue only
`rest` is left. -/
structure Oversteps (b : Bus σ) (r q : RequestId) (rest : List RequestId) : Prop where
  polled : b.config.delivery = .polled
  queue_eq : b.queue.toList = r :: q :: rest
  left_eq : b.tick.queue.toList = rest
  status_eq : (b.tick.requests q).status = .timeout
  history_eq : ∃ t actions now, t.request = r ∧ (t.advance actions).status ≠ .pending ∧
    b.tick.history = .recovered :: (b.beginning rest ++
      [.clockSet b.config.clock, .reset, .closed, .retired ((b.transferFor q).stamp now) .timeout,
        .begun (b.transferFor q), .retired (t.advance actions) (t.advance actions).status,
        .serviced t actions (t.advance actions)]) ++ b.history

theorem command_handleEvent (b : Bus σ) (r : RequestId) :
    (b.handleEvent.requests r).command = (b.requests r).command := by
  cases ht : b.active with
  | none => rw [b.handleEvent_of_free ht]
  | some t =>
    rw [b.handleEvent_of_active ht]
    split
    · rfl
    · rw [requests_startNext]
      exact (b.serviced t).command_retireActive none r

/-- After an event has ended a transfer, what is in flight has just been begun. -/
theorem fresh_of_ended (ht : b.active = some t)
    (hs : (t.advance (b.eventActions t)).status ≠ .pending) (hu : b.handleEvent.active = some u) :
    ∃ now, u = (b.transferFor u.request).stamp now := by
  rw [b.handleEvent_of_active ht, if_neg hs] at hu
  rcases ((b.serviced t).retireActive none).startNext_cases with he | ⟨r, hfree, hhead⟩
  · rw [he, active_retireActive] at hu
    cases hu
  · rw [startNext_of_waiting _ hfree hhead] at hu
    obtain rfl := Option.some.inj hu
    exact ⟨_, congrArg (fun c => (Transfer.ofCommand r c).stamp _)
      ((b.serviced t).command_retireActive none r)⟩

theorem exists_drop_of_eq_ite {p : Prop} [Decidable p] {xs ys : List RequestId}
    (h : ys = if p then xs else xs.tail) : ∃ k ≤ 1, ys = xs.drop k := by
  split at h
  · exact ⟨0, Nat.zero_le 1, h⟩
  · exact ⟨1, Nat.le_refl 1, by rw [h, List.drop_one]⟩

namespace Coherent

theorem toList_checkTimeout_eq (h : b.Coherent) : b.checkTimeout.queue.toList =
    if b.overdue? = none then b.queue.toList else b.queue.toList.tail := by
  cases ho : b.overdue? with
  | none =>
    rw [if_pos rfl]
    rcases checkTimeout_of_in_time ho with he | he <;> rw [he]
    rfl
  | some t =>
    rw [if_neg (Option.some_ne_none t), checkTimeout_of_overdue ho]
    exact h.readClock.toList_recover (overdue?_eq_some_iff.1 ho).1

/-- The check after an event that has ended a transfer finds the next one overdue. -/
theorem oversteps (h : b.Coherent) (hpolled : b.config.delivery = .polled) (ht : b.active = some t)
    (hs : (t.advance (b.eventActions t)).status ≠ .pending) (ho : b.handleEvent.overdue? = some u) :
    b.Oversteps t.request u.request b.handleEvent.queue.toList.tail := by
  have hu := (overdue?_eq_some_iff.1 ho).1
  have htick := tick_of_polled hpolled
  have hleft := h.handleEvent.toList_checkTimeout_eq
  rw [ho, if_neg (Option.some_ne_none u)] at hleft
  have hevent : b.handleEvent.queue.toList = b.queue.toList.tail := by
    rw [h.toList_handleEvent ht, if_neg hs]
  obtain ⟨now, hfresh⟩ := fresh_of_ended ht hs hu
  refine ⟨hpolled, ?_, by rw [htick, hleft], ?_, t, b.eventActions t, now, rfl, hs, ?_⟩
  · rw [h.toList_eq_cons ht, ← hevent, h.handleEvent.toList_eq_cons hu, List.tail_cons]
  · have hrecovered := outcome_recover (b := b.handleEvent.readClock.2) hu u.request
    rw [if_pos rfl] at hrecovered
    rw [htick, checkTimeout_of_overdue ho]
    exact congrArg Prod.fst hrecovered
  · have hbegun : b.beginning b.queue.toList.tail = [.begun (b.transferFor u.request)] := by
      rw [← hevent, h.handleEvent.toList_eq_cons hu]
      rfl
    rw [htick, h.handleEvent.history_checkTimeout, h.history_handleEvent]
    simp only [entries, ho, ht, if_neg hs, hbegun, config_handleEvent,
      beginning_congr b.command_handleEvent, ← hfresh, List.cons_append, List.append_assoc,
      List.nil_append]

/-- A tick retires at most one request or oversteps. -/
theorem tick_cases (h : b.Coherent) :
    (∃ k ≤ 1, b.tick.queue.toList = b.queue.toList.drop k) ∨
      ∃ r q rest, b.Oversteps r q rest := by
  cases hdelivery : b.config.delivery with
  | interrupt =>
    rw [tick_of_interrupt hdelivery]
    exact .inl (exists_drop_of_eq_ite h.toList_checkTimeout_eq)
  | polled =>
    have hcheck := h.handleEvent.toList_checkTimeout_eq
    rw [tick_of_polled hdelivery]
    cases ht : b.active with
    | none =>
      rw [b.handleEvent_of_free ht] at hcheck ⊢
      exact .inl (exists_drop_of_eq_ite hcheck)
    | some t =>
      have hevent := h.toList_handleEvent ht
      by_cases hs : (t.advance (b.eventActions t)).status = .pending
      · rw [if_pos hs] at hevent
        rw [hevent] at hcheck
        exact .inl (exists_drop_of_eq_ite hcheck)
      · cases ho : b.handleEvent.overdue? with
        | some u => exact .inr ⟨_, _, _, h.oversteps hdelivery ht hs ho⟩
        | none =>
          rw [ho, if_pos rfl, hevent] at hcheck
          exact .inl (exists_drop_of_eq_ite hcheck)

end Coherent

/-! ### A wait -/

/-- `b'` is `b` once the first `k` requests of the queue have been retired, in order. The rest
waits as before. -/
structure Drains (b : Bus σ) (k : Nat) (b' : Bus σ) : Prop where
  left_eq : b'.queue.toList = b.queue.toList.drop k
  retired_eq : ∃ added, b'.history = added ++ b.history ∧
    History.gather Event.retired? added = b.queue.toList.take k
  done : ∀ r ∈ b.queue.toList.take k, (b'.requests r).status ≠ .pending
  pending : ∀ r ∈ b.queue.toList.drop k, (b'.requests r).status = .pending

/-- The last of the ticks from `b` to `b'` has retired `r` and begun `q`, which it has given up
itself. The hardware was never asked to advance `q`. -/
structure OverstepsLast (b : Bus σ) (r q : RequestId) (b' : Bus σ) : Prop where
  polled : b.config.delivery = .polled
  status_eq : (b'.requests q).status = .timeout
  last : ∃ n, b' = b.ticks (n + 1) ∧ (b.ticks n).Oversteps r q b'.queue.toList
  unserviced : ∀ added, b'.history = added ++ b.history →
    ∀ t actions t', .serviced t actions t' ∈ added → t.request ≠ q

/-- Before the tick that oversteps only requests up to `r` have been serviced, and by this tick
`r` alone. -/
theorem Oversteps.unserviced (h : b.Coherent) {n : Nat} {rest : List RequestId}
    (hlast : (b.ticks n).Oversteps r q rest) {added : History}
    (hhistory : (b.ticks (n + 1)).history = added ++ b.history) {t t' : Transfer}
    {actions : List Action} (hmem : .serviced t actions t' ∈ added) : t.request ≠ q := by
  obtain ⟨earlier, hearlier, hservice, hconserved⟩ := h.ticks_append n
  have hnodup := h.nodup
  rw [hconserved, hlast.queue_eq, List.nodup_append, List.nodup_cons] at hnodup
  obtain ⟨-, ⟨hr, -⟩, hretired⟩ := hnodup
  obtain ⟨u, performed, now, hu, -, htick⟩ := hlast.history_eq
  rw [← ticks_succ, hhistory, hearlier, ← List.append_assoc, List.append_cancel_right_eq] at htick
  rw [htick] at hmem
  rintro rfl
  rcases List.mem_append.1 hmem with hmem | hmem
  · obtain ⟨rfl, -⟩ : t = u ∧ actions = performed ∧ t' = u.advance performed := by
      simpa [not_mem_beginning (e := .serviced t actions t') rfl] using hmem
    exact hr (hu ▸ List.mem_cons_self)
  · have hquiet : .broughtUp ∉ earlier := fun hup => by cases hservice _ hup
    have hlawful : History.Lawful (earlier ++ b.history) := hearlier ▸ (h.ticks n).lawful
    have hserved := hlawful.mem_of_serviced hquiet hmem
    rw [hlawful.flying_append hquiet, ← hearlier, (h.ticks n).flying_eq, hlast.queue_eq,
      List.mem_append] at hserved
    rcases hserved with hserved | hserved
    · exact hretired _ hserved _ (List.mem_cons_of_mem _ List.mem_cons_self) rfl
    · exact hr (List.mem_singleton.1 hserved ▸ List.mem_cons_self)

namespace Coherent

theorem drains_ticks (h : b.Coherent) {n k : Nat}
    (hleft : (b.ticks n).queue.toList = b.queue.toList.drop k) : b.Drains k (b.ticks n) := by
  obtain ⟨added, hhistory, -, hconserved⟩ := h.ticks_append n
  have hretired : History.gather Event.retired? added = b.queue.toList.take k := by
    refine (List.append_left_inj (b.queue.toList.drop k)).1 ?_
    rw [List.take_append_drop, ← hleft, ← hconserved]
  have hbusy : ∀ r ∈ b.queue.toList,
      ((b.ticks n).requests r).status = .pending ↔ r ∈ b.queue.toList.drop k := fun r hr => by
    rw [← Status.isPending_iff, ← hleft]
    exact h.isBusy_ticks_iff hr n
  refine ⟨hleft, ⟨added, hhistory, hretired⟩, fun r hr hpending => ?_, fun r hr => ?_⟩
  · have hdisjoint := h.nodup
    rw [← List.take_append_drop k b.queue.toList, List.nodup_append] at hdisjoint
    exact hdisjoint.2.2 r hr r ((hbusy r (List.mem_of_mem_take hr)).1 hpending) rfl
  · exact (hbusy r (List.mem_of_mem_drop hr)).2 hr

/-- The last tick of a wait finds its request in the queue and takes it off. -/
theorem exists_last_tick (h : b.Coherent) {limit p : Nat} {status : Status}
    (hwait : b.wait r limit = some (status, b')) (hp : b.queue.toList[p]? = some r) :
    ∃ n j, b' = b.ticks (n + 1) ∧ (b.ticks n).queue.toList = b.queue.toList.drop j ∧ j ≤ p ∧
      r ∉ (b.ticks n).tick.queue.toList := by
  have hr : r ∈ b.queue.toList := List.mem_of_getElem? hp
  obtain ⟨k, -, hbusy, hidle, rfl, -⟩ := wait_eq_some_iff.1 hwait
  have hgone : r ∉ (b.ticks k).queue.toList := by
    rw [← h.isBusy_ticks_iff hr, hidle]
    exact Bool.false_ne_true
  cases k with
  | zero => exact absurd hr hgone
  | succ n =>
    have hqueued := (h.isBusy_ticks_iff hr n).1 (hbusy n (Nat.lt_succ_self n))
    obtain ⟨earlier, -, -, hconserved⟩ := h.ticks_append n
    have hleft : (b.ticks n).queue.toList =
        b.queue.toList.drop (History.gather Event.retired? earlier).length := by
      rw [hconserved, List.drop_left]
    rw [hleft, mem_drop_iff h.nodup hp] at hqueued
    rw [ticks_succ] at hgone
    exact ⟨n, _, rfl, hleft, hqueued, hgone⟩

/-- The last tick oversteps when it finds its request at the head of the queue and takes off
another one. -/
theorem oversteps_last (h : b.Coherent) {n p : Nat} {rest : List RequestId} {r' : RequestId}
    (hp : b.queue.toList[p]? = some r) (hleft : (b.ticks n).queue.toList = b.queue.toList.drop p)
    (hlast : (b.ticks n).Oversteps r' q rest) :
    b.queue.toList[p + 1]? = some q ∧ b.OverstepsLast r q (b.ticks (n + 1)) := by
  have hqueue := hleft.symm.trans hlast.queue_eq
  have hhead := congrArg List.head? hqueue
  have hnext := congrArg (·[1]?) hqueue
  rw [List.head?_drop, hp, List.head?_cons, Option.some.injEq] at hhead
  subst r'
  refine ⟨by rwa [List.getElem?_drop] at hnext, ?_, ?_, ⟨n, rfl, ?_⟩, ?_⟩
  · rw [← b.config_ticks n]
    exact hlast.polled
  · rw [ticks_succ]
    exact hlast.status_eq
  · rw [ticks_succ, hlast.left_eq]
    exact hlast
  · exact fun added hhistory t actions t' hmem => hlast.unserviced h hhistory hmem

/-- A wait stops at the tick that retires its request, which may overstep. -/
theorem drains_wait (h : b.Coherent) {limit p : Nat} {status : Status}
    (hwait : b.wait r limit = some (status, b')) (hp : b.queue.toList[p]? = some r) :
    b.Drains (p + 1) b' ∨
      ∃ q, b.queue.toList[p + 1]? = some q ∧ b.Drains (p + 2) b' ∧ b.OverstepsLast r q b' := by
  obtain ⟨n, j, rfl, hbefore, hj, hgone⟩ := h.exists_last_tick hwait hp
  rcases (h.ticks n).tick_cases with ⟨k, hk, hleft⟩ | ⟨r', q, rest, hlast⟩
  · rw [hbefore, List.drop_drop] at hleft
    rw [hleft, mem_drop_iff h.nodup hp] at hgone
    obtain ⟨rfl, rfl⟩ : j = p ∧ k = 1 := by omega
    exact .inl (h.drains_ticks (by rw [ticks_succ, hleft]))
  · have hleft : (b.ticks n).tick.queue.toList = b.queue.toList.drop (j + 2) := by
      rw [hlast.left_eq, ← List.drop_drop, ← hbefore, hlast.queue_eq]
      rfl
    rw [hleft, mem_drop_iff h.nodup hp] at hgone
    rw [← ticks_succ] at hleft
    rcases Nat.lt_or_ge j p with hjp | hjp
    · obtain rfl : p = j + 1 := by omega
      exact .inl (h.drains_ticks hleft)
    · obtain rfl : j = p := by omega
      obtain ⟨hnext, hover⟩ := h.oversteps_last hp hbefore hlast
      exact .inr ⟨q, hnext, h.drains_ticks hleft, hover⟩

/-- What is pending when a wait for it begins is queued if the wait returns. -/
theorem mem_of_wait (h : b.Coherent) {limit : Nat} {status : Status}
    (hwait : b.wait r limit = some (status, b')) (hr : (b.requests r).status = .pending) :
    r ∈ b.queue.toList := by
  rw [h.requests_eq, h.lawful.pending_iff, ← h.toList_eq] at hr
  rcases hr with hr | hforgets
  · exact hr
  · obtain ⟨⟨as, hpath, -⟩, hidle, -⟩ := path_wait hwait
    obtain ⟨added, hhistory, -⟩ := hpath.grows
    have h' := hpath.coherent h
    rw [h'.requests_eq, hhistory] at hidle
    exact absurd ((hhistory ▸ h'.lawful).of_forgets (hforgets.append added)).1 hidle

end Coherent

end Bus

namespace System

variable {σ : Type} [Platform σ] {s : System σ} {ms : List (Move σ)} {replies : List Reply}

/-- How far a wait drives the bus, in every state that a run leads to, after or within a call. A
request that is not pending is not waited for. Otherwise the wait returns only if the request is
queued, and then the requests up to it are retired, in order and no others, save that on a polled
bus the last tick may have begun the next transfer and given it up. -/
theorem driven_by_wait (platform : σ) (config : Config) (xs : List Expander)
    (h : (create platform config xs).run ms = some (replies, s)) {as : List (Act σ)} {b : Bus σ}
    (hpath : s.bus.Path as b) (r : RequestId) :
    ((b.requests r).status ≠ .pending →
      ∀ limit, b.wait r limit = some ((b.requests r).status, b)) ∧
    ∀ limit status b', b.wait r limit = some (status, b') →
      ((b.requests r).status = .pending → r ∈ b.queue.toList) ∧
      ∀ p, b.queue.toList[p]? = some r →
        b.Drains (p + 1) b' ∨
          ∃ q, b.queue.toList[p + 1]? = some q ∧ b.Drains (p + 2) b' ∧ b.OverstepsLast r q b' := by
  have hb := hpath.coherent (coherent_run h (Bus.coherent_create platform config))
  refine ⟨fun hr limit => ?_, fun limit status b' hwait => ⟨hb.mem_of_wait hwait, fun p hp => ?_⟩⟩
  · exact Bus.wait_of_not_busy (Status.isPending_eq_false.2 hr) limit
  · exact hb.drains_wait hwait hp

def hastyBus : System Bench := create (Bench.create 0 20) ⟨Config.standardMode, 10, .polled⟩ []

/-- The first transfer succeeds, and the second one is given up by the same tick. -/
theorem driven_by_wait_hasty :
    ∃ s b', hastyBus.run [.call 0 (.submit 1), .call 0 (.submit 2), .call 0 (.submit 3)] =
        some ([.ok, .ok, .ok], s) ∧
      s.bus.wait 1 1 = some (.ok, b') ∧ b'.queue.toList = [3] ∧ s.bus.Drains 2 b' ∧
      s.bus.OverstepsLast 1 2 b' := by
  have hrun : ∃ s b', hastyBus.run [.call 0 (.submit 1), .call 0 (.submit 2),
        .call 0 (.submit 3)] = some ([.ok, .ok, .ok], s) ∧
      s.bus.wait 1 1 = some (.ok, b') ∧ s.bus.queue.toList = [1, 2, 3] ∧
      b'.queue.toList = [3] := ⟨_, _, rfl, rfl, rfl, rfl⟩
  obtain ⟨s, b', hrun, hwait, hqueue, hleft⟩ := hrun
  obtain ⟨-, hdriven⟩ := driven_by_wait _ _ _ hrun (.nil s.bus) 1
  rcases (hdriven 1 .ok b' hwait).2 0 (by rw [hqueue]; rfl) with hone | ⟨q, hq, htwo, hover⟩
  · rw [hone.left_eq, hqueue] at hleft
    cases hleft
  · rw [hqueue] at hq
    obtain rfl : 2 = q := Option.some.inj hq
    exact ⟨s, b', hrun, hwait, hleft, htwo, hover⟩

end System

end SharedBus
