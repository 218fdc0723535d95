import Mathlib.Data.List.Forall2
import SharedBus.Proofs.CallActs
import SharedBus.Proofs.Progress

/-!
# Two clocks

The same hardware may run on two clocks. Two buses are abreast when they differ in the time
alone: in the stamps of transfers, be it in flight or in the history, and in what the platform
makes of the time. A change of the clock says which platforms and which readings belong together
and asks that no timeout is told by the one clock only. Every operation then leads from buses
abreast to buses abreast, as long as the change is exact.
-/

namespace SharedBus

def Transfer.Matches (S : Ticks → Ticks → Prop) (t t' : Transfer) : Prop :=
  ∃ now, t' = t.stamp now ∧ S t.startedAt now

namespace Transfer.Matches

variable {S : Ticks → Ticks → Prop} {t t' : Transfer}

theorem stamp (t : Transfer) {now now' : Ticks} (h : S now now') :
    (t.stamp now).Matches S (t.stamp now') := ⟨now', rfl, h⟩

theorem request_eq (h : t.Matches S t') : t'.request = t.request := by
  obtain ⟨now, rfl, -⟩ := h
  rfl

theorem status_eq (h : t.Matches S t') : t'.status = t.status := by
  obtain ⟨now, rfl, -⟩ := h
  rfl

theorem startedAt (h : t.Matches S t') : S t.startedAt t'.startedAt := by
  obtain ⟨now, rfl, hnow⟩ := h
  exact hnow

theorem retire_eq (h : t.Matches S t') (q : Request) (status : Status) :
    q.retire t' status = q.retire t status := by
  obtain ⟨now, rfl, -⟩ := h
  rfl

theorem answers_eq (h : t.Matches S t') (actions : List Action) :
    t'.answers actions = t.answers actions := by
  obtain ⟨now, rfl, -⟩ := h
  exact t.answers_stamp now actions

/-- What the hardware does to a transfer leaves the stamp alone. -/
theorem advance (h : t.Matches S t') (actions : List Action) :
    (t.advance actions).Matches S (t'.advance actions) := by
  obtain ⟨now, rfl, hnow⟩ := h
  refine ⟨now, Transfer.stamp_advance t now actions, ?_⟩
  rwa [Transfer.startedAt_advance]

end Transfer.Matches

def Event.stamped : Event → Bool
  | .serviced .. | .retired .. => true
  | .reset | .clockSet _ | .closed | .begun _ | .broughtUp | .shutDown | .configured .. |
    .accepted _ | .recovered | .polled .. => false

/-- The second event is the first one but for stamps. A transfer has none when it is begun. -/
inductive Event.Matches (S : Ticks → Ticks → Prop) : Event → Event → Prop
  | same (e : Event) (he : e.stamped = false) : Matches S e e
  | serviced {before before' after after' : Transfer} (actions : List Action)
      (hbefore : before.Matches S before') (hafter : after.Matches S after') :
      Matches S (.serviced before actions after) (.serviced before' actions after')
  | retired {t t' : Transfer} (status : Status) (ht : t.Matches S t') :
      Matches S (.retired t status) (.retired t' status)

/-- A platform run by another clock. Nothing but the time makes a difference between platforms
that are `Alike`, and `Reads` relates what their clocks show. -/
structure ClockChange (σ : Type) [Platform σ] where
  Alike : σ → σ → Prop
  Reads : Ticks → Ticks → Prop
  /-- The timeouts that both clocks tell alike. -/
  Tolerates : Ticks → Prop
  /-- The first clock has not gone where the second one could not follow. -/
  Exact : σ → Prop
  exact_of_undergoes : ∀ {p p' : σ} {es : History}, Undergoes p es p' → Exact p' → Exact p
  reset : ∀ {p p' : σ}, Alike p p' → Alike (Platform.reset p) (Platform.reset p')
  setClock : ∀ {p p' : σ} (hz : Nat), Alike p p' →
    Alike (Platform.setClock hz p) (Platform.setClock hz p')
  close : ∀ {p p' : σ}, Alike p p' → Alike (Platform.close p) (Platform.close p')
  start : ∀ {p p' : σ} (t : Transfer), Alike p p' → Exact (Platform.start t p) →
    Alike (Platform.start t p) (Platform.start t p')
  actions_eq : ∀ {p p' : σ} {t t' : Transfer}, Alike p p' → t.Matches Reads t' →
    (Platform.advance t' p').1 = (Platform.advance t p).1
  advance : ∀ {p p' : σ} {t t' : Transfer}, Alike p p' → t.Matches Reads t' →
    Exact (Platform.advance t p).2 → Alike (Platform.advance t p).2 (Platform.advance t' p').2
  reads : ∀ {p p' : σ}, Alike p p' → Exact (Platform.now p).2 →
    Reads (Platform.now p).1 (Platform.now p').1
  now : ∀ {p p' : σ}, Alike p p' → Exact (Platform.now p).2 →
    Alike (Platform.now p).2 (Platform.now p').2
  late_iff : ∀ {limit start start' now now' : Ticks}, Tolerates limit → limit ≠ 0 →
    Reads start start' → Reads now now' → (limit < now'.since start' ↔ limit < now.since start)

namespace Bus

variable {σ : Type} [Platform σ] {K : ClockChange σ} {b b' : Bus σ}

/-- The buses differ in stamps and in what the platforms make of the time, and in nothing else. -/
structure Abreast (K : ClockChange σ) (b b' : Bus σ) : Prop where
  platform : K.Alike b.platform b'.platform
  tolerates : K.Tolerates b.config.timeout
  config_eq : b'.config = b.config
  requests_eq : b'.requests = b.requests
  queue_eq : b'.queue = b.queue
  active : Option.Rel (Transfer.Matches K.Reads) b.active b'.active
  recoveries_eq : b'.recoveries = b.recoveries
  wakes_eq : b'.wakes = b.wakes
  history : List.Forall₂ (Event.Matches K.Reads) b.history b'.history

theorem Records.exact (h : Records b b') (he : K.Exact b'.platform) : K.Exact b.platform := by
  obtain ⟨added, -, hpast⟩ := h
  exact K.exact_of_undergoes hpast he

namespace Abreast

/-- A fresh bus on a platform run by another clock. -/
theorem create {p p' : σ} (hp : K.Alike p p') {config : Config}
    (hconfig : K.Tolerates config.timeout) :
    Abreast K (Bus.create p config) (Bus.create p' config) :=
  ⟨hp, hconfig, rfl, rfl, rfl, .none, rfl, rfl, .nil⟩

theorem active_eq_none (h : Abreast K b b') (hfree : b.active = none) : b'.active = none := by
  have hactive := h.active
  rw [hfree] at hactive
  generalize b'.active = x at hactive
  cases hactive
  rfl

theorem exists_active (h : Abreast K b b') {t : Transfer} (ht : b.active = some t) :
    ∃ t', b'.active = some t' ∧ t.Matches K.Reads t' := by
  have hactive := h.active
  rw [ht] at hactive
  generalize b'.active = x at hactive
  cases hactive with
  | some hmatches => exact ⟨_, rfl, hmatches⟩

/-! ### The parts of an operation -/

theorem retireActive (h : Abreast K b b') (status : Option Status) :
    Abreast K (b.retireActive status) (b'.retireActive status) := by
  cases ht : b.active with
  | none =>
    rw [b.retireActive_of_free ht, b'.retireActive_of_free (h.active_eq_none ht)]
    exact h
  | some t =>
    obtain ⟨t', ht', hmatches⟩ := h.exists_active ht
    rw [b.retireActive_of_active ht, b'.retireActive_of_active ht', hmatches.status_eq,
      hmatches.request_eq, hmatches.retire_eq]
    exact { h with
      requests_eq := by rw [h.requests_eq]
      queue_eq := congrArg Queue.popFront h.queue_eq
      active := .none
      wakes_eq := by rw [h.requests_eq, h.wakes_eq]
      history := .cons (.retired _ hmatches) h.history }

theorem readClock (h : Abreast K b b') (he : K.Exact b.readClock.2.platform) :
    K.Reads b.readClock.1 b'.readClock.1 ∧ Abreast K b.readClock.2 b'.readClock.2 :=
  ⟨K.reads h.platform he, { h with platform := K.now h.platform he }⟩

theorem resetPlatform (h : Abreast K b b') : Abreast K b.resetPlatform b'.resetPlatform :=
  { h with
    platform := K.reset h.platform
    history := .cons (.same .reset rfl) h.history }

theorem closePlatform (h : Abreast K b b') : Abreast K b.closePlatform b'.closePlatform :=
  { h with
    platform := K.close h.platform
    history := .cons (.same .closed rfl) h.history }

theorem applyClock (h : Abreast K b b') : Abreast K b.applyClock b'.applyClock := by
  unfold Bus.applyClock
  rw [h.config_eq]
  exact { h with
    platform := K.setClock b.config.clock h.platform
    config_eq := rfl
    history := .cons (.same (.clockSet b.config.clock) rfl) h.history }

/-- The platform is given the same transfer by both. Only then is it stamped. -/
theorem startNext (h : Abreast K b b') (he : K.Exact b.startNext.platform) :
    Abreast K b.startNext b'.startNext := by
  cases ht : b.active with
  | some t =>
    obtain ⟨t', ht', -⟩ := h.exists_active ht
    rw [b.startNext_of_active (by simp [ht]), b'.startNext_of_active (by simp [ht'])]
    exact h
  | none =>
    have hfree := h.active_eq_none ht
    have hhead' : b'.queue.head = b.queue.head := congrArg Queue.head h.queue_eq
    cases hhead : b.queue.head with
    | none =>
      rw [b.startNext_of_empty hhead, b'.startNext_of_empty (hhead'.trans hhead)]
      exact h
    | some r =>
      have hgiven : b'.transferFor r = b.transferFor r := by
        rw [transferFor, transferFor, h.requests_eq]
      rw [b.startNext_of_waiting ht hhead] at he ⊢
      rw [b'.startNext_of_waiting hfree (hhead'.trans hhead), hgiven]
      have hstarted := K.start (b.transferFor r) h.platform
        (K.exact_of_undergoes (.reading (.nil _)) he)
      exact { h with
        platform := K.now hstarted he
        active := .some (.stamp _ (K.reads hstarted he))
        history := .cons (.same (.begun (b.transferFor r)) rfl) h.history }

theorem eventActions_eq (h : Abreast K b b') {t t' : Transfer} (ht : t.Matches K.Reads t') :
    b'.eventActions t' = b.eventActions t := K.actions_eq h.platform ht

theorem serviced (h : Abreast K b b') {t t' : Transfer} (ht : t.Matches K.Reads t')
    (he : K.Exact (b.serviced t).platform) : Abreast K (b.serviced t) (b'.serviced t') := by
  have hadvance := ht.advance (b.eventActions t)
  unfold Bus.serviced
  rw [h.eventActions_eq ht]
  exact { h with
    platform := K.advance h.platform ht he
    active := .some hadvance
    history := .cons (.serviced _ ht hadvance) h.history }

/-! ### Serving -/

theorem handleEvent (h : Abreast K b b') (he : K.Exact b.handleEvent.platform) :
    Abreast K b.handleEvent b'.handleEvent := by
  cases ht : b.active with
  | none =>
    rw [b.handleEvent_of_free ht, b'.handleEvent_of_free (h.active_eq_none ht)]
    exact h
  | some t =>
    obtain ⟨t', ht', hmatches⟩ := h.exists_active ht
    have hstatus := (hmatches.advance (b.eventActions t)).status_eq
    rw [b.handleEvent_of_active ht] at he ⊢
    rw [b'.handleEvent_of_active ht', h.eventActions_eq hmatches, hstatus]
    split at he
    · rename_i hpending
      rw [if_pos hpending, if_pos hpending]
      exact h.serviced hmatches he
    · rename_i hended
      have hretired : K.Exact ((b.serviced t).retireActive none).platform :=
        (records_startNext _).exact he
      have hserviced : K.Exact (b.serviced t).platform := (records_retireActive _ _).exact hretired
      rw [if_neg hended, if_neg hended]
      exact ((h.serviced hmatches hserviced).retireActive none).startNext he

theorem recover (h : Abreast K b b') (he : K.Exact b.recover.platform) :
    Abreast K b.recover b'.recover := by
  have hreclaimed : Abreast K b.reclaimed b'.reclaimed :=
    (h.retireActive (some .timeout)).closePlatform.resetPlatform.applyClock
  have hstarted := hreclaimed.startNext he
  exact { hstarted with
    recoveries_eq := congrArg (· + 1) hstarted.recoveries_eq
    history := .cons (.same .recovered rfl) hstarted.history }

/-- The first reading that finds the transfer late by one clock finds it late by the other. -/
theorem overdue?_eq_none_iff (h : Abreast K b b') (he : K.Exact b.readClock.2.platform) :
    b'.overdue? = none ↔ b.overdue? = none := by
  rw [Bus.overdue?_eq_none_iff, Bus.overdue?_eq_none_iff, h.config_eq]
  cases ht : b.active with
  | none => simp [h.active_eq_none ht]
  | some t =>
    obtain ⟨t', ht', hmatches⟩ := h.exists_active ht
    have hreads := (h.readClock he).1
    simp only [ht', Option.some.injEq, forall_eq']
    refine forall_congr' fun hlimit => ?_
    rw [← Nat.not_lt, ← Nat.not_lt, K.late_iff h.tolerates hlimit hmatches.startedAt hreads]

theorem checkTimeout (h : Abreast K b b') (he : K.Exact b.checkTimeout.platform) :
    Abreast K b.checkTimeout b'.checkTimeout := by
  rw [checkTimeout_eq] at he ⊢
  rw [checkTimeout_eq, h.config_eq]
  by_cases hlimit : b.config.timeout = 0
  · rw [if_pos hlimit, if_pos hlimit]
    exact h
  · rw [if_neg hlimit] at he
    rw [if_neg hlimit, if_neg hlimit]
    have hread : K.Exact b.readClock.2.platform := by
      split at he
      · exact he
      · exact (records_recover _).exact he
    by_cases hoverdue : b.overdue? = none
    · rw [if_pos hoverdue, if_pos ((h.overdue?_eq_none_iff hread).2 hoverdue)]
      exact (h.readClock hread).2
    · rw [if_neg hoverdue] at he
      rw [if_neg hoverdue, if_neg (mt (h.overdue?_eq_none_iff hread).1 hoverdue)]
      exact (h.readClock hread).2.recover he

theorem tick (h : Abreast K b b') (he : K.Exact b.tick.platform) : Abreast K b.tick b'.tick := by
  unfold Bus.tick at he ⊢
  rw [h.config_eq]
  cases hdelivery : b.config.delivery with
  | polled =>
    simp only [hdelivery] at he ⊢
    exact (h.handleEvent ((records_checkTimeout _).exact he)).checkTimeout he
  | interrupt =>
    simp only [hdelivery] at he ⊢
    exact h.checkTimeout he

theorem isBusy_eq (h : Abreast K b b') (r : RequestId) : b'.isBusy r = b.isBusy r := by
  rw [isBusy, isBusy, h.requests_eq]

/-- A wait that ends by the first clock ends by the second, after as many ticks. -/
theorem wait (h : Abreast K b b') {r : RequestId} {limit : Nat} {s : Status} {b₁ : Bus σ}
    (hw : b.wait r limit = some (s, b₁)) (he : K.Exact b₁.platform) :
    ∃ b₁', b'.wait r limit = some (s, b₁') ∧ Abreast K b₁ b₁' := by
  induction limit generalizing b b' with
  | zero =>
    rw [Bus.wait, h.isBusy_eq, h.requests_eq]
    rw [Bus.wait] at hw
    split at hw
    · cases hw
    · rename_i hidle
      cases hw
      exact ⟨b', if_neg hidle, h⟩
  | succ n ih =>
    rw [Bus.wait, h.isBusy_eq, h.requests_eq]
    rw [Bus.wait] at hw
    split at hw
    · rename_i hbusy
      rw [if_pos hbusy]
      exact ih (h.tick ((routinely_wait hw).records.exact he)) hw
    · rename_i hidle
      cases hw
      exact ⟨b', if_neg hidle, h⟩

/-! ### What callers do -/

theorem bringUp (h : Abreast K b b') : Abreast K b.bringUp b'.bringUp := by
  have hcleared : Abreast K ({ b with queue := b.queue.clear, active := none }.note .broughtUp)
      ({ b' with queue := b'.queue.clear, active := none }.note .broughtUp) :=
    { h with
      queue_eq := congrArg Queue.clear h.queue_eq
      active := .none
      history := .cons (.same .broughtUp rfl) h.history }
  exact hcleared.resetPlatform.applyClock

theorem setClock (h : Abreast K b b') (hz : Nat) :
    Abreast K (b.setClock hz) (b'.setClock hz) := by
  have hset : Abreast K { b with config := { b.config with clock := hz } }
      { b' with config := { b'.config with clock := hz } } :=
    { h with config_eq := congrArg (fun c => { c with clock := hz }) h.config_eq }
  exact hset.applyClock

theorem setTimeout (h : Abreast K b b') {limit : Ticks} (hlimit : K.Tolerates limit) :
    Abreast K (b.setTimeout limit) (b'.setTimeout limit) :=
  { h with
    tolerates := hlimit
    config_eq := congrArg (fun c => { c with timeout := limit }) h.config_eq }

theorem setRequest (h : Abreast K b b') (r : RequestId) (q : Request) :
    Abreast K (b.setRequest r q) (b'.setRequest r q) := by
  refine { h with requests_eq := ?_ }
  rw [Bus.setRequest, Bus.setRequest, h.requests_eq]

theorem note (h : Abreast K b b') {e : Event} (he : e.stamped = false) :
    Abreast K (b.note e) (b'.note e) :=
  { h with history := .cons (.same e he) h.history }

theorem accept (h : Abreast K b b') (r : RequestId) : Abreast K (b.accept r) (b'.accept r) := by
  have hqueued : Abreast K { b with queue := (b.queue.link r none).pushBack r }
      { b' with queue := (b'.queue.link r none).pushBack r } :=
    { h with queue_eq := congrArg (fun q => (q.link r none).pushBack r) h.queue_eq }
  unfold Bus.accept
  rw [congrFun h.requests_eq r]
  exact (hqueued.setRequest r _).note rfl

theorem poll (h : Abreast K b b') (r : RequestId) (m : ListenerId) :
    (b'.poll r m).1 = (b.poll r m).1 ∧ Abreast K (b.poll r m).2 (b'.poll r m).2 := by
  rw [poll_eq, poll_eq, outcome?, listen, h.requests_eq]
  exact ⟨rfl, (h.setRequest r _).note rfl⟩

theorem placed (h : Abreast K b b') {r : RequestId} {c : Command}
    (he : K.Exact (b.placed r c).platform) : Abreast K (b.placed r c) (b'.placed r c) := by
  have hset := (h.setRequest r ((b.requests r).configured c)).note (e := .configured r c) rfl
  have haccepted := hset.accept r
  unfold Bus.placed at he ⊢
  rw [h.requests_eq]
  exact haccepted.startNext he

end Abreast

end Bus

end SharedBus
