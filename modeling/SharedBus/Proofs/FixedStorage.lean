import SharedBus.Bench
import SharedBus.Proofs.Transcript

/-!
# Writes from fixed storage

A write of copied bytes and a write of the same bytes from fixed storage are the same to the
bus but for their name. Two buses are twins when they differ only in that some requests, and
the transfers begun for them, have the second kind of write in place of the first. On a
platform that does not tell the two kinds apart, every operation leads from twins to twins.
The bench is such a platform.
-/

namespace SharedBus

/-- The requests that were last set up from fixed storage instead of a copy. -/
abbrev Marks := RequestId → Bool

def Marks.none : Marks := fun _ => false

def Marks.set (f : Marks) (r : RequestId) (on : Bool) : Marks := fun s => if s = r then on else f s

theorem Marks.set_self (f : Marks) (r : RequestId) (on : Bool) : f.set r on r = on := if_pos rfl

theorem Marks.set_of_ne (f : Marks) {r s : RequestId} (on : Bool) (h : s ≠ r) :
    f.set r on s = f s := if_neg h

namespace Command

def fixed : Command → Command
  | .write address data => .writeFixed address data.bytes
  | .writeFixed address data => .writeFixed address data
  | .read address length lead => .read address length lead

def fixedIf (on : Bool) (c : Command) : Command := if on then c.fixed else c

variable (on : Bool) (c : Command)

@[simp] theorem fixedIf_false : c.fixedIf false = c := rfl

@[simp] theorem address_fixedIf : (c.fixedIf on).address = c.address := by
  cases on <;> cases c <;> rfl

@[simp] theorem data_fixedIf : (c.fixedIf on).data = c.data := by
  cases on <;> cases c <;> rfl

@[simp] theorem readLength_fixedIf : (c.fixedIf on).readLength = c.readLength := by
  cases on <;> cases c <;> rfl

@[simp] theorem isRead_fixedIf : (c.fixedIf on).isRead = c.isRead := by
  cases on <;> cases c <;> rfl

theorem fixed_write_holding (address : UInt8) {data : List UInt8}
    (h : data.length ≤ Buffer.capacity) :
    (write address (.holding data)).fixedIf true = .writeFixed address data :=
  congrArg (writeFixed address) (Buffer.bytes_holding h)

end Command

namespace Transfer

def fixedIf (on : Bool) (t : Transfer) : Transfer := { t with command := t.command.fixedIf on }

def marked (f : Marks) (t : Transfer) : Transfer := t.fixedIf (f t.request)

variable (on : Bool) (t : Transfer)

@[simp] theorem request_fixedIf : (t.fixedIf on).request = t.request := rfl

@[simp] theorem status_fixedIf : (t.fixedIf on).status = t.status := rfl

@[simp] theorem unread_fixedIf : (t.fixedIf on).unread = t.unread := by
  simp [unread, fixedIf]

@[simp] theorem byteCount_fixedIf : (t.fixedIf on).byteCount = t.byteCount := by
  simp [byteCount, fixedIf]

theorem perform_fixedIf (a : Action) :
    (t.fixedIf on).perform a = ((t.perform a).1, (t.perform a).2.fixedIf on) := by
  cases a with
  | send => cases h : t.unsent <;> simp [perform, send, fixedIf, h]
  | receive byte =>
    have hreceived : (t.fixedIf on).received = t.received := rfl
    simp only [perform, receive, unread_fixedIf, hreceived]
    split
    · rfl
    · cases t.received.push? byte <;> rfl
  | complete status => by_cases h : t.status = .pending <;> simp [perform, complete, fixedIf, h]

theorem advance_fixedIf (actions : List Action) :
    (t.fixedIf on).advance actions = (t.advance actions).fixedIf on := by
  induction actions generalizing t with
  | nil => rfl
  | cons a actions ih => rw [advance_cons, advance_cons, perform_fixedIf, ih]

/-- The bytes handed out and taken in do not depend on where they are kept. -/
theorem answers_fixedIf (actions : List Action) :
    (t.fixedIf on).answers actions = t.answers actions := by
  induction actions generalizing t with
  | nil => rfl
  | cons a actions ih => rw [answers, answers, perform_fixedIf, ih]

theorem fixedIf_fixedIf : (t.fixedIf on).fixedIf true = t.fixedIf true := by
  obtain ⟨r, c, sent, unsent, received, status, startedAt⟩ := t
  cases on <;> cases c <;> rfl

theorem advance_marked (f : Marks) (actions : List Action) :
    (t.marked f).advance actions = (t.advance actions).marked f := by
  rw [marked, advance_fixedIf, marked, request_advance]

theorem ofCommand_fixedIf (r : RequestId) (c : Command) :
    ofCommand r (c.fixedIf on) = (ofCommand r c).fixedIf on := by
  simp [ofCommand, fixedIf]

theorem marked_set_of_ne (f : Marks) {r : RequestId} (h : t.request ≠ r) :
    t.marked (f.set r on) = t.marked f := by
  rw [marked, marked, f.set_of_ne on h]

end Transfer

def Request.fixedIf (on : Bool) (q : Request) : Request := { q with command := q.command.fixedIf on }

theorem Request.retire_fixedIf (q : Request) (t : Transfer) (on on' : Bool) (s : Status) :
    (q.fixedIf on).retire (t.fixedIf on') s = (q.retire t s).fixedIf on := by
  simp only [retire, Transfer.byteCount_fixedIf]
  rfl

theorem Request.configured_fixedIf (q : Request) (c : Command) (on on' : Bool) :
    (q.fixedIf on').configured (c.fixedIf on) = (q.configured c).fixedIf on := by
  simp only [configured, Command.isRead_fixedIf]
  rfl

def Event.marked (f : Marks) : Event → Event
  | .begun t => .begun (t.marked f)
  | .serviced t actions t' => .serviced (t.marked f) actions (t'.marked f)
  | .retired t s => .retired (t.marked f) s
  | .reset => .reset
  | .clockSet hz => .clockSet hz
  | .closed => .closed
  | .broughtUp => .broughtUp
  | .shutDown => .shutDown
  | .configured r c => .configured r c
  | .accepted r => .accepted r
  | .recovered => .recovered
  | .polled r m => .polled r m

/-- The second history tells the same as the first one, but that some requests were set up from
fixed storage. These are at the end those marked. -/
inductive History.Mirrors : Marks → History → History → Prop
  | nil : Mirrors .none [] []
  | configured {f : Marks} {h h' : History} (r : RequestId) (c : Command) (on : Bool)
      (tail : Mirrors f h h') :
      Mirrors (f.set r on) (.configured r c :: h) (.configured r (c.fixedIf on) :: h')
  | event {f : Marks} {h h' : History} (e : Event) (he : ∀ r c, e ≠ .configured r c)
      (tail : Mirrors f h h') : Mirrors f (e :: h) (e.marked f :: h')

def Event.answers? : Event → Option (List Answer)
  | .serviced t actions _ => some (t.answers actions)
  | .reset | .clockSet _ | .closed | .begun _ | .broughtUp | .shutDown | .configured .. |
    .accepted _ | .retired .. | .recovered | .polled .. => none

theorem History.Mirrors.filterMap_answers? {f : Marks} {h h' : History} (hm : Mirrors f h h') :
    h'.filterMap Event.answers? = h.filterMap Event.answers? := by
  induction hm with
  | nil => rfl
  | configured r c on tail ih => exact ih
  | @event f h h' e he tail ih =>
    have hanswers : (e.marked f).answers? = e.answers? := by
      cases e with
      | serviced t actions t' => exact congrArg some (t.answers_fixedIf (f t.request) actions)
      | reset | clockSet | closed | begun | broughtUp | shutDown | configured | accepted |
        retired | recovered | polled => rfl
    rw [List.filterMap_cons, List.filterMap_cons, hanswers, ih]

/-- `R` relates states of the platform that nothing tells apart but which write was from fixed
storage. The platform does not decide anything by that. -/
structure Blind {σ : Type} [Platform σ] (R : σ → σ → Prop) : Prop where
  refl : ∀ p, R p p
  reset : ∀ {p p'}, R p p' → R (Platform.reset p) (Platform.reset p')
  setClock : ∀ {p p'} hz, R p p' → R (Platform.setClock hz p) (Platform.setClock hz p')
  close : ∀ {p p'}, R p p' → R (Platform.close p) (Platform.close p')
  start : ∀ {p p'} t on, R p p' → R (Platform.start t p) (Platform.start (t.fixedIf on) p')
  actions : ∀ {p p'} t on, R p p' →
    (Platform.advance (t.fixedIf on) p').1 = (Platform.advance t p).1
  advance : ∀ {p p'} t on, R p p' →
    R (Platform.advance t p).2 (Platform.advance (t.fixedIf on) p').2
  reading : ∀ {p p'}, R p p' → (Platform.now p').1 = (Platform.now p).1
  now : ∀ {p p'}, R p p' → R (Platform.now p).2 (Platform.now p').2

namespace Bus

variable {σ : Type}

/-- The second bus differs from the first one in the kind of the writes that are marked, and in
nothing else. -/
structure Twin (R : σ → σ → Prop) (f : Marks) (b b' : Bus σ) : Prop where
  platform : R b.platform b'.platform
  config_eq : b'.config = b.config
  requests_eq : ∀ r, b'.requests r = (b.requests r).fixedIf (f r)
  queue_eq : b'.queue = b.queue
  active_eq : b'.active = b.active.map (Transfer.marked f)
  recoveries_eq : b'.recoveries = b.recoveries
  wakes_eq : b'.wakes = b.wakes
  history : History.Mirrors f b.history b'.history

namespace Twin

variable {R : σ → σ → Prop} {f : Marks} {b b' : Bus σ}

theorem active_eq_some (h : Twin R f b b') {t : Transfer} (ht : b.active = some t) :
    b'.active = some (t.marked f) := by
  rw [h.active_eq, ht, Option.map_some]

theorem active_eq_none (h : Twin R f b b') (hfree : b.active = none) : b'.active = none := by
  rw [h.active_eq, hfree, Option.map_none]

theorem status_eq (h : Twin R f b b') (r : RequestId) :
    (b'.requests r).status = (b.requests r).status := by
  rw [h.requests_eq]
  rfl

theorem isBusy_eq (h : Twin R f b b') (r : RequestId) : b'.isBusy r = b.isBusy r := by
  rw [isBusy, isBusy, h.status_eq]

theorem transferFor_eq (h : Twin R f b b') (r : RequestId) :
    b'.transferFor r = (b.transferFor r).marked f := by
  rw [transferFor, h.requests_eq]
  exact Transfer.ofCommand_fixedIf _ r _

theorem setRequest (h : Twin R f b b') (r : RequestId) {q q' : Request}
    (hq : q' = q.fixedIf (f r)) : Twin R f (b.setRequest r q) (b'.setRequest r q') := by
  refine { h with requests_eq := fun s => ?_ }
  by_cases hs : s = r
  · rw [hs, requests_setRequest_self, requests_setRequest_self, hq]
  · rw [requests_setRequest_of_ne _ _ hs, requests_setRequest_of_ne _ _ hs, h.requests_eq]

theorem retireActive (h : Twin R f b b') (status : Option Status) :
    Twin R f (b.retireActive status) (b'.retireActive status) := by
  cases ht : b.active with
  | none =>
    rw [b.retireActive_of_free ht, b'.retireActive_of_free (h.active_eq_none ht)]
    exact h
  | some t =>
    have hretire := Request.retire_fixedIf (b.requests t.request) t (f t.request) (f t.request)
      (status.getD t.status)
    rw [b.retireActive_of_active ht, b'.retireActive_of_active (h.active_eq_some ht)]
    refine { h with
      requests_eq := fun r => ?_
      queue_eq := congrArg Queue.popFront h.queue_eq
      active_eq := rfl
      wakes_eq := ?_
      history := .event (.retired t (status.getD t.status)) (by simp) h.history }
    · by_cases hr : r = t.request
      · subst r
        simp only [Transfer.marked, Transfer.request_fixedIf, h.requests_eq]
        exact hretire
      · simp only [Transfer.marked, Transfer.request_fixedIf, if_neg hr, h.requests_eq]
    · simp only [Transfer.marked, Transfer.request_fixedIf, h.requests_eq, h.wakes_eq]
      rfl

variable [Platform σ]

theorem readClock (hR : Blind R) (h : Twin R f b b') :
    b'.readClock.1 = b.readClock.1 ∧ Twin R f b.readClock.2 b'.readClock.2 :=
  ⟨hR.reading h.platform, { h with platform := hR.now h.platform }⟩

theorem resetPlatform (hR : Blind R) (h : Twin R f b b') :
    Twin R f b.resetPlatform b'.resetPlatform :=
  { h with
    platform := hR.reset h.platform
    history := .event .reset (by simp) h.history }

theorem closePlatform (hR : Blind R) (h : Twin R f b b') :
    Twin R f b.closePlatform b'.closePlatform :=
  { h with
    platform := hR.close h.platform
    history := .event .closed (by simp) h.history }

theorem applyClock (hR : Blind R) (h : Twin R f b b') : Twin R f b.applyClock b'.applyClock := by
  unfold Bus.applyClock
  rw [h.config_eq]
  exact { h with
    platform := hR.setClock b.config.clock h.platform
    config_eq := rfl
    history := .event (.clockSet b.config.clock) (by simp) h.history }

theorem startNext (hR : Blind R) (h : Twin R f b b') : Twin R f b.startNext b'.startNext := by
  cases ht : b.active with
  | some t =>
    have ht' := h.active_eq_some ht
    rw [b.startNext_of_active (by simp [ht]), b'.startNext_of_active (by simp [ht'])]
    exact h
  | none =>
    have hfree := h.active_eq_none ht
    have hhead' : b'.queue.head = b.queue.head := congrArg Queue.head h.queue_eq
    cases hhead : b.queue.head with
    | none =>
      rw [b.startNext_of_empty hhead, b'.startNext_of_empty (hhead'.trans hhead)]
      exact h
    | some r =>
      have hstarted := hR.start (b.transferFor r) (f r) h.platform
      have hreading := hR.reading hstarted
      rw [b.startNext_of_waiting ht hhead, b'.startNext_of_waiting hfree (hhead'.trans hhead),
        h.transferFor_eq]
      exact { h with
        platform := hR.now hstarted
        active_eq := congrArg (fun now => some (((b.transferFor r).marked f).stamp now)) hreading
        history := .event (.begun (b.transferFor r)) (by simp) h.history }

theorem eventActions_eq (hR : Blind R) (h : Twin R f b b') (t : Transfer) :
    b'.eventActions (t.marked f) = b.eventActions t :=
  hR.actions t (f t.request) h.platform

theorem serviced (hR : Blind R) (h : Twin R f b b') (t : Transfer) :
    Twin R f (b.serviced t) (b'.serviced (t.marked f)) := by
  have hadvance := t.advance_marked f (b.eventActions t)
  unfold Bus.serviced
  rw [h.eventActions_eq hR, hadvance]
  exact { h with
    platform := hR.advance t (f t.request) h.platform
    active_eq := rfl
    history := .event (.serviced t (b.eventActions t) (t.advance (b.eventActions t))) (by simp)
      h.history }

theorem handleEvent (hR : Blind R) (h : Twin R f b b') :
    Twin R f b.handleEvent b'.handleEvent := by
  cases ht : b.active with
  | none =>
    rw [b.handleEvent_of_free ht, b'.handleEvent_of_free (h.active_eq_none ht)]
    exact h
  | some t =>
    have hserviced := h.serviced hR t
    have hstatus : ((t.marked f).advance (b'.eventActions (t.marked f))).status =
        (t.advance (b.eventActions t)).status := by
      rw [h.eventActions_eq hR, Transfer.advance_marked]
      rfl
    rw [b.handleEvent_of_active ht, b'.handleEvent_of_active (h.active_eq_some ht), hstatus]
    split
    · exact hserviced
    · exact (hserviced.retireActive none).startNext hR

theorem recover (hR : Blind R) (h : Twin R f b b') : Twin R f b.recover b'.recover := by
  have hreclaimed : Twin R f b.reclaimed b'.reclaimed :=
    (((h.retireActive (some .timeout)).closePlatform hR).resetPlatform hR).applyClock hR
  have hstarted := hreclaimed.startNext hR
  exact { hstarted with
    recoveries_eq := congrArg (· + 1) hstarted.recoveries_eq
    history := .event .recovered (by simp) hstarted.history }

theorem overdue?_eq (hR : Blind R) (h : Twin R f b b') :
    b'.overdue? = b.overdue?.map (Transfer.marked f) := by
  have hreading := (h.readClock hR).1
  rw [overdue?, overdue?, h.active_eq, h.config_eq, hreading]
  cases b.active with
  | none => rfl
  | some t =>
    have hstarted : (t.marked f).startedAt = t.startedAt := rfl
    simp only [Option.map_some, Option.filter, hstarted]
    split <;> rfl

theorem checkTimeout (hR : Blind R) (h : Twin R f b b') :
    Twin R f b.checkTimeout b'.checkTimeout := by
  have hread := (h.readClock hR).2
  rw [checkTimeout_eq, checkTimeout_eq, h.config_eq, h.overdue?_eq hR]
  split
  · exact h
  · cases b.overdue? with
    | none => exact hread
    | some t => exact hread.recover hR

theorem tick (hR : Blind R) (h : Twin R f b b') : Twin R f b.tick b'.tick := by
  unfold Bus.tick
  rw [h.config_eq]
  split
  · exact (h.handleEvent hR).checkTimeout hR
  · exact h.checkTimeout hR

/-- A wait ends on both buses or on neither, with the same status. -/
theorem wait_cases (hR : Blind R) (h : Twin R f b b') (r : RequestId) (limit : Nat) :
    b.wait r limit = none ∧ b'.wait r limit = none ∨
      ∃ s b₁ b₁', b.wait r limit = some (s, b₁) ∧ b'.wait r limit = some (s, b₁') ∧
        Twin R f b₁ b₁' := by
  induction limit generalizing b b' with
  | zero =>
    rw [wait, wait, h.isBusy_eq, h.status_eq]
    split
    · exact .inl ⟨rfl, rfl⟩
    · exact .inr ⟨_, b, b', rfl, rfl, h⟩
  | succ n ih =>
    rw [wait, wait, h.isBusy_eq, h.status_eq]
    split
    · exact ih (h.tick hR)
    · exact .inr ⟨_, b, b', rfl, rfl, h⟩

theorem bringUp (hR : Blind R) (h : Twin R f b b') : Twin R f b.bringUp b'.bringUp := by
  have hcleared : Twin R f ({ b with queue := b.queue.clear, active := none }.note .broughtUp)
      ({ b' with queue := b'.queue.clear, active := none }.note .broughtUp) :=
    { h with
      queue_eq := congrArg Queue.clear h.queue_eq
      active_eq := rfl
      history := .event .broughtUp (by simp) h.history }
  exact (hcleared.resetPlatform hR).applyClock hR

theorem setClock (hR : Blind R) (h : Twin R f b b') (hz : Nat) :
    Twin R f (b.setClock hz) (b'.setClock hz) := by
  have hset : Twin R f { b with config := { b.config with clock := hz } }
      { b' with config := { b'.config with clock := hz } } :=
    { h with config_eq := congrArg (fun c => { c with clock := hz }) h.config_eq }
  exact hset.applyClock hR

omit [Platform σ] in
theorem setTimeout (h : Twin R f b b') (limit : Ticks) :
    Twin R f (b.setTimeout limit) (b'.setTimeout limit) :=
  { h with config_eq := congrArg (fun c => { c with timeout := limit }) h.config_eq }

omit [Platform σ] in
theorem accept (h : Twin R f b b') (r : RequestId) : Twin R f (b.accept r) (b'.accept r) := by
  have harmed : (b'.requests r).armed = (b.requests r).armed.fixedIf (f r) := by
    rw [h.requests_eq]
    rfl
  have hset := h.setRequest r harmed
  exact { hset with
    queue_eq := congrArg (fun q => (q.link r none).pushBack r) h.queue_eq
    history := .event (.accepted r) (by simp) h.history }

omit [Platform σ] in
theorem poll (h : Twin R f b b') (r : RequestId) (m : ListenerId) :
    (b'.poll r m).1 = (b.poll r m).1 ∧ Twin R f (b.poll r m).2 (b'.poll r m).2 := by
  have hlisten : (b'.requests r).listen m = ((b.requests r).listen m).fixedIf (f r) := by
    rw [h.requests_eq]
    rfl
  have hset := h.setRequest r hlisten
  rw [poll_eq, poll_eq]
  refine ⟨?_, { hset with history := .event (.polled r m) (by simp) h.history }⟩
  simp only [outcome?, h.status_eq]

omit [Platform σ] in
/-- The request that is set up anew is not in flight, so what is in flight stays as it is. -/
theorem configure (h : Twin R f b b') (hb : b.Coherent) {r : RequestId}
    (hr : (b.requests r).status ≠ .pending) (c : Command) (on : Bool) :
    Twin R (f.set r on) ((b.setRequest r ((b.requests r).configured c)).note (.configured r c))
      ((b'.setRequest r ((b'.requests r).configured (c.fixedIf on))).note
        (.configured r (c.fixedIf on))) := by
  refine { h with
    requests_eq := fun s => ?_
    active_eq := ?_
    history := .configured r c on h.history }
  · by_cases hs : s = r
    · subst s
      have hconfigured := Request.configured_fixedIf (b.requests r) c on (f r)
      rw [← h.requests_eq] at hconfigured
      simpa [Bus.note, Bus.setRequest, f.set_self r on] using hconfigured
    · simp [Bus.note, Bus.setRequest, hs, f.set_of_ne on hs, h.requests_eq]
  · refine h.active_eq.trans ?_
    cases ht : b.active with
    | none => simp [Bus.note, Bus.setRequest, ht]
    | some t =>
      have hne : t.request ≠ r := by
        rintro rfl
        apply hr
        rw [hb.requests_eq]
        exact hb.lawful.sound.pending _ (hb.carries ht).mem
      simp [Bus.note, Bus.setRequest, ht, t.marked_set_of_ne on f hne]

theorem placed (hR : Blind R) (h : Twin R f b b') (hb : b.Coherent) {r : RequestId}
    (hr : (b.requests r).status ≠ .pending) (c : Command) (on : Bool) :
    Twin R (f.set r on) (b.placed r c) (b'.placed r (c.fixedIf on)) :=
  ((h.configure hb hr c on).accept r).startNext hR

end Twin

end Bus

def PlatformCall.fixed : PlatformCall → PlatformCall
  | .reset => .reset
  | .setClock hz => .setClock hz
  | .close => .close
  | .start t => .start (t.fixedIf true)
  | .advance t outcomes t' => .advance (t.fixedIf true) outcomes (t'.fixedIf true)

namespace Instruction

variable (supply : List UInt8) (t : Transfer) (on : Bool) (i : Instruction)

theorem actions_fixedIf : i.actions supply (t.fixedIf on) = i.actions supply t := by
  cases i with
  | finish =>
    rw [actions, actions, Transfer.unread_fixedIf]
    rfl
  | send | receive | complete | spend => rfl

theorem outcome_fixedIf : i.outcome supply (t.fixedIf on) = i.outcome supply t := by
  unfold outcome
  rw [actions_fixedIf, Transfer.answers_fixedIf, Transfer.advance_fixedIf, Transfer.status_fixedIf]

end Instruction

namespace Bench

def Alike (h h' : Bench) : Prop :=
  ∃ calls, h' = { h with calls := calls } ∧
    calls.map PlatformCall.fixed = h.calls.map PlatformCall.fixed

namespace Alike

variable {h h' : Bench}

theorem refl (h : Bench) : h.Alike h := ⟨h.calls, rfl, rfl⟩

theorem record (hh : h.Alike h') {c c' : PlatformCall} (hc : c'.fixed = c.fixed) :
    (h.record c).Alike (h'.record c') := by
  obtain ⟨calls, rfl, hcalls⟩ := hh
  exact ⟨c' :: calls, rfl, by rw [List.map_cons, hc, hcalls, Bench.record, List.map_cons]⟩

theorem spend (hh : h.Alike h') (d : Ticks) : (h.spend d).Alike (h'.spend d) := by
  obtain ⟨calls, rfl, hcalls⟩ := hh
  exact ⟨calls, rfl, hcalls⟩

theorem dropRound (hh : h.Alike h') (address : UInt8) :
    (h.dropRound address).Alike (h'.dropRound address) := by
  obtain ⟨calls, rfl, hcalls⟩ := hh
  exact ⟨calls, rfl, hcalls⟩

/-- A change of the script on both benches. -/
theorem adjust (hh : h.Alike h') (a : Adjustment) : (h.adjust a).Alike (h'.adjust a) := by
  obtain ⟨calls, rfl, hcalls⟩ := hh
  cases a <;> exact ⟨calls, rfl, hcalls⟩

theorem supply_eq (hh : h.Alike h') : h'.supply = h.supply := by
  obtain ⟨calls, rfl, -⟩ := hh
  rfl

theorem nextRound_eq (hh : h.Alike h') (address : UInt8) :
    h'.nextRound address = h.nextRound address := by
  obtain ⟨calls, rfl, -⟩ := hh
  rfl

theorem carryOut (hh : h.Alike h') (t : Transfer) (on : Bool) (i : Instruction) :
    (h.carryOut t i).Alike (h'.carryOut (t.fixedIf on) i) := by
  obtain ⟨calls, rfl, hcalls⟩ := hh
  cases i with
  | finish =>
    rw [Bench.carryOut, Bench.carryOut, Transfer.unread_fixedIf]
    exact ⟨calls, rfl, hcalls⟩
  | send | receive | complete | spend => exact ⟨calls, rfl, hcalls⟩

theorem play (hh : h.Alike h') (t : Transfer) (on : Bool) (round : Round) :
    (h'.play (t.fixedIf on) round).1 = (h.play t round).1 ∧
      (h'.play (t.fixedIf on) round).2.1 = (h.play t round).2.1 ∧
      (h.play t round).2.2.Alike (h'.play (t.fixedIf on) round).2.2 := by
  induction round generalizing h h' t with
  | nil => exact ⟨rfl, rfl, hh⟩
  | cons i round ih =>
    obtain ⟨hactions, houtcomes, halike⟩ :=
      ih (hh.carryOut t on i) (t.advance (i.actions h.supply t))
    simp only [Bench.play, hh.supply_eq, Instruction.actions_fixedIf, Instruction.outcome_fixedIf,
      Transfer.advance_fixedIf]
    exact ⟨congrArg _ hactions, congrArg _ houtcomes, halike⟩

theorem advance (hh : h.Alike h') (t : Transfer) (on : Bool) :
    (Bench.advance (t.fixedIf on) h').1 = (Bench.advance t h).1 ∧
      (Bench.advance t h).2.Alike (Bench.advance (t.fixedIf on) h').2 := by
  have haddress : (t.fixedIf on).command.address = t.command.address :=
    Command.address_fixedIf on t.command
  obtain ⟨hactions, houtcomes, halike⟩ := (hh.dropRound t.command.address).play t on
    (h.nextRound t.command.address)
  rw [Bench.advance, Bench.advance, haddress, hh.nextRound_eq]
  refine ⟨hactions, halike.record ?_⟩
  rw [hactions, houtcomes, Transfer.advance_fixedIf]
  simp only [PlatformCall.fixed, Transfer.fixedIf_fixedIf]

end Alike

theorem blind : Blind Alike where
  refl := Alike.refl
  reset hh := hh.record rfl
  setClock hz hh := hh.record rfl
  close hh := hh.record rfl
  start {h _} t on := by
    rintro ⟨calls, rfl, hcalls⟩
    have hstart : (PlatformCall.start (t.fixedIf on)).fixed = (PlatformCall.start t).fixed :=
      congrArg PlatformCall.start (t.fixedIf_fixedIf on)
    exact (Alike.record ⟨calls, rfl, hcalls⟩ hstart).spend h.startCost
  actions t on hh := (hh.advance t on).1
  advance t on hh := (hh.advance t on).2
  reading := by
    rintro h _ ⟨calls, rfl, -⟩
    rfl
  now := by
    rintro h _ ⟨calls, rfl, hcalls⟩
    exact ⟨calls, rfl, hcalls⟩

end Bench

end SharedBus
