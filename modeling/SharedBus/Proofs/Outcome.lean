import SharedBus.Proofs.ServiceOrder

/-!
# How outcomes are written

The outcome of a request, its status and its count, is written twice for each
submission: when it is accepted, and when its transfer is retired. What is written
then is the first terminal status that the hardware declared for the transfer, or a
timeout if it declared none. Nothing else that happens on the bus writes to the
outcome, so once a request is retired it keeps its outcome until it is accepted anew.
-/

namespace SharedBus

def Request.outcome (q : Request) : Status × Nat := (q.status, q.count)

namespace Status

theorem firstTerminal?_append (xs ys : List Status) :
    firstTerminal? (xs ++ ys) = (firstTerminal? xs).or (firstTerminal? ys) := List.find?_append

/-- Nothing terminal has been declared as long as the status is pending. -/
theorem firstTerminal?_getD_eq_pending_iff {xs : List Status} :
    (firstTerminal? xs).getD .pending = .pending ↔ firstTerminal? xs = none := by
  cases hx : firstTerminal? xs with
  | none => simp
  | some x => simpa using ne_pending_of_firstTerminal? hx

theorem firstTerminal?_getD_timeout_ne_pending (xs : List Status) :
    (firstTerminal? xs).getD .timeout ≠ .pending := by
  cases hx : firstTerminal? xs with
  | none => simp
  | some x => exact ne_pending_of_firstTerminal? hx

end Status

namespace History

def outcome (r : RequestId) : History → Status × Nat
  | [] => (.ok, 0)
  | .accepted r' :: h => if r' = r then (.pending, 0) else outcome r h
  | .retired t s :: h => if t.request = r then (s, t.byteCount) else outcome r h
  | _ :: h => outcome r h

/-- All statuses declared for the transfer begun last, in order. -/
def declarations : History → List Status
  | [] => []
  | .begun _ :: _ => []
  | .serviced _ actions _ :: h => declarations h ++ Transfer.declared actions
  | _ :: h => declarations h

/-- Of those accepted, `r` is the first that has not been retired, and it has been begun. -/
structure Serving (r : RequestId) (h : History) : Prop where
  begun_eq : since Event.begun? h = since Event.retired? h ++ [r]
  accepted_eq : ∃ rest, since Event.accepted? h = since Event.retired? h ++ r :: rest

/-- Each acceptance and each retirement in the history finds its request as it should, and
each retirement hands on what was declared. -/
structure WritesOnce (h : History) : Prop where
  accepted : ∀ added r before, h = added ++ .accepted r :: before →
    (outcome r before).1 ≠ .pending
  retired : ∀ added t s before, h = added ++ .retired t s :: before →
    (outcome t.request before).1 = .pending ∧ Serving t.request before ∧
      s = (Status.firstTerminal? (declarations before)).getD .timeout ∧ s ≠ .pending

theorem outcome_ledger (r : RequestId) (h : History) :
    ((ledger h).requests r).outcome = outcome r h := by
  induction h with
  | nil => rfl
  | cons e h ih =>
    cases e with
    | accepted r' =>
      by_cases hr : r = r'
      · simp [Ledger.after, Ledger.setRequest, outcome, hr, Request.armed, Request.outcome]
      · simp [Ledger.after, Ledger.setRequest, outcome, hr, Ne.symm hr, ← ih]
    | retired t s =>
      by_cases hr : r = t.request
      · simp [Ledger.after, Ledger.wake, Ledger.setRequest, outcome, hr, Request.retire,
          Request.outcome]
      · simp [Ledger.after, Ledger.wake, Ledger.setRequest, outcome, hr, Ne.symm hr, ← ih]
    | configured r' c =>
      have hkept := Ledger.apply_setRequest (q := ((ledger h).requests r').configured c)
        Request.outcome rfl r
      exact hkept.trans ih
    | polled r' l =>
      have hkept := Ledger.apply_setRequest (q := ((ledger h).requests r').listen l)
        Request.outcome rfl r
      exact hkept.trans ih
    | reset | clockSet | closed | begun | serviced | broughtUp | shutDown | recovered => exact ih

/-- The status of the transfer in flight is the first terminal one declared for it. -/
theorem Lawful.status_flight {h : History} (hl : Lawful h) {t : Transfer}
    (ht : (ledger h).flight = some t) :
    t.status = (Status.firstTerminal? (declarations h)).getD .pending := by
  induction h generalizing t with
  | nil => cases ht
  | cons e h ih =>
    cases e with
    | begun u =>
      obtain rfl : u = t := Option.some.inj ht
      obtain ⟨-, -, hu⟩ := hl.1
      rw [hu]
      rfl
    | serviced u actions u' =>
      obtain ⟨hflight, hpending, rfl⟩ := hl.1
      obtain rfl : (u.advance actions).stamp 0 = t := Option.some.inj ht
      have hearlier : Status.firstTerminal? (declarations h) = none := by
        rw [← Status.firstTerminal?_getD_eq_pending_iff, ← ih hl.2 hflight]
        exact hpending
      rw [Transfer.status_stamp, Transfer.status_advance_of_pending hpending, declarations,
        Status.firstTerminal?_append, hearlier, Option.none_or]
    | retired | broughtUp => cases ht
    | reset | clockSet | closed | shutDown | configured | accepted | recovered | polled =>
      exact ih hl.2 ht

/-- A retirement hands on the first terminal status declared, or else a timeout. -/
theorem Lawful.status_retired {h : History} (hl : Lawful h) {t : Transfer} {s : Status}
    (he : (ledger h).Allows (.retired t s)) :
    s = (Status.firstTerminal? (declarations h)).getD .timeout := by
  obtain ⟨hflight, hs⟩ := he
  have hstatus := hl.status_flight hflight
  rw [Transfer.status_stamp] at hstatus
  rcases hs with ⟨hne, rfl⟩ | ⟨hpending, rfl⟩
  · cases hx : Status.firstTerminal? (declarations h) with
    | none =>
      rw [hx] at hstatus
      contradiction
    | some x =>
      rw [hstatus, hx]
      rfl
  · rw [hstatus, Status.firstTerminal?_getD_eq_pending_iff] at hpending
    rw [hpending]
    rfl

/-- What is in flight is being served, and pending. -/
theorem Lawful.serving {h : History} (hl : Lawful h) {t : Transfer}
    (ht : (ledger h).flight = some t) :
    Serving t.request h ∧ (outcome t.request h).1 = .pending := by
  have hcarries := hl.sound.carries _ ht
  refine ⟨⟨?_, (ledger h).waiting.tail, ?_⟩, ?_⟩
  · rw [hl.begun_eq, ht]
    rfl
  · rw [hl.accepted_eq, ← hcarries.waiting_eq]
  · rw [← outcome_ledger]
    exact hl.sound.pending _ hcarries.mem

theorem Lawful.writesOnce {h : History} (hl : Lawful h) : h.WritesOnce := by
  constructor
  · rintro added r before rfl
    obtain ⟨hallowed, -⟩ := hl.of_append
    rw [← outcome_ledger]
    exact hallowed.2
  · rintro added t s before rfl
    obtain ⟨hallowed, hbefore⟩ := hl.of_append
    obtain ⟨hserving, hpending⟩ := hbefore.serving hallowed.1
    have hs := hbefore.status_retired hallowed
    refine ⟨hpending, hserving, hs, ?_⟩
    rw [hs]
    exact Status.firstTerminal?_getD_timeout_ne_pending _

/-- A terminal outcome stays until its request is accepted. -/
theorem Lawful.outcome_append {added : List Event} {h : History} {r : RequestId}
    (hl : Lawful (added ++ h)) (hr : (outcome r h).1 ≠ .pending) (hadded : .accepted r ∉ added) :
    outcome r (added ++ h) = outcome r h := by
  induction added with
  | nil => rfl
  | cons e added ih =>
    rw [List.mem_cons, not_or] at hadded
    have ih := ih hl.2 hadded.2
    rw [List.cons_append]
    cases e with
    | accepted r' =>
      have hne : r' ≠ r := by
        rintro rfl
        exact hadded.1 rfl
      rw [outcome, if_neg hne, ih]
    | retired t s =>
      have hne : t.request ≠ r := by
        rintro rfl
        have hpending : (outcome t.request (added ++ h)).1 = .pending := (hl.2.serving hl.1.1).2
        rw [ih] at hpending
        exact hr hpending
      rw [outcome, if_neg hne, ih]
    | reset | clockSet | closed | begun | serviced | broughtUp | shutDown | configured |
      recovered | polled => exact ih

/-- Only acceptances and retirements of a request write to its outcome. -/
theorem outcome_append_of_untouched {added : List Event} {r : RequestId}
    (hadded : ∀ e ∈ added, e.accepted? ≠ some r ∧ e.retired? ≠ some r) (h : History) :
    outcome r (added ++ h) = outcome r h := by
  induction added with
  | nil => rfl
  | cons e added ih =>
    obtain ⟨⟨haccepted, hretired⟩, hrest⟩ := List.forall_mem_cons.1 hadded
    have ih := ih hrest
    rw [List.cons_append]
    cases e with
    | accepted r' =>
      have hne : r' ≠ r := fun hr => haccepted (congrArg some hr)
      rw [outcome, if_neg hne, ih]
    | retired t s =>
      have hne : t.request ≠ r := fun hr => hretired (congrArg some hr)
      rw [outcome, if_neg hne, ih]
    | reset | clockSet | closed | begun | serviced | broughtUp | shutDown | configured |
      recovered | polled => exact ih

end History

namespace Bus

variable {σ : Type} {b b' : Bus σ}

theorem Accords.outcome_eq (h : b.Accords) (r : RequestId) :
    (b.requests r).outcome = History.outcome r b.history := by
  rw [h.requests_eq, History.outcome_ledger]

theorem Accords.status_eq_outcome (h : b.Accords) (r : RequestId) :
    (b.requests r).status = (History.outcome r b.history).1 := congrArg Prod.fst (h.outcome_eq r)

variable [Platform σ]

/-! ### What each act writes -/

def written? (b : Bus σ) (r : RequestId) : Act σ → Option (Status × Nat)
  | .submit r' => if r' = r then some (.pending, 0) else none
  | .handleEvent => match b.active with
      | none => none
      | some t => if t.request = r then
          (Status.firstTerminal? (Transfer.declared (b.eventActions t))).map fun s =>
            (s, (t.advance (b.eventActions t)).byteCount)
        else none
  | .checkTimeout => match b.active with
      | none => none
      | some t => if t.request = r ∧ b.config.timeout ≠ 0 ∧
            b.config.timeout < b.readClock.1.since t.startedAt then
          some (.timeout, t.byteCount)
        else none
  | .shift _ | .bringUp | .shutDown | .setClock _ | .setTimeout _ | .configure .. | .poll .. => none

theorem requests_startNext (b : Bus σ) : b.startNext.requests = b.requests :=
  b.apply_startNext requests fun _ _ _ _ => rfl

omit [Platform σ] in
theorem outcome_retireActive {t : Transfer} (ht : b.active = some t) (status : Option Status)
    (r : RequestId) : ((b.retireActive status).requests r).outcome =
      if t.request = r then (status.getD t.status, t.byteCount) else (b.requests r).outcome := by
  rw [b.retireActive_of_active ht]
  by_cases hr : t.request = r
  · simp [hr, Request.retire, Request.outcome]
  · simp [hr, Ne.symm hr]

omit [Platform σ] in
theorem outcome_setRequest {r : RequestId} {q : Request} (hq : q.outcome = (b.requests r).outcome)
    (r' : RequestId) : ((b.setRequest r q).requests r').outcome = (b.requests r').outcome := by
  by_cases hr : r' = r
  · rw [hr, requests_setRequest_self, hq]
  · rw [requests_setRequest_of_ne b q hr]

theorem outcome_handleEvent (h : b.Coherent) (r : RequestId) :
    (b.handleEvent.requests r).outcome =
      (b.written? r .handleEvent).getD (b.requests r).outcome := by
  cases ht : b.active with
  | none =>
    have hwritten : b.written? r .handleEvent = none := by rw [written?, ht]
    rw [b.handleEvent_of_free ht, hwritten, Option.getD_none]
  | some t =>
    have hwritten : b.written? r .handleEvent = if t.request = r then
        (Status.firstTerminal? (Transfer.declared (b.eventActions t))).map fun s =>
          (s, (t.advance (b.eventActions t)).byteCount)
      else none := by rw [written?, ht]
    have hstatus := Transfer.status_advance_of_pending (h.settled t ht) (b.eventActions t)
    rw [b.handleEvent_of_active ht, hwritten, hstatus]
    cases hx : Status.firstTerminal? (Transfer.declared (b.eventActions t)) with
    | none =>
      rw [Option.getD_none, if_pos rfl, Option.map_none, ite_self, Option.getD_none]
      rfl
    | some x =>
      rw [hx, Option.getD_some] at hstatus
      have hne : x ≠ .pending := Status.ne_pending_of_firstTerminal? hx
      have hretired := outcome_retireActive (b := b.serviced t) rfl none r
      rw [Option.getD_none, Transfer.request_advance, hstatus] at hretired
      rw [Option.getD_some, if_neg hne, requests_startNext, hretired, Option.map_some]
      split <;> rfl

theorem requests_recover (b : Bus σ) :
    b.recover.requests = (b.retireActive (some .timeout)).requests :=
  requests_startNext b.reclaimed

theorem outcome_recover {t : Transfer} (ht : b.active = some t) (r : RequestId) :
    (b.recover.requests r).outcome =
      if t.request = r then (.timeout, t.byteCount) else (b.requests r).outcome := by
  rw [requests_recover, outcome_retireActive ht, Option.getD_some]

theorem outcome_checkTimeout (b : Bus σ) (r : RequestId) :
    (b.checkTimeout.requests r).outcome =
      (b.written? r .checkTimeout).getD (b.requests r).outcome := by
  cases ht : b.active with
  | none =>
    have hwritten : b.written? r .checkTimeout = none := by rw [written?, ht]
    rw [hwritten, Option.getD_none]
    rcases b.checkTimeout_cases with ⟨-, he⟩ | ⟨-, he, -⟩ | ⟨u, -, hu, -, -⟩
    · rw [he]
    · rw [he]
      rfl
    · rw [ht] at hu
      cases hu
  | some t =>
    have hwritten : b.written? r .checkTimeout = if t.request = r ∧ b.config.timeout ≠ 0 ∧
        b.config.timeout < b.readClock.1.since t.startedAt then
          some (.timeout, t.byteCount)
        else none := by rw [written?, ht]
    rw [hwritten]
    rcases b.checkTimeout_cases with ⟨hzero, he⟩ | ⟨-, he, hintime⟩ | ⟨u, hlimit, hu, hlate, he⟩
    · rw [he, if_neg (fun hlate => hlate.2.1 hzero), Option.getD_none]
    · have hnot := Nat.not_lt_of_le (hintime t ht)
      rw [he, if_neg (fun hlate => hnot hlate.2.2), Option.getD_none]
      rfl
    · obtain rfl := Option.some.inj (ht.symm.trans hu)
      have hrecovered := outcome_recover (b := b.readClock.2) ht r
      rw [he, hrecovered]
      by_cases hr : t.request = r
      · rw [if_pos hr, if_pos ⟨hr, hlimit, hlate⟩, Option.getD_some]
      · rw [if_neg hr, if_neg (fun hlate => hr hlate.1), Option.getD_none]
        rfl

/-- An act writes to the outcomes as `written?` says and in no other way. -/
theorem Coherent.outcome_act (h : b.Coherent) {a : Act σ} (ha : b.act a = .ok b') (r : RequestId) :
    (b'.requests r).outcome = (b.written? r a).getD (b.requests r).outcome := by
  cases a with
  | shift | bringUp | setClock | setTimeout =>
    cases ha
    rfl
  | handleEvent =>
    cases ha
    exact outcome_handleEvent h r
  | checkTimeout =>
    cases ha
    exact b.outcome_checkTimeout r
  | shutDown =>
    obtain ⟨-, rfl⟩ := act_shutDown ha
    rfl
  | configure r' c =>
    obtain ⟨-, rfl⟩ := act_configure ha
    exact outcome_setRequest (q := (b.requests r').configured c) rfl r
  | submit r' =>
    obtain ⟨-, rfl⟩ := act_submit ha
    rw [requests_startNext]
    by_cases hr : r' = r
    · simp [written?, accept, note, setRequest, hr, Request.armed, Request.outcome]
    · simp [written?, accept, note, setRequest, hr, Ne.symm hr]
  | poll r' l =>
    cases ha
    exact outcome_setRequest (q := (b.requests r').listen l) rfl r

/-- An act accepts what is not pending, or retires what is pending, in flight and at the head. -/
theorem Coherent.written?_cases (h : b.Coherent) {a : Act σ} (ha : b.act a = .ok b')
    {r : RequestId} {o : Status × Nat} (ho : b.written? r a = some o) :
    a = .submit r ∧ (b.requests r).status ≠ .pending ∧ o = (.pending, 0) ∨
    b.active.map Transfer.request = some r ∧ b.queue.head = some r ∧
      (b.requests r).status = .pending ∧ o.1 ≠ .pending := by
  have hserved {t : Transfer} (ht : b.active = some t) :
      b.active.map Transfer.request = some t.request ∧ b.queue.head = some t.request ∧
        (b.requests t.request).status = .pending := by
    refine ⟨by rw [ht, Option.map_some], h.head_eq ht, ?_⟩
    rw [h.requests_eq]
    exact h.lawful.sound.pending _ (h.carries ht).mem
  cases a with
  | submit r' =>
    obtain ⟨hidle, -⟩ := act_submit ha
    obtain ⟨rfl, rfl⟩ : r' = r ∧ (.pending, 0) = o := by simpa [written?] using ho
    exact .inl ⟨rfl, hidle, rfl⟩
  | handleEvent =>
    cases ht : b.active with
    | none => simp [written?, ht] at ho
    | some t =>
      obtain ⟨rfl, x, hx, rfl⟩ : t.request = r ∧ ∃ x,
          Status.firstTerminal? (Transfer.declared (b.eventActions t)) = some x ∧
            (x, (t.advance (b.eventActions t)).byteCount) = o := by
        simpa [written?, ht] using ho
      obtain ⟨hactive, hhead, hpending⟩ := hserved ht
      exact .inr ⟨ht ▸ hactive, hhead, hpending, Status.ne_pending_of_firstTerminal? hx⟩
  | checkTimeout =>
    cases ht : b.active with
    | none => simp [written?, ht] at ho
    | some t =>
      obtain ⟨⟨rfl, -, -⟩, rfl⟩ : (t.request = r ∧ b.config.timeout ≠ 0 ∧
          b.config.timeout < b.readClock.1.since t.startedAt) ∧ (.timeout, t.byteCount) = o := by
        simpa [written?, ht] using ho
      obtain ⟨hactive, hhead, hpending⟩ := hserved ht
      exact .inr ⟨ht ▸ hactive, hhead, hpending, by simp⟩
  | shift | bringUp | shutDown | setClock | setTimeout | configure | poll => cases ho

end Bus

namespace System

variable {σ : Type} {s s' : System σ} {r : RequestId}

theorem accepted?_of_mem_enteredBy {m : Move σ} {reply : Reply}
    (h : .accepted r ∈ s.enteredBy m reply) : m.accepted? s.expanders reply = some r := by
  obtain ⟨limit, c, rfl, hgranted, hmem⟩ := mem_enteredBy h
  rw [Move.accepted?, if_pos hgranted]
  exact accounts_of_mem_intent hmem

variable [Platform σ]

/-- A move that does not have `r` accepted leaves a terminal outcome of `r` alone. -/
theorem outcome_move (hs : s.bus.Coherent) {m : Move σ} {reply : Reply}
    (h : s.move m = some (reply, s')) (hr : (s.bus.requests r).status ≠ .pending)
    (hm : m.accepted? s.expanders reply ≠ some r) :
    (s'.bus.requests r).outcome = (s.bus.requests r).outcome := by
  obtain ⟨added, hhistory, hadded⟩ := history_move h
  have hs' : s'.bus.Coherent := coherent_move h hs
  have hlawful : History.Lawful (added ++ s.bus.history) := hhistory ▸ hs'.lawful
  have houtcome : (History.outcome r s.bus.history).1 ≠ .pending := hs.status_eq_outcome r ▸ hr
  have hnot : .accepted r ∉ added := by
    intro hmem
    exact hm (accepted?_of_mem_enteredBy (hadded _ hmem rfl))
  rw [hs'.outcome_eq, hs.outcome_eq, hhistory, hlawful.outcome_append houtcome hnot]

theorem outcome_run {xs : List Expander} {ms : List (Move σ)} {replies : List Reply}
    (hs : s.bus.Coherent) (hxs : s.expanders.map Expander.unlatched = xs.map Expander.unlatched)
    (h : s.run ms = some (replies, s')) (hr : (s.bus.requests r).status ≠ .pending)
    (hms : ∀ p ∈ ms.zip replies, p.1.accepted? xs p.2 ≠ some r) :
    (s'.bus.requests r).outcome = (s.bus.requests r).outcome := by
  induction ms generalizing s replies with
  | nil =>
    cases h
    rfl
  | cons m ms ih =>
    obtain ⟨reply, s₁, rest, hmove, hrun, rfl⟩ := run_cons_eq_some.1 h
    rw [List.zip_cons_cons, List.forall_mem_cons] at hms
    obtain ⟨hm, hms⟩ := hms
    have hkept := (leads_move hmove).devices
    have hmoved := outcome_move hs hmove hr (by rwa [Move.accepted?_congr hxs])
    have hr₁ : (s₁.bus.requests r).status ≠ .pending := by
      have hstatus : (s₁.bus.requests r).status = (s.bus.requests r).status :=
        congrArg Prod.fst hmoved
      rwa [hstatus]
    rw [ih (coherent_move hmove hs) (hkept.trans hxs) hrun hr₁ hms, hmoved]

/-- After every run each request has the outcome that the history wrote last, and the history
wrote each one once. From there on any act writes as `written?` says, and a terminal outcome
stays until the replies show that its request has been accepted anew. -/
theorem outcome_written_once {platform : σ} {config : Config} {xs : List Expander}
    {ms : List (Move σ)} {replies : List Reply}
    (h : (create platform config xs).run ms = some (replies, s)) :
    (∀ r, (s.bus.requests r).outcome = History.outcome r s.bus.history) ∧
      s.bus.history.WritesOnce ∧
      (∀ as b a b', s.bus.Path as b → b.act a = .ok b' → ∀ r,
        (b'.requests r).outcome = (b.written? r a).getD (b.requests r).outcome ∧
        ∀ o, b.written? r a = some o →
          a = .submit r ∧ (b.requests r).status ≠ .pending ∧ o = (.pending, 0) ∨
          b.active.map Transfer.request = some r ∧ b.queue.head = some r ∧
            (b.requests r).status = .pending ∧ o.1 ≠ .pending) ∧
      (∀ ms' replies' s', s.run ms' = some (replies', s') →
        ∃ added, s'.bus.history = added ++ s.bus.history ∧
          ∀ r, (∀ e ∈ added, e.accepted? ≠ some r ∧ e.retired? ≠ some r) →
            (s'.bus.requests r).outcome = (s.bus.requests r).outcome) ∧
      ∀ ms' replies' s' r, s.run ms' = some (replies', s') →
        (s.bus.requests r).status ≠ .pending →
        (∀ p ∈ ms'.zip replies', p.1.accepted? xs p.2 ≠ some r) →
        (s'.bus.requests r).outcome = (s.bus.requests r).outcome := by
  have hs : s.bus.Coherent := coherent_run h (Bus.coherent_create platform config)
  have hxs : s.expanders.map Expander.unlatched = xs.map Expander.unlatched :=
    (keeps_run h).devices
  refine ⟨fun r => hs.outcome_eq r, hs.lawful.writesOnce, ?_, ?_, ?_⟩
  · intro as b a b' hpath hact r
    have hb : b.Coherent := hpath.coherent hs
    exact ⟨hb.outcome_act hact r, fun o ho => hb.written?_cases hact ho⟩
  · intro ms' replies' s' hrun
    obtain ⟨added, hadded⟩ := history_run hrun
    refine ⟨added, hadded, fun r hr => ?_⟩
    rw [(coherent_run hrun hs).outcome_eq, hadded, History.outcome_append_of_untouched hr,
      hs.outcome_eq]
  · intro ms' replies' s' r hrun hr hms
    exact outcome_run hs hxs hrun hr hms

/-- A request that was given up stays so when its event arrives late. -/
theorem outcome_written_once_late :
    ∃ replies s replies' s', (create (Bench.create 0 0) ⟨Config.standardMode, 5, .interrupt⟩ []).run
        [.call 0 .bringUp, .call 0 (.submit 1), .shift (Bench.create 9 0), .call 0 .tick] =
          some (replies, s) ∧
      (s.bus.requests 1).outcome = (.timeout, 0) ∧
      s.run [.call 0 .handleEvent] = some (replies', s') ∧
      (s'.bus.requests 1).outcome = (.timeout, 0) := by
  have hrun : ∃ replies s replies' s',
      (create (Bench.create 0 0) ⟨Config.standardMode, 5, .interrupt⟩ []).run
        [.call 0 .bringUp, .call 0 (.submit 1), .shift (Bench.create 9 0), .call 0 .tick] =
          some (replies, s) ∧
      (s.bus.requests 1).outcome = (.timeout, 0) ∧
      s.run [.call 0 .handleEvent] = some (replies', s') ∧ replies' = [.done] :=
    ⟨_, _, _, _, rfl, rfl, rfl, rfl⟩
  obtain ⟨replies, s, replies', s', hrun, houtcome, hlate, rfl⟩ := hrun
  have hstatus : (s.bus.requests 1).status = .timeout := congrArg Prod.fst houtcome
  obtain ⟨-, -, -, -, hstays⟩ := outcome_written_once hrun
  refine ⟨replies, s, _, s', hrun, houtcome, hlate, ?_⟩
  rw [hstays _ _ _ 1 hlate (by simp [hstatus]) (by decide), houtcome]

end System

end SharedBus
