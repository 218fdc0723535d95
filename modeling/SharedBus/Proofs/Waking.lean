import SharedBus.Bench
import SharedBus.Proofs.Forgotten
import SharedBus.Proofs.Transcript

/-!
# Who is woken

A request wakes, each time it is retired, the listener that polled it last, and nothing else
wakes anyone. A poll registers the listener whatever it is answered, and the status is written
before the listener is woken. So a completion that found its request pending is woken by the
next retirement, unless another one has polled the request since, and learns from its next poll
the status that the retirement wrote.
-/

namespace SharedBus

namespace History

variable {r : RequestId} {m : ListenerId}

def poller (r : RequestId) : History → Option ListenerId
  | [] => none
  | .polled r' m :: h => if r' = r then some m else poller r h
  | _ :: h => poller r h

/-- How many retirements of `r` found `m` to be the last to have polled it. -/
def wakings (r : RequestId) (m : ListenerId) : History → Nat
  | [] => 0
  | e :: h => wakings r m h + if e.retired? = some r ∧ poller r h = some m then 1 else 0

/-- Among what happened, `m` polled `r` when it was not pending. -/
def Resolves (r : RequestId) (m : ListenerId) : History → Prop
  | [] => False
  | e :: h => e = .polled r m ∧ (outcome r h).1 ≠ .pending ∨ Resolves r m h

/-! ### The last to have polled -/

theorem listener_ledger (r : RequestId) (h : History) :
    ((ledger h).requests r).listener = poller r h := by
  induction h with
  | nil => rfl
  | cons e h ih =>
    cases e with
    | polled r' l =>
      by_cases hr : r' = r
      · rw [hr, poller, if_pos rfl, ledger_cons, Ledger.after, Ledger.requests_setRequest_self]
        rfl
      · rw [poller, if_neg hr, ledger_cons, Ledger.after,
          Ledger.requests_setRequest_of_ne _ _ (Ne.symm hr), ih]
    | configured r' c =>
      have hkept := Ledger.apply_setRequest (q := ((ledger h).requests r').configured c)
        Request.listener rfl r
      exact hkept.trans ih
    | accepted r' =>
      have hkept := Ledger.apply_setRequest (q := ((ledger h).requests r').armed)
        Request.listener rfl r
      exact hkept.trans ih
    | retired t s =>
      have hkept := Ledger.apply_setRequest (q := ((ledger h).requests t.request).retire t s)
        Request.listener rfl r
      exact hkept.trans ih
    | reset | clockSet | closed | begun | serviced | broughtUp | shutDown | recovered => exact ih

theorem polled_of_poller {h : History} (hm : poller r h = some m) : .polled r m ∈ h :=
  polled_of_listener ((listener_ledger r h).trans hm)

/-- As long as nobody else polls, the last to have polled stays the last. -/
theorem poller_append_of_alone {added h : History} (hadded : ∀ l, .polled r l ∈ added → l = m)
    (hm : poller r h = some m) : poller r (added ++ h) = some m := by
  induction added with
  | nil => exact hm
  | cons e added ih =>
    have ih := ih fun l hl => hadded l (List.mem_cons_of_mem _ hl)
    cases e with
    | polled r' l =>
      rw [List.cons_append, poller, ih]
      split
      · next hr => rw [hadded l (hr ▸ List.mem_cons_self)]
      · rfl
    | reset | clockSet | closed | begun | serviced | broughtUp | shutDown | configured | accepted |
      retired | recovered => exact ih

theorem poller_append_of_quiet {added : History} (hadded : ∀ l, .polled r l ∉ added) (h : History) :
    poller r (added ++ h) = poller r h := by
  induction added with
  | nil => rfl
  | cons e added ih =>
    have ih := ih fun l hl => hadded l (List.mem_cons_of_mem _ hl)
    cases e with
    | polled r' l =>
      have hne : r' ≠ r := by
        rintro rfl
        exact hadded l List.mem_cons_self
      rw [List.cons_append, poller, if_neg hne, ih]
    | reset | clockSet | closed | begun | serviced | broughtUp | shutDown | configured | accepted |
      retired | recovered => exact ih

/-! ### Counting wakes -/

/-- Who has polled no other request is woken by the retirements of this one. -/
theorem wakes_ledger {h : History} (hm : ∀ r', .polled r' m ∈ h → r' = r) :
    (ledger h).wakes m = wakings r m h := by
  induction h with
  | nil => rfl
  | cons e h ih =>
    have ih := ih fun r' hr' => hm r' (List.mem_cons_of_mem _ hr')
    cases e with
    | retired t s =>
      have hiff : ((ledger h).requests t.request).listener = some m ↔
          t.request = r ∧ poller r h = some m := by
        rw [listener_ledger]
        constructor
        · intro hlistener
          have hr := hm _ (List.mem_cons_of_mem _ (polled_of_poller hlistener))
          exact ⟨hr, hr ▸ hlistener⟩
        · rintro ⟨rfl, hlistener⟩
          exact hlistener
      simp only [wakings, Event.retired?, Option.some.injEq, ← hiff, ← ih]
      simp only [ledger_cons, Ledger.after, Ledger.wake, Ledger.setRequest]
      split <;> rfl
    | reset | clockSet | closed | begun | serviced | broughtUp | shutDown | configured | accepted |
      recovered | polled => exact ih

theorem wakings_append_of_unretired {added : History} (hadded : ∀ e ∈ added, e.retired? ≠ some r)
    (m : ListenerId) (h : History) : wakings r m (added ++ h) = wakings r m h := by
  induction added with
  | nil => rfl
  | cons e added ih =>
    obtain ⟨he, hrest⟩ := List.forall_mem_cons.1 hadded
    rw [List.cons_append, wakings, if_neg fun hwoken => he hwoken.1, ih hrest,
      Nat.add_zero]

theorem wakings_le_append (added h : History) : wakings r m h ≤ wakings r m (added ++ h) := by
  induction added with
  | nil => exact Nat.le_refl _
  | cons e added ih => exact Nat.le_add_right_of_le ih

/-- One retirement, with neither another nor a poll beside it. -/
theorem wakings_append_retired {front back : History} {t : Transfer} {s : Status}
    (hfront : ∀ e ∈ front, e.retired? ≠ some r) (hback : ∀ e ∈ back, e.retired? ≠ some r)
    (hpolled : ∀ l, .polled r l ∉ back) (m : ListenerId) (h : History) :
    wakings r m (front ++ .retired t s :: (back ++ h)) =
      wakings r m h + if t.request = r ∧ poller r h = some m then 1 else 0 := by
  rw [wakings_append_of_unretired hfront, wakings, wakings_append_of_unretired hback,
    poller_append_of_quiet hpolled]
  simp only [Event.retired?, Option.some.injEq]

/-! ### From a poll to the retirement -/

theorem wakings_retired {between h : History} {t : Transfer} {s : Status} (ht : t.request = r)
    (hbetween : ∀ e ∈ between, e.retired? ≠ some r) (hm : poller r (between ++ h) = some m) :
    wakings r m (.retired t s :: (between ++ h)) = wakings r m h + 1 := by
  rw [wakings, wakings_append_of_unretired hbetween, if_pos ⟨congrArg some ht, hm⟩]

theorem pending_append {added h : History} (hr : (outcome r h).1 = .pending)
    (hadded : ∀ e ∈ added, e.retired? ≠ some r) : (outcome r (added ++ h)).1 = .pending := by
  induction added with
  | nil => exact hr
  | cons e added ih =>
    obtain ⟨he, hrest⟩ := List.forall_mem_cons.1 hadded
    have ih := ih hrest
    cases e with
    | accepted r' =>
      rw [List.cons_append, outcome]
      split
      · rfl
      · exact ih
    | retired t s =>
      have hne : t.request ≠ r := fun ht => he (congrArg some ht)
      rw [List.cons_append, outcome, if_neg hne]
      exact ih
    | reset | clockSet | closed | begun | serviced | broughtUp | shutDown | configured |
      recovered | polled => exact ih

theorem Resolves.of_append {added h : History} (hr : Resolves r m (added ++ h))
    (hadded : .polled r m ∉ added) : Resolves r m h := by
  induction added with
  | nil => exact hr
  | cons e added ih =>
    rw [List.mem_cons, not_or] at hadded
    rcases hr with ⟨rfl, -⟩ | hr
    · exact absurd rfl hadded.1
    · exact ih hr hadded.2

theorem Resolves.append {h : History} (hr : Resolves r m h) (added : History) :
    Resolves r m (added ++ h) := by
  induction added with
  | nil => exact hr
  | cons e added ih => exact .inr ih

/-- While the request is pending nobody learns a status. -/
theorem Resolves.of_append_pending {added h : History} (hr : Resolves r m (added ++ h))
    (hpending : (outcome r h).1 = .pending) (hadded : ∀ e ∈ added, e.retired? ≠ some r) :
    Resolves r m h := by
  induction added with
  | nil => exact hr
  | cons e added ih =>
    obtain ⟨-, hrest⟩ := List.forall_mem_cons.1 hadded
    rcases hr with ⟨-, hidle⟩ | hr
    · exact absurd (pending_append hpending hrest) hidle
    · exact ih hr hrest

theorem Resolves.polled {h : History} (hr : Resolves r m h) : .polled r m ∈ h := by
  induction h with
  | nil => cases hr
  | cons e h ih =>
    rcases hr with ⟨rfl, -⟩ | hr
    · exact List.mem_cons_self
    · exact List.mem_cons_of_mem _ (ih hr)

end History

theorem Act.poll_of_entry {σ : Type} {a : Act σ} {r : RequestId} {m : ListenerId}
    (h : a.entry = some (.polled r m)) : a = .poll r m := by
  cases a with
  | poll r' l =>
    cases h
    rfl
  | shift | handleEvent | checkTimeout | bringUp | shutDown | setClock | setTimeout | configure |
    submit => cases h

namespace Bus

variable {σ : Type} {b b' : Bus σ} {r : RequestId} {m : ListenerId}

theorem Accords.wakes_eq_wakings (h : b.Accords) (hm : ∀ r', .polled r' m ∈ b.history → r' = r) :
    b.wakes m = History.wakings r m b.history := by
  rw [h.wakes_eq, History.wakes_ledger hm]

variable [Platform σ]

omit [Platform σ] in
/-- A request that was retired and not submitted since still has the status that was written. -/
theorem Coherent.status_of_retired (h : b.Coherent) {later earlier : History} {t : Transfer}
    {status : Status} (hhistory : b.history = later ++ .retired t status :: earlier)
    (ht : t.request = r) (hlater : .accepted r ∉ later) :
    (b.requests r).status = status ∧ status ≠ .pending := by
  have hlawful : History.Lawful (later ++ .retired t status :: earlier) := hhistory ▸ h.lawful
  obtain ⟨-, -, -, hterminal⟩ := hlawful.writesOnce.retired later t status _ rfl
  have hwritten : History.outcome r (.retired t status :: earlier) = (status, t.byteCount) :=
    if_pos ht
  have hidle : (History.outcome r (.retired t status :: earlier)).1 ≠ .pending := by
    rwa [hwritten]
  refine ⟨?_, hterminal⟩
  rw [h.status_eq_outcome, hhistory, hlawful.outcome_append hidle hlater, hwritten]

def retires (b : Bus σ) (a : Act σ) (r : RequestId) : Bool :=
  (b.entries a).any fun e => e.retired? = some r

omit [Platform σ] in
theorem retired?_of_mem_beginning {rs : List RequestId} {e : Event} (he : e ∈ b.beginning rs) :
    e.retired? = none := by
  obtain ⟨r', -, rfl⟩ := mem_beginning he
  rfl

/-- An act retires nobody, or once, and polls nothing before. -/
theorem entries_cases (b : Bus σ) (a : Act σ) :
    (∀ e ∈ b.entries a, e.retired? = none) ∨
      ∃ front t s back, b.entries a = front ++ .retired t s :: back ∧
        (∀ e ∈ front, e.retired? = none) ∧ (∀ e ∈ back, e.retired? = none) ∧
        ∀ r l, .polled r l ∉ back := by
  cases a with
  | handleEvent =>
    cases ht : b.active with
    | none => exact .inl (by simp [entries, ht])
    | some t =>
      simp only [entries, ht]
      split
      · exact .inl (by simp [Event.retired?])
      · exact .inr ⟨_, _, _, [_], rfl, fun e he => retired?_of_mem_beginning he,
          by simp [Event.retired?], by simp⟩
  | checkTimeout =>
    cases ht : b.overdue? with
    | none => exact .inl (by simp [entries, ht])
    | some t =>
      refine .inr ⟨.recovered :: (b.beginning b.queue.toList.tail ++
        [.clockSet b.config.clock, .reset, .closed]), t, .timeout, [], by simp [entries, ht], ?_,
        by simp, by simp⟩
      refine List.forall_mem_cons.2 ⟨rfl, List.forall_mem_append.2
        ⟨fun e he => retired?_of_mem_beginning he, ?_⟩⟩
      simp [Event.retired?]
  | submit r =>
    left
    refine List.forall_mem_append.2 ⟨fun e he => retired?_of_mem_beginning he, ?_⟩
    simp [Event.retired?]
  | bringUp | shutDown | setClock | configure | poll | shift | setTimeout =>
    exact .inl (by simp [entries, Event.retired?])

theorem wakings_entries (b : Bus σ) (a : Act σ) (r : RequestId) (m : ListenerId) (h : History) :
    History.wakings r m (b.entries a ++ h) = History.wakings r m h +
      if b.retires a r = true ∧ History.poller r h = some m then 1 else 0 := by
  have hquiet {es : History} (hes : ∀ e ∈ es, e.retired? = none) :
      ∀ e ∈ es, e.retired? ≠ some r := fun e he => by simp [hes e he]
  have hany {es : History} (hes : ∀ e ∈ es, e.retired? = none) :
      (es.any fun e => e.retired? = some r) = false := by simpa using hquiet hes
  rcases b.entries_cases a with hnone | ⟨front, t, s, back, hentries, hfront, hback, hpolled⟩
  · rw [retires, hany hnone, History.wakings_append_of_unretired (hquiet hnone)]
    simp
  · rw [retires, hentries, List.append_assoc, List.cons_append,
      History.wakings_append_retired (hquiet hfront) (hquiet hback) (hpolled r),
      List.any_append, List.any_cons, hany hfront, hany hback]
    simp [Event.retired?]

/-- Whatever polls were entered on a path are among its acts. -/
theorem Path.history_polled {as : List (Act σ)} (h : Path b as b') :
    ∃ added, b'.history = added ++ b.history ∧ ∀ r m, .polled r m ∈ added → .poll r m ∈ as := by
  obtain ⟨added, hadded, hfilter⟩ := h.grows
  refine ⟨added, hadded, fun r m hm => ?_⟩
  have hentry : .polled r m ∈ added.filter Event.byCaller := List.mem_filter.2 ⟨hm, rfl⟩
  rw [hfilter, List.mem_reverse, List.mem_filterMap] at hentry
  obtain ⟨a, ha, hentry⟩ := hentry
  rwa [← Act.poll_of_entry hentry]

theorem Path.polled {as : List (Act σ)} (h : Path b as b') (hm : .polled r m ∈ b'.history) :
    .polled r m ∈ b.history ∨ .poll r m ∈ as := by
  obtain ⟨added, hadded, hpolled⟩ := h.history_polled
  rw [hadded] at hm
  rcases List.mem_append.1 hm with hm | hm
  · exact .inr (hpolled r m hm)
  · exact .inl hm

/-- An act wakes who was the last to poll the request that it retires. -/
theorem Coherent.wakes_act (h : b.Coherent) {a : Act σ} (ha : b.act a = .ok b')
    (hm : ∀ r', .polled r' m ∈ b.history → r' = r) :
    b'.wakes m = b.wakes m +
      if b.retires a r = true ∧ History.poller r b.history = some m then 1 else 0 := by
  by_cases hpoll : ∃ r' l, a = .poll r' l
  · obtain ⟨r', l, rfl⟩ := hpoll
    cases ha
    rfl
  · have hm' : ∀ r', .polled r' m ∈ b'.history → r' = r := by
      intro r' hmem
      rcases (Path.single ha).polled hmem with hmem | hmem
      · exact hm r' hmem
      · exact absurd ⟨r', m, (List.mem_singleton.1 hmem).symm⟩ hpoll
    rw [(h.act ha).wakes_eq_wakings hm', h.wakes_eq_wakings hm, h.history_act ha, wakings_entries]

end Bus

/-! ### Polls as the callers see them -/

namespace Turn

variable {σ : Type}

/-- The completion that polled `r` in a turn. A finished one does not poll again. -/
def polled? (r : RequestId) (p : Turn σ) : Option ListenerId :=
  match p.move with
  | .call _ (.poll m) =>
      if p.reply ≠ .finished ∧ p.before.completions[m]?.map Completion.request = some r then some m
      else none
  | _ => none

def Tells (p : Turn σ) (m : Nat) : Prop :=
  ∃ limit status, p.move = .call limit (.poll m) ∧ p.reply = .status status

end Turn

namespace System

variable {σ : Type} {s s' : System σ} {reply : Reply} {m : Nat} {r : RequestId}

theorem poll_of_absent (h : s.completions[m]? = none) : s.poll m = (.absent, s) := by
  simp only [poll, h]

theorem poll_of_resolved (h : s.completions[m]? = some ⟨r, true⟩) : s.poll m = (.finished, s) := by
  simp only [poll, h]

theorem poll_of_pending (h : s.completions[m]? = some ⟨r, false⟩)
    (hr : (s.bus.requests r).status = .pending) :
    s.poll m = (.unresolved, s.withBus (s.bus.poll r m).2) := by
  simp [poll, h, Bus.poll_eq, Bus.outcome?_eq_none_iff.2 hr]

theorem poll_of_idle (h : s.completions[m]? = some ⟨r, false⟩)
    (hr : (s.bus.requests r).status ≠ .pending) :
    s.poll m = (.status (s.bus.requests r).status,
      { s with bus := (s.bus.poll r m).2, completions := s.completions.set m ⟨r, true⟩ }) := by
  simp [poll, h, Bus.poll_eq, Bus.outcome?_of_idle hr]

/-- What a move does to the completions. It is a poll, answered in one of four ways, or it polls
nothing, and there is a new completion at most. -/
inductive Polling (s : System σ) : Move σ → Reply → System σ → Prop
  | absent (limit m : Nat) (hc : s.completions[m]? = none) :
      Polling s (.call limit (.poll m)) .absent s
  | finished (limit m : Nat) (r : RequestId) (hc : s.completions[m]? = some ⟨r, true⟩) :
      Polling s (.call limit (.poll m)) .finished s
  | unresolved (limit m : Nat) (r : RequestId) (hc : s.completions[m]? = some ⟨r, false⟩)
      (hr : (s.bus.requests r).status = .pending) :
      Polling s (.call limit (.poll m)) .unresolved (s.withBus (s.bus.poll r m).2)
  | told (limit m : Nat) (r : RequestId) (hc : s.completions[m]? = some ⟨r, false⟩)
      (hr : (s.bus.requests r).status ≠ .pending) :
      Polling s (.call limit (.poll m)) (.status (s.bus.requests r).status)
        { s with bus := (s.bus.poll r m).2, completions := s.completions.set m ⟨r, true⟩ }
  | other {move : Move σ} {reply : Reply} {s' : System σ} {added : History}
      (hmove : ∀ limit m, move ≠ .call limit (.poll m))
      (hadded : s'.bus.history = added ++ s.bus.history) (hquiet : ∀ r m, .polled r m ∉ added)
      (hcompletions : ∀ m : Nat, s'.completions[m]? = s.completions[m]? ∨
        s.completions[m]? = none ∧ ∃ r, s'.completions[m]? = some ⟨r, false⟩) :
      Polling s move reply s'

theorem polling_poll (limit : Nat) (h : s.poll m = (reply, s')) :
    s.Polling (.call limit (.poll m)) reply s' := by
  cases hc : s.completions[m]? with
  | none =>
    cases (poll_of_absent hc).symm.trans h
    exact .absent limit m hc
  | some c =>
    obtain ⟨r, resolved⟩ := c
    cases resolved with
    | true =>
      cases (poll_of_resolved hc).symm.trans h
      exact .finished limit m r hc
    | false =>
      by_cases hr : (s.bus.requests r).status = .pending
      · cases (poll_of_pending hc hr).symm.trans h
        exact .unresolved limit m r hc hr
      · cases (poll_of_idle hc hr).symm.trans h
        exact .told limit m r hc hr

def Remembers (s : System σ) : Prop :=
  ∀ m c, s.completions[m]? = some c →
    (c.resolved = true ↔ History.Resolves c.request m s.bus.history)

theorem polled_of_mem_intent {c : Call} (h : .polled r m ∈ s.intent c) : c = .poll m := by
  cases c with
  | poll i =>
    cases hi : s.completions[i]? with
    | none => simp [intent, hi] at h
    | some c =>
      simp only [intent, hi, List.mem_singleton, Event.polled.injEq] at h
      rw [h.2]
  | writePin i | readPin i => cases hi : s.expanders[i]? <;> simp [intent, hi] at h
  | bringUp | shutDown | setClock | setTimeout | tick | handleEvent | submit | write | writeFixed |
    read | setWrite | setWriteFixed | setRead | readInto | wait | complete | selectClock |
    describePins | ownsPin => simp [intent] at h

theorem completions_attempt {result : Except Error (Bus σ)}
    (h : s.attempt result = (reply, s')) : s'.completions = s.completions := by
  cases result <;> cases h <;> rfl

theorem completions_withBus {α : Type} {f : α → Reply} {result : Option (α × Bus σ)}
    (h : result.map (fun (x, b) => (f x, s.withBus b)) = some (reply, s')) :
    s'.completions = s.completions := by
  obtain ⟨⟨x, b⟩, -, hreply⟩ := Option.map_eq_some_iff.1 h
  cases hreply
  rfl

theorem completions_device {i : Nat} {α : Type} {f : α → Reply}
    {result : Option (α × Expander × Bus σ)}
    (h : result.map (fun (a, x, b) =>
      (f a, { s with bus := b, expanders := s.expanders.set i x })) = some (reply, s')) :
    s'.completions = s.completions := by
  obtain ⟨⟨a, x, b⟩, -, hreply⟩ := Option.map_eq_some_iff.1 h
  cases hreply
  rfl

variable [Platform σ]

omit [Platform σ] in
theorem getElem?_append_unresolved (cs : List Completion) (r : RequestId) (m : Nat) :
    (cs ++ [⟨r, false⟩])[m]? = cs[m]? ∨
      cs[m]? = none ∧ ∃ r', (cs ++ [⟨r, false⟩])[m]? = some ⟨r', false⟩ := by
  rcases Nat.lt_trichotomy m cs.length with hm | rfl | hm
  · exact .inl (List.getElem?_append_left hm)
  · exact .inr ⟨List.getElem?_eq_none (Nat.le_refl _), r, List.getElem?_concat_length⟩
  · left
    rw [List.getElem?_eq_none (Nat.le_of_lt hm), List.getElem?_eq_none (List.length_append ▸ hm)]

/-- But for polls the completions stay as they are, or there is a new one that is not resolved. -/
theorem completions_perform {limit : Nat} {c : Call} (hc : ∀ m, c ≠ .poll m)
    (h : s.perform limit c = some (reply, s')) :
    s'.completions = s.completions ∨ ∃ r, s'.completions = s.completions ++ [⟨r, false⟩] := by
  cases c with
  | poll i => exact absurd rfl (hc i)
  | complete r =>
    cases h
    exact .inr ⟨r, rfl⟩
  | shutDown | submit | setWrite | setWriteFixed | setRead =>
    exact .inl (completions_attempt (Option.some.inj h))
  | write | writeFixed | read | wait => exact .inl (completions_withBus h)
  | writePin i | readPin i =>
    left
    cases hx : s.expanders[i]? with
    | none =>
      simp only [perform, writePin, readPin, hx] at h
      cases h
      rfl
    | some x =>
      simp only [perform, writePin, readPin, hx] at h
      exact completions_device h
  | selectClock i | ownsPin i =>
    left
    cases hx : s.expanders[i]? <;> simp only [perform, hx] at h <;> cases h <;> rfl
  | bringUp | setClock | setTimeout | tick | handleEvent | readInto | describePins =>
    cases h
    exact .inl rfl

theorem polling {move : Move σ} (h : s.move move = some (reply, s')) :
    s.Polling move reply s' := by
  by_cases hpoll : ∃ limit m, move = .call limit (.poll m)
  · obtain ⟨limit, m, rfl⟩ := hpoll
    exact polling_poll limit (Option.some.inj h)
  · have hmove : ∀ limit m, move ≠ .call limit (.poll m) := fun limit m hm => hpoll ⟨limit, m, hm⟩
    obtain ⟨added, hadded, hentered⟩ := history_move h
    have hquiet : ∀ r m, .polled r m ∉ added := by
      intro r m hmem
      obtain ⟨limit, c, rfl, -, hintent⟩ := mem_enteredBy (hentered _ hmem rfl)
      exact hmove limit m (by rw [polled_of_mem_intent hintent])
    refine .other hmove hadded hquiet fun m => ?_
    cases move with
    | shift platform =>
      cases h
      exact .inl rfl
    | call limit c =>
      rcases completions_perform (fun m hm => hmove limit m (by rw [hm])) h with hkept | ⟨r, hnew⟩
      · exact .inl (by rw [hkept])
      · rw [hnew]
        exact getElem?_append_unresolved s.completions r m

/-- The completion that polls in a turn is from then on the last to have polled its request. -/
theorem poller_move {move : Move σ} (h : s.move move = some (reply, s')) (r : RequestId) :
    History.poller r s'.bus.history =
      (Turn.polled? r ⟨s, move, reply, s'⟩).or (History.poller r s.bus.history) := by
  cases polling h with
  | absent limit m hc => simp [Turn.polled?, hc]
  | finished limit m r' hc => simp [Turn.polled?]
  | unresolved limit m r' hc hr' =>
    by_cases hr : r' = r <;>
      simp [Turn.polled?, hc, hr, withBus, Bus.poll_eq, History.poller]
  | told limit m r' hc hr' =>
    by_cases hr : r' = r <;>
      simp [Turn.polled?, hc, hr, Bus.poll_eq, History.poller]
  | other hmove hadded hquiet hcompletions =>
    have hpolled : Turn.polled? r ⟨s, move, reply, s'⟩ = none := by
      unfold Turn.polled?
      split
      · next limit m hm => exact absurd hm (hmove limit m)
      · rfl
    rw [hadded, History.poller_append_of_quiet (hquiet r), hpolled, Option.none_or]

theorem poller_run {ms : List (Move σ)} {replies : List Reply} (h : s.run ms = some (replies, s'))
    (r : RequestId) : History.poller r s'.bus.history =
      ((s.turns ms).filterMap (Turn.polled? r)).getLast?.or (History.poller r s.bus.history) := by
  induction ms generalizing s replies with
  | nil =>
    cases h
    rfl
  | cons move ms ih =>
    obtain ⟨reply, s₁, rest, hmove, hrun, -⟩ := run_cons_eq_some.1 h
    rw [ih hrun, poller_move hmove, filterMap_turns_cons _ hmove]
    cases hpolled : Turn.polled? r ⟨s, move, reply, s₁⟩ with
    | none => rw [Option.none_or, Option.toList_none, List.nil_append]
    | some m =>
      rw [Option.some_or, Option.toList_some, List.singleton_append, List.getLast?_cons]
      cases ((s₁.turns ms).filterMap (Turn.polled? r)).getLast? <;> rfl

/-- A completion is resolved by being told a status. -/
theorem resolved_move {move : Move σ} (h : s.move move = some (reply, s')) (m : Nat) :
    s'.completions[m]?.map Completion.resolved = some true ↔
      s.completions[m]?.map Completion.resolved = some true ∨
        Turn.Tells ⟨s, move, reply, s'⟩ m := by
  cases polling h with
  | absent limit l hc => simp [Turn.Tells]
  | finished limit l r hc => simp [Turn.Tells]
  | unresolved limit l r hc hr => simp [Turn.Tells, withBus]
  | told limit l r hc hr =>
    obtain ⟨hl, -⟩ := List.getElem?_eq_some_iff.1 hc
    by_cases hm : l = m
    · subst l
      simp [Turn.Tells, List.getElem?_set_self hl]
    · simp [Turn.Tells, List.getElem?_set_ne hm, hm]
  | other hmove hadded hquiet hcompletions =>
    have htells : ¬ Turn.Tells ⟨s, move, reply, s'⟩ m := by
      rintro ⟨limit, status, hm, -⟩
      exact hmove limit m hm
    rcases hcompletions m with hkept | ⟨hnone, r, hnew⟩
    · simp [hkept, htells]
    · simp [hnone, hnew, htells]

theorem resolved_run {ms : List (Move σ)} {replies : List Reply}
    (h : s.run ms = some (replies, s')) (m : Nat) :
    s'.completions[m]?.map Completion.resolved = some true ↔
      s.completions[m]?.map Completion.resolved = some true ∨ ∃ p ∈ s.turns ms, p.Tells m := by
  induction ms generalizing s replies with
  | nil =>
    cases h
    simp [turns]
  | cons move ms ih =>
    obtain ⟨reply, s₁, rest, hmove, hrun, -⟩ := run_cons_eq_some.1 h
    rw [ih hrun, resolved_move hmove, turns_cons hmove]
    simp only [List.mem_cons, exists_eq_or_imp, or_assoc]

theorem Remembers.move (hr : s.Remembers) (hs : s.bus.Coherent) (hears : s.Hears) {move : Move σ}
    (h : s.move move = some (reply, s')) : s'.Remembers := by
  intro m c hm
  cases polling h with
  | absent | finished => exact hr m c hm
  | unresolved limit l r hc hpending =>
    rw [hr m c hm]
    refine ⟨Or.inr, fun hresolves => ?_⟩
    rcases hresolves with ⟨he, hidle⟩ | hresolves
    · cases he
      exact absurd (hs.status_eq_outcome c.request ▸ hpending) hidle
    · exact hresolves
  | told limit l r hc hidle =>
    by_cases hl : l = m
    · subst l
      obtain ⟨hlt, -⟩ := List.getElem?_eq_some_iff.1 hc
      have hset : (s.completions.set m ⟨r, true⟩)[m]? = some ⟨r, true⟩ :=
        List.getElem?_set_self hlt
      obtain rfl : ⟨r, true⟩ = c := Option.some.inj (hset.symm.trans hm)
      exact ⟨fun _ => .inl ⟨rfl, hs.status_eq_outcome r ▸ hidle⟩, fun _ => rfl⟩
    · have hset : (s.completions.set l ⟨r, true⟩)[m]? = s.completions[m]? :=
        List.getElem?_set_ne hl
      rw [hr m c (hset.symm.trans hm)]
      refine ⟨Or.inr, fun hresolves => ?_⟩
      rcases hresolves with ⟨he, -⟩ | hresolves
      · cases he
        exact absurd rfl hl
      · exact hresolves
  | other hmove hadded hquiet hcompletions =>
    have hiff : History.Resolves c.request m s'.bus.history ↔
        History.Resolves c.request m s.bus.history := by
      rw [hadded]
      exact ⟨fun hresolves => hresolves.of_append (hquiet c.request m),
        fun hresolves => hresolves.append _⟩
    rw [hiff]
    rcases hcompletions m with hkept | ⟨hnone, r, hnew⟩
    · exact hr m c (hkept ▸ hm)
    · obtain rfl := Option.some.inj (hnew.symm.trans hm)
      refine ⟨fun hfalse => absurd hfalse Bool.false_ne_true, fun hresolves => ?_⟩
      have hawaited := hears r m hresolves.polled
      rw [hnone] at hawaited
      cases hawaited

theorem remembers_run {ms : List (Move σ)} {replies : List Reply}
    (h : s.run ms = some (replies, s')) (hs : s.bus.Coherent) (hears : s.Hears) (hr : s.Remembers) :
    s'.Remembers := by
  induction ms generalizing s replies with
  | nil =>
    cases h
    exact hr
  | cons move ms ih =>
    obtain ⟨reply, s₁, rest, hmove, hrun, -⟩ := run_cons_eq_some.1 h
    exact ih hrun (coherent_move hmove hs) (hears.move hmove) (hr.move hs hears hmove)

/-- Whatever polls were entered in a run were made in one of its turns. -/
theorem polled_run {ms : List (Move σ)} {replies : List Reply} (h : s.run ms = some (replies, s')) :
    ∃ added, s'.bus.history = added ++ s.bus.history ∧
      ∀ r m, .polled r m ∈ added → ∃ p ∈ s.turns ms, p.polled? r = some m := by
  induction ms generalizing s replies with
  | nil =>
    cases h
    exact ⟨[], rfl, fun _ _ hmem => absurd hmem List.not_mem_nil⟩
  | cons move ms ih =>
    obtain ⟨reply, s₁, rest, hmove, hrun, -⟩ := run_cons_eq_some.1 h
    obtain ⟨later, hlater, hturns⟩ := ih hrun
    obtain ⟨added, hadded, hentered⟩ := history_move hmove
    refine ⟨later ++ added, by rw [hlater, hadded, List.append_assoc], fun r m hmem => ?_⟩
    rw [turns_cons hmove]
    rcases List.mem_append.1 hmem with hmem | hmem
    · obtain ⟨p, hp, hpolled⟩ := hturns r m hmem
      exact ⟨p, List.mem_cons_of_mem _ hp, hpolled⟩
    · obtain ⟨limit, c, rfl, hg, hintent⟩ := mem_enteredBy (hentered _ hmem rfl)
      obtain rfl := polled_of_mem_intent hintent
      have hawaited : s.completions[m]?.map Completion.request = some r :=
        accounts_of_mem_intent hintent
      have hreply : reply ≠ .finished := by
        rintro rfl
        cases hg
      exact ⟨_, List.mem_cons_self, if_pos ⟨hreply, hawaited⟩⟩

/-- When the completion at `m` has found `r` pending and no other one polls `r` after that, the next
retirement of `r` wakes it. The poll that follows is told the status of this retirement, unless
`r` was submitted again. -/
def WakesNext (s : System σ) (m : Nat) (r : RequestId) : Prop :=
  ∀ limit s₁ ms replies s₂, s.perform limit (.poll m) = some (.unresolved, s₁) →
    s₁.run ms = some (replies, s₂) →
    (∀ p ∈ s₁.turns ms, ∀ l, p.polled? r = some l → l = m) →
    ∀ later t status between,
      s₂.bus.history = later ++ .retired t status :: (between ++ s₁.bus.history) →
      t.request = r → (∀ e ∈ between, e.retired? ≠ some r) →
      status ≠ .pending ∧
        History.wakings r m (.retired t status :: (between ++ s₁.bus.history)) =
          s₁.bus.wakes m + 1 ∧
        s₁.bus.wakes m < s₂.bus.wakes m ∧
        (.accepted r ∉ later → .polled r m ∉ later →
          ∀ limit, ∃ s₃, s₂.perform limit (.poll m) = some (.status status, s₃))

omit [Platform σ] in
theorem wakes_eq_wakings (hs : s.bus.Coherent) (hears : s.Hears)
    (hm : s.completions[m]?.map Completion.request = some r) :
    s.bus.wakes m = History.wakings r m s.bus.history := by
  apply hs.wakes_eq_wakings
  intro r' hpolled
  exact hears.eq_of_polled hm hpolled

theorem unresolved_poll (hs : s.bus.Coherent) {limit : Nat} {c : Completion}
    (hc : s.completions[m]? = some c)
    (h : s.perform limit (.poll m) = some (.unresolved, s')) :
    s'.completions[m]? = some ⟨c.request, false⟩ ∧
      (History.outcome c.request s'.bus.history).1 = .pending ∧
      History.poller c.request s'.bus.history = some m := by
  have hmove : s.move (.call limit (.poll m)) = some (.unresolved, s') := h
  cases polling hmove with
  | unresolved _ _ r hc' hpending =>
    obtain rfl := Option.some.inj (hc.symm.trans hc')
    have houtcome : (History.outcome r s.bus.history).1 = .pending :=
      hs.status_eq_outcome r ▸ hpending
    exact ⟨hc', houtcome, if_pos rfl⟩
  | other hmove => exact absurd rfl (hmove limit m)

/-- As long as nobody else polls, who polled last before a run is still the last to have done so. -/
theorem poller_of_alone {ms : List (Move σ)} {replies : List Reply} {later between : History}
    {e : Event} (h : s.run ms = some (replies, s'))
    (halone : ∀ p ∈ s.turns ms, ∀ l, p.polled? r = some l → l = m)
    (hhistory : s'.bus.history = later ++ e :: (between ++ s.bus.history))
    (hm : History.poller r s.bus.history = some m) :
    History.poller r (between ++ s.bus.history) = some m := by
  refine History.poller_append_of_alone (fun l hmem => ?_) hm
  obtain ⟨added, hadded, hturns⟩ := polled_run h
  have hsplit : added = later ++ e :: between := by
    rw [hadded, ← List.cons_append, ← List.append_assoc] at hhistory
    exact List.append_cancel_right hhistory
  obtain ⟨p, hp, hpolled⟩ := hturns r l (hsplit ▸ by simp [hmem])
  exact halone p hp l hpolled

/-- A completion that has not been told a status is told that of the last retirement, unless the
request was submitted again. -/
theorem told_of_retired (hs : s.bus.Coherent) (hr : s.Remembers)
    (hc : s.completions[m]?.map Completion.request = some r) {later h : History} {t : Transfer}
    {status : Status} (hhistory : s.bus.history = later ++ .retired t status :: h)
    (ht : t.request = r) (hunresolved : ¬ History.Resolves r m h) (haccepted : .accepted r ∉ later)
    (hpolled : .polled r m ∉ later) (limit : Nat) :
    ∃ s', s.perform limit (.poll m) = some (.status status, s') := by
  obtain ⟨⟨r', resolved⟩, hfound, hr'⟩ := Option.map_eq_some_iff.1 hc
  obtain rfl : r = r' := hr'.symm
  obtain ⟨hstatus, hterminal⟩ := hs.status_of_retired hhistory ht haccepted
  have hfalse : resolved = false := by
    rw [Bool.eq_false_iff, ne_eq, hr m _ hfound, hhistory]
    intro hresolves
    rcases hresolves.of_append hpolled with ⟨he, -⟩ | hresolves
    · cases he
    · exact hunresolved hresolves
  subst resolved
  exact ⟨_, congrArg some ((poll_of_idle hfound (hstatus ▸ hterminal)).trans (by rw [hstatus]))⟩

theorem wakesNext (hs : s.bus.Coherent) (hears : s.Hears) (hr : s.Remembers) {c : Completion}
    (hc : s.completions[m]? = some c) : s.WakesNext m c.request := by
  intro limit s₁ ms replies s₂ hpoll hrun halone later t status between hhistory ht hbetween
  have hmove : s.move (.call limit (.poll m)) = some (.unresolved, s₁) := hpoll
  have hs₁ := coherent_move hmove hs
  have hears₁ := hears.move hmove
  have hr₁ := hr.move hs hears hmove
  have hs₂ := coherent_run hrun hs₁
  obtain ⟨hc₁, hpending₁, hpoller₁⟩ := unresolved_poll hs hc hpoll
  have hawaited₁ : s₁.completions[m]?.map Completion.request = some c.request := by
    rw [hc₁, Option.map_some]
  have hawaited₂ : s₂.completions[m]?.map Completion.request = some c.request :=
    (keeps_run hrun).awaited_getElem? hawaited₁
  have hunresolved₁ : ¬ History.Resolves c.request m s₁.bus.history := by
    rw [← hr₁ m _ hc₁]
    exact Bool.false_ne_true
  have hpoller := poller_of_alone hrun halone hhistory hpoller₁
  have hwoken : History.wakings c.request m (.retired t status :: (between ++ s₁.bus.history)) =
      s₁.bus.wakes m + 1 := by
    rw [wakes_eq_wakings hs₁ hears₁ hawaited₁]
    exact History.wakings_retired ht hbetween hpoller
  have hlawful : History.Lawful (later ++ .retired t status :: (between ++ s₁.bus.history)) :=
    hhistory ▸ hs₂.lawful
  obtain ⟨-, -, -, hterminal⟩ := hlawful.writesOnce.retired later t status _ rfl
  refine ⟨hterminal, hwoken, ?_, fun haccepted hpolled => ?_⟩
  · rw [wakes_eq_wakings hs₂ (hears_run hrun hears₁) hawaited₂, hhistory]
    exact Nat.lt_of_lt_of_le (by rw [hwoken]; exact Nat.lt_succ_self _)
      (History.wakings_le_append later _)
  · have hbefore : ¬ History.Resolves c.request m (between ++ s₁.bus.history) := fun hresolves =>
      hunresolved₁ (hresolves.of_append_pending hpending₁ hbetween)
    exact told_of_retired hs₂ (remembers_run hrun hs₁ hears₁ hr₁) hawaited₂ hhistory ht hbefore
      haccepted hpolled

/-- In every run a poll is told a status when the request is not pending, and what it is. The wakes
of a completion are the retirements that found it to be the last to have polled its request. From
there on each act wakes it if it is such a retirement, and not otherwise, so that it is woken
by the retirement that it waits for. -/
theorem woken_at_retirement {platform : σ} {config : Config} {xs : List Expander}
    {ms : List (Move σ)} {replies : List Reply}
    (h : (create platform config xs).run ms = some (replies, s)) {c : Completion}
    (hc : s.completions[m]? = some c) :
    (c.resolved = false → ∀ limit, ∃ s', s.perform limit (.poll m) =
        some (if (s.bus.requests c.request).status = .pending then .unresolved
          else .status (s.bus.requests c.request).status, s')) ∧
      (c.resolved = true → ∀ limit, s.perform limit (.poll m) = some (.finished, s)) ∧
      (c.resolved = true ↔ ∃ p ∈ (create platform config xs).turns ms, p.Tells m) ∧
      History.poller c.request s.bus.history =
        (((create platform config xs).turns ms).filterMap (Turn.polled? c.request)).getLast? ∧
      s.bus.wakes m = History.wakings c.request m s.bus.history ∧
      (∀ as b a b', s.bus.Path as b → (∀ r, .poll r m ∈ as → r = c.request) → b.act a = .ok b' →
        b'.wakes m = b.wakes m +
          if b.retires a c.request ∧ History.poller c.request b.history = some m then 1 else 0) ∧
      s.WakesNext m c.request := by
  have hcreated := Bus.coherent_create platform config
  have hs : s.bus.Coherent := coherent_run h hcreated
  have hears₀ : (create platform config xs).Hears := hears_create platform config xs
  have hr₀ : (create platform config xs).Remembers := fun m c hm => by cases hm
  have hears : s.Hears := hears_run h hears₀
  have hr : s.Remembers := remembers_run h hcreated hears₀ hr₀
  have hawaited : s.completions[m]?.map Completion.request = some c.request := by
    rw [hc, Option.map_some]
  refine ⟨fun hresolved limit => ?_, fun hresolved limit => ?_, ?_, ?_, ?_, ?_,
    wakesNext hs hears hr hc⟩
  · obtain ⟨r, resolved⟩ := c
    subst hresolved
    split
    · next hpending => exact ⟨_, congrArg some (poll_of_pending hc hpending)⟩
    · next hidle => exact ⟨_, congrArg some (poll_of_idle hc hidle)⟩
  · obtain ⟨r, resolved⟩ := c
    subst hresolved
    exact congrArg some (poll_of_resolved hc)
  · have hresolved := resolved_run h m
    rw [hc, Option.map_some, Option.some.injEq] at hresolved
    rw [hresolved]
    exact or_iff_right (fun hnone => by cases hnone)
  · rw [poller_run h]
    exact Option.or_none
  · exact wakes_eq_wakings hs hears hawaited
  · intro as b a b' hpath has ha
    refine (hpath.coherent hs).wakes_act ha fun r hmem => ?_
    rcases hpath.polled hmem with hmem | hmem
    · exact hears.eq_of_polled hawaited hmem
    · exact has r hmem

def contendingMoves : List (Move Bench) :=
  [.call 0 .bringUp, .call 0 (.setWrite 1 0x20 [1]), .call 0 (.submit 1), .call 0 (.complete 1),
    .call 0 (.complete 1), .call 0 (.poll 0)]

theorem woken_at_retirement_contending :
    ∃ replies s s₁ s₂ s₃, (create (Bench.create 0 0) Config.standard []).run contendingMoves =
        some (replies, s) ∧
      s.perform 0 (.poll 1) = some (.unresolved, s₁) ∧ s₁.perform 0 .handleEvent = some (.done, s₂) ∧
      s₁.bus.wakes 1 < s₂.bus.wakes 1 ∧ s₂.perform 0 (.poll 1) = some (.status .ok, s₃) := by
  have hrun : ∃ replies s s₁ s₂ c t status e,
      (create (Bench.create 0 0) Config.standard []).run contendingMoves = some (replies, s) ∧
      s.completions[1]? = some c ∧ s.perform 0 (.poll 1) = some (.unresolved, s₁) ∧
      s₁.perform 0 .handleEvent = some (.done, s₂) ∧
      s₁.run [.call 0 .handleEvent] = some ([.done], s₂) ∧
      s₁.turns [.call 0 .handleEvent] = [⟨s₁, .call 0 .handleEvent, .done, s₂⟩] ∧
      s₂.bus.history = [] ++ .retired t status :: ([e] ++ s₁.bus.history) ∧
      t.request = c.request ∧ e.retired? = none ∧ status = .ok :=
    ⟨_, _, _, _, _, _, _, _, rfl, rfl, rfl, rfl, rfl, rfl, rfl, rfl, rfl, rfl⟩
  obtain ⟨replies, s, s₁, s₂, c, t, status, e, hrun, hc, hpoll, hevent, hevents, hturns, hhistory,
    ht, he, rfl⟩ := hrun
  obtain ⟨-, -, -, -, -, -, hwakes⟩ := woken_at_retirement hrun hc
  have halone : ∀ p ∈ s₁.turns [.call 0 .handleEvent], ∀ l, p.polled? c.request = some l → l = 1 := by
    rw [hturns]
    intro p hp l hpolled
    obtain rfl := List.mem_singleton.1 hp
    cases hpolled
  have hbetween : ∀ e' ∈ [e], e'.retired? ≠ some c.request := by
    intro e' he'
    obtain rfl := List.mem_singleton.1 he'
    simp [he]
  obtain ⟨-, -, hwoken, htold⟩ :=
    hwakes 0 s₁ _ _ s₂ hpoll hevents halone [] t .ok [e] hhistory ht hbetween
  obtain ⟨s₃, htold⟩ := htold List.not_mem_nil List.not_mem_nil 0
  exact ⟨replies, s, s₁, s₂, s₃, hrun, hpoll, hevent, hwoken, htold⟩

end System

end SharedBus
