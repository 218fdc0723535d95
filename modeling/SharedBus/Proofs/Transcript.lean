import SharedBus.Proofs.Waiting

/-!
# What acts enter

What an act enters in the history depends on the bus before it alone. A hardware event
enters the service and, when this ends the transfer, its retirement and the beginning of
the next one; a timeout check that finds the transfer overdue its retirement, the reset
of the hardware and the beginning of the next one. The calls entered are the calls made:
the platform has been through them, in this order, and through readings of the clock.
-/

namespace SharedBus

def Event.onPlatform : Event → Bool
  | .reset | .clockSet _ | .closed | .begun _ | .serviced .. => true
  | .broughtUp | .shutDown | .configured .. | .accepted _ | .retired .. | .recovered | .polled .. =>
    false

def History.calls (h : History) : History := h.filter Event.onPlatform

theorem History.calls_append (added h : History) : calls (added ++ h) = calls added ++ calls h :=
  List.filter_append ..

/-- `p'` is what the calls in the history and readings of the clock make of `p`. -/
inductive Undergoes {σ : Type} [Platform σ] : σ → History → σ → Prop
  | nil (p : σ) : Undergoes p [] p
  | reset {p p' : σ} {h : History} (past : Undergoes p h p') :
      Undergoes p (.reset :: h) (Platform.reset p')
  | clockSet {p p' : σ} {h : History} (past : Undergoes p h p') (hz : Nat) :
      Undergoes p (.clockSet hz :: h) (Platform.setClock hz p')
  | closed {p p' : σ} {h : History} (past : Undergoes p h p') :
      Undergoes p (.closed :: h) (Platform.close p')
  | begun {p p' : σ} {h : History} (past : Undergoes p h p') (t : Transfer) :
      Undergoes p (.begun t :: h) (Platform.start t p')
  | serviced {p p' : σ} {h : History} (past : Undergoes p h p') (t : Transfer) :
      Undergoes p
        (.serviced t (Platform.advance t p').1 (t.advance (Platform.advance t p').1) :: h)
        (Platform.advance t p').2
  | reading {p p' : σ} {h : History} (past : Undergoes p h p') :
      Undergoes p h (Platform.now p').2
  | note {p p' : σ} {h : History} (past : Undergoes p h p') {e : Event}
      (he : e.onPlatform = false) : Undergoes p (e :: h) p'

theorem Undergoes.trans {σ : Type} [Platform σ] {p p₁ p₂ : σ} {es es' : History}
    (h : Undergoes p es p₁) (h' : Undergoes p₁ es' p₂) : Undergoes p (es' ++ es) p₂ := by
  induction h' with
  | nil => exact h
  | reset _ ih => exact ih.reset
  | clockSet _ hz ih => exact ih.clockSet hz
  | closed _ ih => exact ih.closed
  | begun _ t ih => exact ih.begun t
  | serviced _ t ih => exact ih.serviced t
  | reading _ ih => exact ih.reading
  | note _ he ih => exact ih.note he

namespace Bus

variable {σ : Type} {b b' : Bus σ} {t : Transfer}

def beginning (b : Bus σ) (rs : List RequestId) : History :=
  (rs.head?.map fun r => .begun (b.transferFor r)).toList

theorem mem_beginning {rs : List RequestId} {e : Event} (he : e ∈ b.beginning rs) :
    ∃ r, rs.head? = some r ∧ e = .begun (b.transferFor r) := by
  rw [beginning, Option.mem_toList, Option.map_eq_some_iff] at he
  obtain ⟨r, hr, rfl⟩ := he
  exact ⟨r, hr, rfl⟩

theorem not_mem_beginning {e : Event} (he : e.begun? = none) (rs : List RequestId) :
    e ∉ b.beginning rs := by
  intro hmem
  obtain ⟨r, -, rfl⟩ := mem_beginning hmem
  cases he

variable [Platform σ]

/-- The transfer that has been in flight for too long by the next reading of the clock. -/
def overdue? (b : Bus σ) : Option Transfer :=
  b.active.filter fun t =>
    b.config.timeout ≠ 0 ∧ b.config.timeout < b.readClock.1.since t.startedAt

def entries (b : Bus σ) : Act σ → History
  | .handleEvent => match b.active with
      | none => []
      | some t =>
        let t' := t.advance (b.eventActions t)
        let served := Event.serviced t (b.eventActions t) t'
        if t'.status = .pending then [served]
        else b.beginning b.queue.toList.tail ++ [.retired t' t'.status, served]
  | .checkTimeout => match b.overdue? with
      | none => []
      | some t => .recovered :: (b.beginning b.queue.toList.tail ++
          [.clockSet b.config.clock, .reset, .closed, .retired t .timeout])
  | .bringUp => [.clockSet b.config.clock, .reset, .broughtUp]
  | .shutDown => [.shutDown, .closed]
  | .setClock hz => [.clockSet hz]
  | .configure r c => [.configured r c]
  | .submit r => b.beginning (if b.queue.toList = [] then [r] else []) ++ [.accepted r]
  | .poll r l => [.polled r l]
  | .shift _ | .setTimeout _ => []

/-! ### Beginning -/

omit [Platform σ] in
theorem beginning_congr (h : ∀ r, (b'.requests r).command = (b.requests r).command)
    (rs : List RequestId) : b'.beginning rs = b.beginning rs := by
  simp only [beginning, transferFor, h]

theorem history_startNext_of_free (h : b.Accords) (hfree : b.active = none) :
    b.startNext.history = b.beginning b.queue.toList ++ b.history := by
  cases hhead : b.queue.head with
  | none =>
    rw [b.startNext_of_empty hhead, h.toList_eq_nil_iff.2 hhead]
    rfl
  | some r =>
    rw [b.startNext_of_waiting hfree hhead, beginning, h.head?_toList, hhead]
    rfl

omit [Platform σ] in
theorem command_retireActive (b : Bus σ) (status : Option Status) (r : RequestId) :
    ((b.retireActive status).requests r).command = (b.requests r).command := by
  cases ht : b.active with
  | none => rw [b.retireActive_of_free ht]
  | some t =>
    rw [b.retireActive_of_active ht]
    by_cases hr : r = t.request
    · simp [hr, Request.retire]
    · simp [hr]

/-! ### Each act -/

theorem overdue?_eq_some_iff : b.overdue? = some t ↔ b.active = some t ∧
    b.config.timeout ≠ 0 ∧ b.config.timeout < b.readClock.1.since t.startedAt := by
  simp [overdue?, Option.filter_eq_some_iff]

theorem overdue?_eq_none_iff : b.overdue? = none ↔ ∀ t, b.active = some t →
    b.config.timeout ≠ 0 → b.readClock.1.since t.startedAt ≤ b.config.timeout := by
  simp [overdue?, Option.filter_eq_none_iff]

theorem checkTimeout_of_overdue (h : b.overdue? = some t) :
    b.checkTimeout = b.readClock.2.recover := by
  obtain ⟨ht, hlimit, hlate⟩ := overdue?_eq_some_iff.1 h
  rcases b.checkTimeout_cases with ⟨hzero, -⟩ | ⟨-, -, hintime⟩ | ⟨_, -, -, -, he⟩
  · exact absurd hzero hlimit
  · exact absurd hlate (Nat.not_lt_of_le (hintime t ht))
  · exact he

theorem checkTimeout_of_in_time (h : b.overdue? = none) :
    b.checkTimeout = b ∨ b.checkTimeout = b.readClock.2 := by
  rcases b.checkTimeout_cases with ⟨-, he⟩ | ⟨-, he, -⟩ | ⟨t, hlimit, ht, hlate, -⟩
  · exact .inl he
  · exact .inr he
  · exact absurd hlate (Nat.not_lt_of_le (overdue?_eq_none_iff.1 h t ht hlimit))

/-- The timeout check reads the clock unless there is no limit. -/
theorem checkTimeout_eq (b : Bus σ) : b.checkTimeout =
    if b.config.timeout = 0 then b
    else if b.overdue? = none then b.readClock.2 else b.readClock.2.recover := by
  rcases b.checkTimeout_cases with ⟨hzero, he⟩ | ⟨hlimit, he, hintime⟩ | ⟨t, hlimit, ht, hlate, he⟩
  · rw [he, if_pos hzero]
  · rw [he, if_neg hlimit, if_pos (overdue?_eq_none_iff.2 fun t ht _ => hintime t ht)]
  · have hoverdue := overdue?_eq_some_iff.2 ⟨ht, hlimit, hlate⟩
    rw [he, if_neg hlimit, if_neg (by simp [hoverdue])]

namespace Coherent

theorem history_handleEvent (h : b.Coherent) :
    b.handleEvent.history = b.entries .handleEvent ++ b.history := by
  cases ht : b.active with
  | none =>
    rw [b.handleEvent_of_free ht, entries, ht]
    rfl
  | some t =>
    have hserviced := h.toAccords.serviced ht (h.settled t ht)
    simp only [b.handleEvent_of_active ht, entries, ht]
    by_cases hs : (t.advance (b.eventActions t)).status = .pending
    · rw [if_pos hs, if_pos hs]
      rfl
    · have hretired := hserviced.retireActive rfl (.inl ⟨hs, rfl⟩)
      have hqueue : ((b.serviced t).retireActive none).queue.toList = b.queue.toList.tail :=
        hserviced.toList_retireActive rfl none
      have hcommand := (b.serviced t).command_retireActive none
      rw [if_neg hs, if_neg hs, history_startNext_of_free hretired (active_retireActive ..), hqueue,
        beginning_congr hcommand, (b.serviced t).retireActive_of_active rfl, List.append_assoc]
      rfl

/-- Once the transfer in flight is given up, the rest of the queue waits. -/
theorem accords_reclaimed (h : b.Coherent) (ht : b.active = some t) :
    b.reclaimed.Accords ∧ b.reclaimed.queue.toList = b.queue.toList.tail := by
  have hretired := h.toAccords.retireActive ht (.inr ⟨h.settled t ht, rfl⟩)
  have hfree := b.active_reclaimed
  refine ⟨((hretired.closePlatform hfree).resetPlatform hfree).applyClock fun u hu => ?_,
    h.toList_retireActive ht (some .timeout)⟩
  cases hfree.symm.trans hu

theorem history_recover (h : b.Coherent) (ht : b.active = some t) :
    b.recover.history = .recovered :: (b.beginning b.queue.toList.tail ++
      .clockSet b.config.clock :: .reset :: .closed :: .retired t .timeout :: b.history) := by
  obtain ⟨hreclaimed, hqueue⟩ := h.accords_reclaimed ht
  have hcommand : ∀ r, (b.reclaimed.requests r).command = (b.requests r).command :=
    b.command_retireActive (some .timeout)
  have hstarted := history_startNext_of_free hreclaimed b.active_reclaimed
  rw [hqueue, history_reclaimed ht, beginning_congr hcommand] at hstarted
  exact congrArg (List.cons Event.recovered) hstarted

theorem history_checkTimeout (h : b.Coherent) :
    b.checkTimeout.history = b.entries .checkTimeout ++ b.history := by
  cases ho : b.overdue? with
  | none =>
    simp only [entries, ho, List.nil_append]
    rcases checkTimeout_of_in_time ho with he | he <;> rw [he]
    rfl
  | some t =>
    have ht := (overdue?_eq_some_iff.1 ho).1
    have hrecover := h.readClock.history_recover ht
    simp only [entries, ho, checkTimeout_of_overdue ho, List.cons_append, List.append_assoc]
    exact hrecover

theorem history_submit (h : b.Coherent) {r : RequestId} (hr : (b.requests r).status ≠ .pending) :
    (b.accept r).startNext.history = b.entries (.submit r) ++ b.history := by
  have haccepted := h.accords_accept hr
  have hcommand : ∀ q, ((b.accept r).requests q).command = (b.requests q).command := by
    intro q
    by_cases hq : q = r
    · simp [accept, note, setRequest, hq, Request.armed]
    · simp [accept, note, setRequest, hq]
  have hqueue := h.toList_accept hr
  rw [entries, List.append_assoc]
  cases hfree : b.active with
  | none =>
    have hempty : b.queue.toList = [] := h.toList_eq_nil_iff.2 (h.served hfree)
    rw [hempty, List.nil_append] at hqueue
    rw [history_startNext_of_free haccepted hfree, hqueue, if_pos hempty, beginning_congr hcommand]
    rfl
  | some t =>
    have hactive : (b.accept r).active ≠ none := by
      change b.active ≠ none
      rw [hfree]
      exact Option.some_ne_none t
    have hqueued := h.toList_ne_nil hfree
    rw [startNext_of_active _ hactive, if_neg hqueued]
    rfl

/-- What an act enters depends on the bus before it as `entries` says. -/
theorem history_act (h : b.Coherent) {a : Act σ} (ha : b.act a = .ok b') :
    b'.history = b.entries a ++ b.history := by
  cases a with
  | shift | bringUp | setClock | setTimeout | poll =>
    cases ha
    rfl
  | handleEvent =>
    cases ha
    exact h.history_handleEvent
  | checkTimeout =>
    cases ha
    exact h.history_checkTimeout
  | shutDown =>
    obtain ⟨-, rfl⟩ := act_shutDown ha
    rfl
  | configure r c =>
    obtain ⟨-, rfl⟩ := act_configure ha
    rfl
  | submit r =>
    obtain ⟨hr, rfl⟩ := act_submit ha
    exact h.history_submit hr

end Coherent

/-! ### What becomes of the platform -/

/-- What has been added to the history since `b` is what the platform has been through. -/
def Records (b b' : Bus σ) : Prop :=
  ∃ added, b'.history = added ++ b.history ∧ Undergoes b.platform added b'.platform

theorem Records.trans {b₁ b₂ b₃ : Bus σ} (h : Records b₁ b₂) (h' : Records b₂ b₃) :
    Records b₁ b₃ := by
  obtain ⟨added, hhistory, hpast⟩ := h
  obtain ⟨added', hhistory', hpast'⟩ := h'
  exact ⟨added' ++ added, by rw [hhistory', hhistory, List.append_assoc], hpast.trans hpast'⟩

theorem Records.of_eq (hhistory : b'.history = b.history) (hplatform : b'.platform = b.platform) :
    Records b b' :=
  ⟨[], hhistory, by rw [hplatform]; exact .nil _⟩

theorem Records.of_note {e : Event} (he : e.onPlatform = false)
    (hhistory : b'.history = e :: b.history) (hplatform : b'.platform = b.platform) :
    Records b b' :=
  ⟨[e], hhistory, by rw [hplatform]; exact .note (.nil _) he⟩

theorem records_readClock (b : Bus σ) : Records b b.readClock.2 := ⟨[], rfl, .reading (.nil _)⟩

theorem records_startNext (b : Bus σ) : Records b b.startNext := by
  rcases b.startNext_cases with he | ⟨r, hfree, hhead⟩
  · rw [he]
    exact .of_eq rfl rfl
  · rw [b.startNext_of_waiting hfree hhead]
    exact ⟨[_], rfl, .reading (.begun (.nil _) _)⟩

theorem records_retireActive (b : Bus σ) (status : Option Status) :
    Records b (b.retireActive status) := by
  cases ht : b.active with
  | none =>
    rw [b.retireActive_of_free ht]
    exact .of_eq rfl rfl
  | some t =>
    rw [b.retireActive_of_active ht]
    exact .of_note (e := .retired t (status.getD t.status)) rfl rfl rfl

theorem records_handleEvent (b : Bus σ) : Records b b.handleEvent := by
  cases ht : b.active with
  | none =>
    rw [b.handleEvent_of_free ht]
    exact .of_eq rfl rfl
  | some t =>
    have hserviced : Records b (b.serviced t) := ⟨[_], rfl, .serviced (.nil _) t⟩
    rw [b.handleEvent_of_active ht]
    split
    · exact hserviced
    · exact (hserviced.trans (records_retireActive _ _)).trans (records_startNext _)

theorem records_recover (b : Bus σ) : Records b b.recover := by
  have hreset : Records (b.retireActive (some .timeout)) b.reclaimed :=
    ⟨[_, _, _], rfl, .clockSet (.reset (.closed (.nil _))) _⟩
  have hstarted := ((b.records_retireActive _).trans hreset).trans (records_startNext _)
  exact hstarted.trans (.of_note (e := .recovered) rfl rfl rfl)

theorem records_checkTimeout (b : Bus σ) : Records b b.checkTimeout := by
  rcases b.checkTimeout_cases with ⟨-, he⟩ | ⟨-, he, -⟩ | ⟨t, -, -, -, he⟩
  · rw [he]
    exact .of_eq rfl rfl
  · rw [he]
    exact b.records_readClock
  · rw [he]
    exact b.records_readClock.trans (records_recover _)

theorem records_act {a : Act σ} (ha : b.act a = .ok b') (hshift : ∀ p, a ≠ .shift p) :
    Records b b' := by
  cases a with
  | shift p => exact absurd rfl (hshift p)
  | handleEvent =>
    cases ha
    exact b.records_handleEvent
  | checkTimeout =>
    cases ha
    exact b.records_checkTimeout
  | bringUp =>
    cases ha
    exact ⟨[_, _, _], rfl, .clockSet (.reset (.note (.nil _) rfl)) _⟩
  | shutDown =>
    obtain ⟨-, rfl⟩ := act_shutDown ha
    exact ⟨[_, _], rfl, .note (.closed (.nil _)) rfl⟩
  | setClock hz =>
    cases ha
    exact ⟨[_], rfl, .clockSet (.nil _) hz⟩
  | setTimeout limit =>
    cases ha
    exact .of_eq rfl rfl
  | configure r c =>
    obtain ⟨-, rfl⟩ := act_configure ha
    exact .of_note (e := .configured r c) rfl rfl rfl
  | submit r =>
    obtain ⟨-, rfl⟩ := act_submit ha
    have haccepted : Records b (b.accept r) := .of_note (e := .accepted r) rfl rfl rfl
    exact haccepted.trans (records_startNext _)
  | poll r l =>
    cases ha
    exact .of_note (e := .polled r l) rfl rfl rfl

/-- The calls that an act enters are those that it makes. -/
theorem Coherent.undergoes_act (h : b.Coherent) {a : Act σ} (ha : b.act a = .ok b')
    (hshift : ∀ p, a ≠ .shift p) : Undergoes b.platform (b.entries a) b'.platform := by
  obtain ⟨added, hhistory, hpast⟩ := records_act ha hshift
  rw [h.history_act ha, List.append_cancel_right_eq] at hhistory
  rwa [hhistory]

end Bus

end SharedBus
