import SharedBus.Proofs.Sending
import SharedBus.Proofs.Transcript

/-!
# The order of calls on the platform

The hardware is shown one transfer at a time, each time as it has left it. It is asked
to begin another one only once it has finished the one before or has been reset, and a
finished transfer is not shown to it again. When it finishes one, the next thing that it
is asked is to begin the transfer of the request that is then first in the queue. It is
closed only while the bus is free, either for good or to be reset at once.
-/

namespace SharedBus

def Event.left? : Event → Option Transfer
  | .serviced _ _ t => some t
  | _ => none

namespace History

/-- What is in flight as far as the calls on the platform tell. -/
def Stands : History → Option Transfer → Prop
  | [], o => o = none
  | .reset :: _, o => o = none
  | .closed :: h, o => o = none ∧ Stands h none
  | .begun t :: _, o => ∃ now, o = some (t.stamp now)
  | .serviced _ _ t :: _, o => o = if t.status = .pending then some t else none
  | _ :: h, o => Stands h o

def Orderly : History → Prop
  | [] => True
  | .begun _ :: h => Stands h none ∧ Orderly h
  | .serviced t _ _ :: h => Stands h (some t) ∧ Orderly h
  | _ :: h => Orderly h

/-- `t` is the transfer begun last, as the event serviced last has left it. If there was none, it
differs from the one begun by its stamp alone. -/
def Continues (h : History) (t : Transfer) : Prop :=
  ∃ steps u before now, h = steps ++ .begun u :: before ∧
    (∀ e ∈ steps, e.begun? = none ∧ e ≠ .reset ∧ e ≠ .closed) ∧
    t.request = u.request ∧ t.command = u.command ∧
    t = (steps.findSome? Event.left?).getD (u.stamp now)

structure Disciplined (h : History) : Prop where
  serviced : ∀ later t actions t' earlier, h = later ++ .serviced t actions t' :: earlier →
    t.status = .pending ∧ t' = t.advance actions ∧ Continues earlier t
  begun : ∀ later u' between u earlier,
    h = later ++ .begun u' :: (between ++ .begun u :: earlier) →
    .reset ∈ between ∨
      ∃ t actions t', .serviced t actions t' ∈ between ∧ t'.status ≠ .pending
  unfinished : ∀ later u between t actions t' earlier,
    h = later ++ .begun u :: (between ++ .serviced t actions t' :: earlier) →
    t'.status = .pending → .broughtUp ∈ between ∨ ∃ e ∈ between, e.retired? = some t.request
  closed : ∀ later earlier, h = later ++ .closed :: earlier → (ledger earlier).flight = none

theorem Orderly.of_append {added h : History} (ho : Orderly (added ++ h)) : Orderly h := by
  induction added with
  | nil => exact ho
  | cons e added ih =>
    cases e with
    | begun | serviced => exact ih ho.2
    | reset | clockSet | closed | broughtUp | shutDown | configured | accepted | retired |
      recovered | polled => exact ih ho

theorem Continues.cons {h : History} {t : Transfer} (ht : Continues h t) {e : Event}
    (he : e.begun? = none ∧ e ≠ .reset ∧ e ≠ .closed) (hleft : e.left? = none) :
    Continues (e :: h) t := by
  obtain ⟨steps, u, before, now, rfl, hsteps, hrequest, hcommand, ht⟩ := ht
  refine ⟨e :: steps, u, before, now, rfl, List.forall_mem_cons.2 ⟨he, hsteps⟩, hrequest,
    hcommand, ?_⟩
  rwa [List.findSome?_cons_of_isNone (by rw [hleft]; rfl)]

theorem Continues.serviced {h : History} {t : Transfer} (ht : Continues h t)
    (actions : List Action) :
    Continues (.serviced t actions (t.advance actions) :: h) (t.advance actions) := by
  obtain ⟨steps, u, before, now, rfl, hsteps, hrequest, hcommand, -⟩ := ht
  refine ⟨.serviced t actions (t.advance actions) :: steps, u, before, now, rfl,
    List.forall_mem_cons.2 ⟨by simp [Event.begun?], hsteps⟩, ?_, ?_, rfl⟩
  · rw [Transfer.request_advance, hrequest]
  · rw [Transfer.command_advance, hcommand]

/-- What is in flight is the transfer begun last. -/
theorem Stands.continues {h : History} (hl : Lawful h) (ho : Orderly h) {t : Transfer}
    (hs : Stands h (some t)) : Continues h t := by
  induction h generalizing t with
  | nil => cases hs
  | cons e h ih =>
    cases e with
    | reset => cases hs
    | closed => cases hs.1
    | begun u =>
      obtain ⟨now, ht⟩ := hs
      obtain rfl := Option.some.inj ht
      exact ⟨[], u, h, now, rfl, by simp, rfl, rfl, rfl⟩
    | serviced v actions v' =>
      obtain ⟨-, -, rfl⟩ := hl.1
      have hcontinues := (ih hl.2 ho.2 ho.1).serviced actions
      have ht : some t = if (v.advance actions).status = .pending then some (v.advance actions)
        else none := hs
      split at ht
      · rwa [Option.some.inj ht]
      · cases ht
    | clockSet | broughtUp | shutDown | configured | accepted | retired | recovered | polled =>
      exact (ih hl.2 ho hs).cons (by simp [Event.begun?]) rfl

/-- When nothing is in flight, the transfer begun last has been finished or the hardware reset. -/
theorem Stands.finished {between earlier : History} {u : Transfer}
    (ho : Orderly (between ++ .begun u :: earlier))
    (hs : Stands (between ++ .begun u :: earlier) none) :
    .reset ∈ between ∨
      ∃ t actions t', .serviced t actions t' ∈ between ∧ t'.status ≠ .pending := by
  induction between with
  | nil =>
    obtain ⟨now, hnow⟩ := hs
    cases hnow
  | cons e between ih =>
    have hlater (hs : Stands (between ++ .begun u :: earlier) none)
        (ho : Orderly (between ++ .begun u :: earlier)) : .reset ∈ e :: between ∨
          ∃ t actions t', .serviced t actions t' ∈ e :: between ∧ t'.status ≠ .pending := by
      rcases ih ho hs with hreset | ⟨t, actions, t', hmem, ht'⟩
      · exact .inl (List.mem_cons_of_mem _ hreset)
      · exact .inr ⟨t, actions, t', List.mem_cons_of_mem _ hmem, ht'⟩
    cases e with
    | reset => exact .inl List.mem_cons_self
    | closed => exact hlater hs.2 ho
    | begun v => exact hlater ho.1 ho.2
    | serviced t actions t' =>
      refine .inr ⟨t, actions, t', List.mem_cons_self, fun hpending => ?_⟩
      have hnone : none = if t'.status = .pending then some t' else none := hs
      rw [if_pos hpending] at hnone
      cases hnone
    | clockSet | broughtUp | shutDown | configured | accepted | retired | recovered | polled =>
      exact hlater hs ho

/-- A transfer stays in flight until it is retired or forgotten. -/
theorem Lawful.in_flight {between earlier : History} {t t' : Transfer} {actions : List Action}
    (hl : Lawful (between ++ .serviced t actions t' :: earlier)) :
    (.broughtUp ∈ between ∨ ∃ e ∈ between, e.retired? = some t.request) ∨
      (ledger (between ++ .serviced t actions t' :: earlier)).flight.map Transfer.request =
        some t.request := by
  induction between with
  | nil =>
    obtain ⟨-, -, rfl⟩ := hl.1
    exact .inr (congrArg some (Transfer.request_advance t actions))
  | cons e between ih =>
    rw [List.cons_append] at hl ⊢
    rcases ih hl.2 with (hup | ⟨e', he', hretired⟩) | hflight
    · exact .inl (.inl (List.mem_cons_of_mem _ hup))
    · exact .inl (.inr ⟨e', List.mem_cons_of_mem _ he', hretired⟩)
    · cases e with
      | broughtUp => exact .inl (.inl List.mem_cons_self)
      | begun u =>
        obtain ⟨hfree, -⟩ := hl.1
        rw [hfree] at hflight
        cases hflight
      | serviced v performed v' =>
        obtain ⟨hv, -, rfl⟩ := hl.1
        rw [hv] at hflight
        have hrequest : (v.advance performed).request = v.request := Transfer.request_advance ..
        exact .inr ((congrArg some hrequest).trans hflight)
      | retired v status =>
        obtain ⟨hv, -⟩ := hl.1
        rw [hv] at hflight
        exact .inl (.inr ⟨_, List.mem_cons_self, hflight⟩)
      | reset | clockSet | closed | shutDown | configured | accepted | recovered | polled =>
        exact .inr hflight

theorem Lawful.disciplined {h : History} (hl : Lawful h) (ho : Orderly h) : Disciplined h where
  serviced later t actions t' earlier hsplit := by
    subst hsplit
    obtain ⟨⟨-, hpending, ht'⟩, hearlier⟩ := hl.of_append
    exact ⟨hpending, ht', ho.of_append.1.continues hearlier ho.of_append.2⟩
  begun later u' between u earlier hsplit := by
    subst hsplit
    exact ho.of_append.1.finished ho.of_append.2
  unfinished later u between t actions t' earlier hsplit _ := by
    subst hsplit
    obtain ⟨⟨hfree, -⟩, hearlier⟩ := hl.of_append
    refine hearlier.in_flight.resolve_right fun hflight => ?_
    rw [hfree] at hflight
    cases hflight
  closed later earlier hsplit := by
    subst hsplit
    exact hl.of_append.1

end History

namespace Bus

variable {σ : Type} {b b' : Bus σ}

structure Ordered (b : Bus σ) : Prop where
  orderly : b.history.Orderly
  stands : b.history.Stands b.active

variable [Platform σ]

namespace Ordered

theorem startNext (h : b.Ordered) : b.startNext.Ordered := by
  rcases b.startNext_cases with he | ⟨r, hfree, hhead⟩
  · rwa [he]
  · have hstands := h.stands
    rw [hfree] at hstands
    rw [b.startNext_of_waiting hfree hhead]
    exact ⟨⟨hstands, h.orderly⟩, _, rfl⟩

theorem handleEvent (h : b.Ordered) : b.handleEvent.Ordered := by
  cases ht : b.active with
  | none => rwa [b.handleEvent_of_free ht]
  | some t =>
    have hstands := h.stands
    rw [ht] at hstands
    have horderly : (b.serviced t).history.Orderly := ⟨hstands, h.orderly⟩
    rw [b.handleEvent_of_active ht]
    by_cases hs : (t.advance (b.eventActions t)).status = .pending
    · rw [if_pos hs]
      exact ⟨horderly, (if_pos hs).symm⟩
    · rw [if_neg hs]
      apply Ordered.startNext
      rw [(b.serviced t).retireActive_of_active rfl]
      exact ⟨horderly, (if_neg hs).symm⟩

theorem recover (h : b.Ordered) : b.recover.Ordered := by
  have horderly : b.reclaimed.history.Orderly := by
    cases ht : b.active with
    | none =>
      rw [reclaimed, b.retireActive_of_free ht]
      exact h.orderly
    | some t =>
      rw [history_reclaimed ht]
      exact h.orderly
  have hstarted := startNext (b := b.reclaimed) ⟨horderly, b.active_reclaimed⟩
  exact ⟨hstarted.orderly, hstarted.stands⟩

theorem checkTimeout (h : b.Ordered) : b.checkTimeout.Ordered := by
  have hread : b.readClock.2.Ordered := ⟨h.orderly, h.stands⟩
  rcases b.checkTimeout_cases with ⟨-, he⟩ | ⟨-, he, -⟩ | ⟨t, -, -, -, he⟩
  · rwa [he]
  · rwa [he]
  · rw [he]
    exact hread.recover

theorem act (h : b.Ordered) (hb : b.Coherent) {a : Act σ} (ha : b.act a = .ok b') :
    b'.Ordered := by
  cases a with
  | shift | setClock | setTimeout | poll =>
    cases ha
    exact ⟨h.orderly, h.stands⟩
  | handleEvent =>
    cases ha
    exact h.handleEvent
  | checkTimeout =>
    cases ha
    exact h.checkTimeout
  | bringUp =>
    cases ha
    exact ⟨h.orderly, rfl⟩
  | shutDown =>
    obtain ⟨hq, rfl⟩ := act_shutDown ha
    have hfree := hb.active_eq_none_of_queued hq
    have hstands := h.stands
    rw [hfree] at hstands
    exact ⟨h.orderly, hfree, hstands⟩
  | configure r c =>
    obtain ⟨-, rfl⟩ := act_configure ha
    exact ⟨h.orderly, h.stands⟩
  | submit r =>
    obtain ⟨-, rfl⟩ := act_submit ha
    have haccepted : (b.accept r).Ordered := ⟨h.orderly, h.stands⟩
    exact haccepted.startNext

end Ordered

/-! ### The calls of one act -/

omit [Platform σ] in
theorem calls_beginning (b : Bus σ) (rs : List RequestId) :
    History.calls (b.beginning rs) = b.beginning rs := by
  rw [beginning]
  cases rs.head? <;> rfl

/-- The next transfer is begun in the same event that finishes the one before. -/
theorem calls_entries_of_serviced {a : Act σ} {t t' : Transfer} {actions : List Action}
    (h : .serviced t actions t' ∈ b.entries a) : a = .handleEvent ∧ b.active = some t ∧
      History.calls (b.entries a) =
        (if t'.status = .pending then [] else b.beginning b.queue.toList.tail) ++
          [.serviced t actions t'] := by
  have hbegun (rs : List RequestId) : .serviced t actions t' ∉ b.beginning rs :=
    not_mem_beginning rfl rs
  cases a with
  | handleEvent =>
    cases ht : b.active with
    | none => simp [entries, ht] at h
    | some u =>
      simp only [entries, ht] at h ⊢
      split at h
      · obtain ⟨rfl, rfl, rfl⟩ := Event.serviced.inj (List.mem_singleton.1 h)
        rename_i hs
        rw [if_pos hs, if_pos hs]
        exact ⟨trivial, rfl, rfl⟩
      · rename_i hs
        obtain ⟨rfl, rfl, rfl⟩ : t = u ∧ actions = b.eventActions u ∧
            t' = u.advance (b.eventActions u) := by simpa [hbegun] using h
        rw [if_neg hs, if_neg hs, History.calls_append, calls_beginning]
        exact ⟨trivial, rfl, rfl⟩
  | checkTimeout =>
    cases ho : b.overdue? with
    | none => simp [entries, ho] at h
    | some u => simp [entries, ho, hbegun] at h
  | submit r => simp [entries, hbegun] at h
  | shift | bringUp | shutDown | setClock | setTimeout | configure | poll => simp [entries] at h

/-- The platform is closed while the bus is free: nothing is queued, or the transfer in flight has
just been retired, and then the platform is reset next. -/
theorem entries_of_closed (hb : b.Coherent) {a : Act σ} (ha : b.act a = .ok b')
    (h : .closed ∈ b.entries a) :
    a = .shutDown ∧ b.active = none ∧ b.queue.toList = [] ∧ b.entries a = [.shutDown, .closed] ∨
      a = .checkTimeout ∧ ∃ t rest, b.active = some t ∧ b.entries a =
        rest ++ [.clockSet b.config.clock, .reset, .closed, .retired t .timeout] := by
  have hbegun (rs : List RequestId) : .closed ∉ b.beginning rs := not_mem_beginning rfl rs
  cases a with
  | shutDown =>
    obtain ⟨hq, -⟩ := act_shutDown ha
    have hempty := hb.toList_eq_nil_iff.2 (hb.queued_eq_zero_iff.1 hq)
    exact .inl ⟨rfl, hb.active_eq_none_of_queued hq, hempty, rfl⟩
  | checkTimeout =>
    cases ho : b.overdue? with
    | none => simp [entries, ho] at h
    | some t =>
      refine .inr ⟨rfl, t, .recovered :: b.beginning b.queue.toList.tail,
        (overdue?_eq_some_iff.1 ho).1, ?_⟩
      simp only [entries, ho, List.cons_append]
  | handleEvent =>
    cases ht : b.active with
    | none => simp [entries, ht] at h
    | some t =>
      simp only [entries, ht] at h
      split at h
      · simp at h
      · simp [hbegun] at h
  | submit r => simp [entries, hbegun] at h
  | shift | bringUp | setClock | setTimeout | configure | poll => simp [entries] at h

end Bus

namespace System

variable {σ : Type} [Platform σ] {s : System σ}

/-- After every run the history is disciplined. From there on any act makes the calls that it
enters: those of an event and those around a closing are as told. -/
theorem called_in_turn {platform : σ} {config : Config} {xs : List Expander}
    {ms : List (Move σ)} {replies : List Reply}
    (h : (create platform config xs).run ms = some (replies, s)) :
    s.bus.history.Disciplined ∧
      ∀ as b a b', s.bus.Path as b → b.act a = .ok b' →
        b'.history = b.entries a ++ b.history ∧
        ((∀ p, a ≠ .shift p) → Undergoes b.platform (b.entries a) b'.platform) ∧
        (∀ t actions t', .serviced t actions t' ∈ b.entries a →
          a = .handleEvent ∧ b.active = some t ∧ History.calls (b.entries a) =
            (if t'.status = .pending then [] else b.beginning b.queue.toList.tail) ++
              [.serviced t actions t']) ∧
        (.closed ∈ b.entries a →
          a = .shutDown ∧ b.active = none ∧ b.queue.toList = [] ∧
            b.entries a = [.shutDown, .closed] ∨
          a = .checkTimeout ∧ ∃ t rest, b.active = some t ∧ b.entries a =
            rest ++ [.clockSet b.config.clock, .reset, .closed, .retired t .timeout]) := by
  have hcreate : (create platform config xs).bus.Coherent := Bus.coherent_create platform config
  have hs : s.bus.Coherent := coherent_run h hcreate
  have ho : s.bus.Ordered :=
    run_keeps h hcreate (fun _ _ _ hb hordered ha => hordered.act hb ha) ⟨trivial, rfl⟩
  refine ⟨hs.lawful.disciplined ho.orderly, fun as b a b' hpath hact => ?_⟩
  have hb : b.Coherent := hpath.coherent hs
  exact ⟨hb.history_act hact, hb.undergoes_act hact, fun _ _ _ => Bus.calls_entries_of_serviced,
    Bus.entries_of_closed hb hact⟩

/-- The write is shown to the hardware for the second time as the first event has left it. -/
theorem called_in_turn_hasty :
    ∃ replies s later t actions t' earlier, (create hastyBench Config.standard []).run
        [.call 0 .bringUp, .call 0 (.write 1 0x48 [1, 2, 3]), .call 0 (.submit 2),
          .call 0 .handleEvent, .call 0 .handleEvent] = some (replies, s) ∧
      s.bus.history = later ++ .serviced t actions t' :: earlier ∧ t'.status = .ok ∧
      t.sent = 2 ∧ History.Continues earlier t := by
  have hrun : ∃ replies s later t actions t' earlier, (create hastyBench Config.standard []).run
        [.call 0 .bringUp, .call 0 (.write 1 0x48 [1, 2, 3]), .call 0 (.submit 2),
          .call 0 .handleEvent, .call 0 .handleEvent] = some (replies, s) ∧
      s.bus.history = [.begun (.ofCommand 2 .blank), later] ++ .serviced t actions t' :: earlier ∧
      t'.status = .ok ∧ t.sent = 2 := ⟨_, _, _, _, _, _, _, rfl, rfl, rfl, rfl⟩
  obtain ⟨replies, s, later, t, actions, t', earlier, hrun, hsplit, hstatus, hsent⟩ := hrun
  obtain ⟨hdisciplined, -⟩ := called_in_turn hrun
  obtain ⟨-, -, hcontinues⟩ := hdisciplined.serviced _ t actions t' earlier hsplit
  exact ⟨replies, s, _, t, actions, t', earlier, hrun, hsplit, hstatus, hsent, hcontinues⟩

end System

end SharedBus
