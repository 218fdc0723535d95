import SharedBus.Proofs.CallActs

/-!
# Stamps

The transfer in flight carries a stamp, the reading of the clock that was made right after the
platform had begun it. Later events advance the transfer and leave the stamp as it is, so on every
path to a transfer in flight there is an act that began it, and nothing has been begun since.
-/

namespace SharedBus.Bus

variable {σ : Type} [Platform σ] {b b' b₁ : Bus σ} {t : Transfer}

/-- From `b` on the platform has begun `u` and then shown the time `now`, and nothing has been done
to it since. -/
def Begins (b b' : Bus σ) (u : Transfer) (now : Ticks) : Prop :=
  ∃ notes before p, b'.history = notes ++ .begun u :: (before ++ b.history) ∧
    (∀ e ∈ notes, e.onPlatform = false) ∧ Undergoes b.platform before p ∧
    Platform.now (Platform.start u p) = (now, b'.platform)

/-- On the path from `b` to `b'` an act began `u` when the clock showed `now`, and no act has begun
anything since. -/
def BegunOn (b : Bus σ) (as : List (Act σ)) (b' : Bus σ) (u : Transfer) (now : Ticks) : Prop :=
  ∃ front a back b₁ b₂ since, as = front ++ a :: back ∧ b.Path front b₁ ∧ b₁.act a = .ok b₂ ∧
    b₂.Path back b' ∧ b₁.Begins b₂ u now ∧ b'.history = since ++ b₂.history ∧
    ∀ e ∈ since, e.begun? = none

theorem begins_startNext (hpast : Records b b₁) (hfree : b₁.active = none)
    (ht : b₁.startNext.active = some t) :
    ∃ r c now, b.Begins b₁.startNext (.ofCommand r c) now ∧
      t = (Transfer.ofCommand r c).stamp now := by
  obtain ⟨before, hhistory, hpast⟩ := hpast
  cases hhead : b₁.queue.head with
  | none =>
    rw [b₁.startNext_of_empty hhead] at ht
    cases hfree.symm.trans ht
  | some r =>
    rw [b₁.startNext_of_waiting hfree hhead] at ht ⊢
    refine ⟨r, (b₁.requests r).command, _, ⟨[], before, b₁.platform, ?_, by simp, hpast, rfl⟩,
      (Option.some.inj ht).symm⟩
    exact congrArg (List.cons _) hhistory

theorem Begins.note {u : Transfer} {now : Ticks} (h : b.Begins b₁ u now) {e : Event}
    (he : e.onPlatform = false) (hhistory : b'.history = e :: b₁.history)
    (hplatform : b'.platform = b₁.platform) : b.Begins b' u now := by
  obtain ⟨notes, before, p, hnotes, hquiet, hpast, hnow⟩ := h
  refine ⟨e :: notes, before, p, by rw [hhistory, hnotes]; rfl,
    List.forall_mem_cons.2 ⟨he, hquiet⟩, hpast, by rw [hnow, hplatform]⟩

/-- What is in flight after an act was in flight before it and has been advanced, or was begun by
the act and stamped right then. -/
theorem Coherent.active_act (h : b.Coherent) {a : Act σ} (ha : b.act a = .ok b')
    (ht : b'.active = some t) :
    (∃ u actions, b.active = some u ∧ t = u.advance actions ∧ ∀ e ∈ b.entries a, e.begun? = none) ∨
      ∃ r c now, b.Begins b' (.ofCommand r c) now ∧ t = (Transfer.ofCommand r c).stamp now := by
  have hkept {es : History} (hactive : b'.active = b.active) (hes : ∀ e ∈ es, e.begun? = none) :
      ∃ u actions, b.active = some u ∧ t = u.advance actions ∧ ∀ e ∈ es, e.begun? = none :=
    ⟨t, [], hactive ▸ ht, rfl, hes⟩
  cases a with
  | shift | setTimeout =>
    cases ha
    exact .inl (hkept rfl (by simp [entries]))
  | setClock | poll =>
    cases ha
    exact .inl (hkept rfl (by simp [entries, Event.begun?]))
  | shutDown =>
    obtain ⟨-, rfl⟩ := act_shutDown ha
    exact .inl (hkept rfl (by simp [entries, Event.begun?]))
  | configure r c =>
    obtain ⟨-, rfl⟩ := act_configure ha
    exact .inl (hkept rfl (by simp [entries, Event.begun?]))
  | bringUp =>
    cases ha
    cases ht
  | submit r =>
    obtain ⟨-, rfl⟩ := act_submit ha
    have haccepted : Records b (b.accept r) := .of_note (e := .accepted r) rfl rfl rfl
    cases hfree : b.active with
    | none => exact .inr (begins_startNext haccepted hfree ht)
    | some u =>
      have hbehind : b.queue.toList ≠ [] := h.toList_ne_nil hfree
      have hbusy : (b.accept r).active ≠ none := by
        change b.active ≠ none
        simp [hfree]
      have hsame : (b.accept r).startNext.active = b.active := by
        rw [startNext_of_active _ hbusy]
        rfl
      have hnone : ∀ e ∈ b.entries (.submit r), e.begun? = none := by
        rw [entries, if_neg hbehind]
        simp [beginning, Event.begun?]
      rw [← hfree]
      exact .inl (hkept hsame hnone)
  | handleEvent =>
    cases ha
    cases hu : b.active with
    | none =>
      rw [b.handleEvent_of_free hu, hu] at ht
      cases ht
    | some u =>
      have hserviced : Records b (b.serviced u) := ⟨[_], rfl, .serviced (.nil _) u⟩
      rw [b.handleEvent_of_active hu] at ht ⊢
      by_cases hs : (u.advance (b.eventActions u)).status = .pending
      · rw [if_pos hs] at ht
        refine .inl ⟨u, b.eventActions u, rfl, (Option.some.inj ht).symm, ?_⟩
        simp [entries, hu, hs, Event.begun?]
      · rw [if_neg hs] at ht ⊢
        exact .inr (begins_startNext (hserviced.trans (records_retireActive _ _))
          (active_retireActive ..) ht)
  | checkTimeout =>
    cases ha
    cases ho : b.overdue? with
    | none =>
      have hactive : b.checkTimeout.active = b.active := by
        rcases checkTimeout_of_in_time ho with he | he <;> rw [he]
        rfl
      exact .inl (hkept hactive (by simp [entries, ho]))
    | some u =>
      have hreclaimed : Records b b.readClock.2.reclaimed :=
        (b.records_readClock.trans (records_retireActive _ _)).trans
          ⟨[_, _, _], rfl, .clockSet (.reset (.closed (.nil _))) _⟩
      rw [checkTimeout_of_overdue ho] at ht ⊢
      obtain ⟨r, c, now, hbegins, heq⟩ := begins_startNext hreclaimed (active_reclaimed _) ht
      exact .inr ⟨r, c, now, hbegins.note (e := .recovered) rfl rfl rfl, heq⟩

/-- What is in flight at the end of a path was so at its start, or was begun on the path. -/
theorem Path.active {as : List (Act σ)} (hpath : Path b as b') (h : b.Coherent)
    (ht : b'.active = some t) :
    (∃ u actions since, b.active = some u ∧ t = u.advance actions ∧
        b'.history = since ++ b.history ∧ ∀ e ∈ since, e.begun? = none) ∨
      ∃ r c now actions, b.BegunOn as b' (.ofCommand r c) now ∧
        t = ((Transfer.ofCommand r c).stamp now).advance actions := by
  induction hpath with
  | nil b => exact .inl ⟨t, [], [], ht, rfl, rfl, by simp⟩
  | @cons b b₁ b' a as head tail ih =>
    have hhistory := h.history_act head
    have hrest := ih (h.act head) ht
    rcases hrest with
      ⟨u, actions, since, hu, rfl, hsince, hquiet⟩ | ⟨r, c, now, actions, hbegun, rfl⟩
    · have hfirst := h.active_act head hu
      rcases hfirst with ⟨v, earlier, hv, rfl, hnone⟩ | ⟨r, c, now, hbegins, rfl⟩
      · refine .inl ⟨v, earlier ++ actions, since ++ b.entries a, hv, ?_, ?_, ?_⟩
        · rw [Transfer.advance_append]
        · rw [hsince, hhistory, List.append_assoc]
        · exact List.forall_mem_append.2 ⟨hquiet, hnone⟩
      · exact .inr ⟨r, c, now, actions,
          ⟨[], a, as, b, b₁, since, rfl, .nil b, head, tail, hbegins, hsince, hquiet⟩, rfl⟩
    · obtain ⟨front, a', back, b₂, b₃, since, rfl, hfront, hact, hback, hrest⟩ := hbegun
      exact .inr ⟨r, c, now, actions,
        ⟨a :: front, a', back, b₂, b₃, since, rfl, .cons head hfront, hact, hback, hrest⟩, rfl⟩

/-- On a bus that was created, what is in flight has been begun, and has carried the time of that
since. -/
theorem Path.stamped {platform : σ} {config : Config} {as : List (Act σ)}
    (hpath : (Bus.create platform config).Path as b) (ht : b.active = some t) :
    ∃ r c now actions, (Bus.create platform config).BegunOn as b (.ofCommand r c) now ∧
      t = ((Transfer.ofCommand r c).stamp now).advance actions := by
  rcases hpath.active (coherent_create platform config) ht with ⟨u, -, -, hu, -⟩ | hbegun
  · cases hu
  · exact hbegun

end SharedBus.Bus
