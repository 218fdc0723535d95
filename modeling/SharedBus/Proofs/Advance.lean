import SharedBus.Transfer

/-!
# What actions do to a transfer

Whatever the hardware does to a transfer, its request, its command and its stamp
stay, and the bytes not yet handed out are the command's data from the next one on.
Its status is the first terminal one among those declared, if there is any.
-/

namespace SharedBus

def Action.declared? : Action → Option Status
  | .complete status => some status
  | .send | .receive _ => none

def Status.firstTerminal? (statuses : List Status) : Option Status :=
  statuses.find? fun s => !s.isPending

theorem Status.ne_pending_of_firstTerminal? {statuses : List Status} {s : Status}
    (h : firstTerminal? statuses = some s) : s ≠ .pending := by
  have hs := List.find?_some h
  simpa using hs

namespace Transfer

def declared (actions : List Action) : List Status := actions.filterMap Action.declared?

/-- All that a single action can do. -/
theorem perform_cases (t : Transfer) (a : Action) :
    (t.perform a).2 = t ∧ (a.declared? = none ∨ t.status ≠ .pending) ∨
    (∃ byte rest, a = .send ∧ t.unsent = byte :: rest ∧
      (t.perform a).2 = { t with sent := t.sent + 1, unsent := rest }) ∨
    (∃ byte received, a = .receive byte ∧ t.unread ≠ 0 ∧ t.received.push? byte = some received ∧
      (t.perform a).2 = { t with received := received }) ∨
    (∃ status, a = .complete status ∧ t.status = .pending ∧
      (t.perform a).2 = { t with status := status }) := by
  cases a with
  | send =>
    cases hu : t.unsent with
    | nil => exact .inl ⟨by simp [perform, send, hu], .inl rfl⟩
    | cons byte rest => exact .inr (.inl ⟨byte, rest, rfl, rfl, by simp [perform, send, hu]⟩)
  | receive byte =>
    by_cases hn : t.unread = 0
    · exact .inl ⟨by simp [perform, receive, hn], .inl rfl⟩
    · cases hp : t.received.push? byte with
      | none => exact .inl ⟨by simp [perform, receive, hn, hp], .inl rfl⟩
      | some received =>
        exact .inr (.inr (.inl ⟨byte, received, rfl, hn, hp, by simp [perform, receive, hn, hp]⟩))
  | complete status =>
    by_cases hs : t.status = .pending
    · exact .inr (.inr (.inr ⟨status, rfl, hs, by simp [perform, complete, hs]⟩))
    · exact .inl ⟨by simp [perform, complete, hs], .inr hs⟩

@[simp] theorem request_perform (t : Transfer) (a : Action) :
    (t.perform a).2.request = t.request := by
  rcases t.perform_cases a with ⟨h, -⟩ | ⟨_, _, -, -, h⟩ | ⟨_, _, -, -, -, h⟩ | ⟨_, -, -, h⟩ <;>
    rw [h]

@[simp] theorem command_perform (t : Transfer) (a : Action) :
    (t.perform a).2.command = t.command := by
  rcases t.perform_cases a with ⟨h, -⟩ | ⟨_, _, -, -, h⟩ | ⟨_, _, -, -, -, h⟩ | ⟨_, -, -, h⟩ <;>
    rw [h]

@[simp] theorem startedAt_perform (t : Transfer) (a : Action) :
    (t.perform a).2.startedAt = t.startedAt := by
  rcases t.perform_cases a with ⟨h, -⟩ | ⟨_, _, -, -, h⟩ | ⟨_, _, -, -, -, h⟩ | ⟨_, -, -, h⟩ <;>
    rw [h]

@[simp] theorem request_advance (t : Transfer) (actions : List Action) :
    (t.advance actions).request = t.request := by
  induction actions generalizing t with
  | nil => rfl
  | cons a actions ih => rw [advance_cons, ih, request_perform]

@[simp] theorem command_advance (t : Transfer) (actions : List Action) :
    (t.advance actions).command = t.command := by
  induction actions generalizing t with
  | nil => rfl
  | cons a actions ih => rw [advance_cons, ih, command_perform]

@[simp] theorem startedAt_advance (t : Transfer) (actions : List Action) :
    (t.advance actions).startedAt = t.startedAt := by
  induction actions generalizing t with
  | nil => rfl
  | cons a actions ih => rw [advance_cons, ih, startedAt_perform]

/-! ### The stamp -/

@[simp] theorem request_stamp (t : Transfer) (now : Ticks) :
    (t.stamp now).request = t.request := rfl

@[simp] theorem command_stamp (t : Transfer) (now : Ticks) :
    (t.stamp now).command = t.command := rfl

@[simp] theorem status_stamp (t : Transfer) (now : Ticks) : (t.stamp now).status = t.status := rfl

@[simp] theorem byteCount_stamp (t : Transfer) (now : Ticks) :
    (t.stamp now).byteCount = t.byteCount := rfl

theorem perform_stamp (t : Transfer) (now : Ticks) (a : Action) :
    (t.stamp now).perform a = ((t.perform a).1, (t.perform a).2.stamp now) := by
  cases a with
  | send => cases h : t.unsent <;> simp [perform, send, stamp, h]
  | receive byte =>
    have hn : (t.stamp now).unread = t.unread := rfl
    have hp : (t.stamp now).received = t.received := rfl
    simp only [perform, receive, hn, hp]
    split
    · rfl
    · cases t.received.push? byte <;> rfl
  | complete status => by_cases h : t.status = .pending <;> simp [perform, complete, stamp, h]

theorem stamp_perform (t : Transfer) (now : Ticks) (a : Action) :
    ((t.stamp now).perform a).2 = (t.perform a).2.stamp now := by rw [perform_stamp]

/-- The clock has no part in what becomes of a transfer. -/
theorem stamp_advance (t : Transfer) (now : Ticks) (actions : List Action) :
    (t.stamp now).advance actions = (t.advance actions).stamp now := by
  induction actions generalizing t with
  | nil => rfl
  | cons a actions ih => rw [advance_cons, advance_cons, stamp_perform, ih]

/-! ### The bytes handed out -/

def InStep (t : Transfer) : Prop := t.unsent = t.command.data.drop t.sent

theorem inStep_ofCommand (r : RequestId) (c : Command) : (ofCommand r c).InStep := rfl

theorem InStep.perform {t : Transfer} (h : t.InStep) (a : Action) : (t.perform a).2.InStep := by
  obtain ⟨he, -⟩ | ⟨byte, rest, -, hu, he⟩ | ⟨_, _, -, -, -, he⟩ | ⟨_, -, -, he⟩ :=
    t.perform_cases a
  · rwa [he]
  · have hdrop : t.command.data.drop (t.sent + 1) = rest := by
      rw [← List.tail_drop, ← h, hu, List.tail_cons]
    rw [he]
    exact hdrop.symm
  · rwa [he]
  · rwa [he]

theorem InStep.advance {t : Transfer} (h : t.InStep) (actions : List Action) :
    (t.advance actions).InStep := by
  induction actions generalizing t with
  | nil => exact h
  | cons a actions ih => exact ih (h.perform a)

/-! ### The outcome -/

theorem status_perform (t : Transfer) (a : Action) :
    (t.perform a).2.status =
      if t.status = .pending then a.declared?.getD .pending else t.status := by
  obtain ⟨he, hd | hs⟩ | ⟨_, _, rfl, -, he⟩ | ⟨_, _, rfl, -, -, he⟩ | ⟨s, rfl, hs, he⟩ :=
    t.perform_cases a
  · by_cases hs : t.status = .pending <;> simp [he, hd, hs]
  · rw [he, if_neg hs]
  · by_cases hs : t.status = .pending <;> simp [he, hs, Action.declared?]
  · by_cases hs : t.status = .pending <;> simp [he, hs, Action.declared?]
  · rw [he, if_pos hs]
    rfl

theorem status_advance_of_terminal {t : Transfer} (h : t.status ≠ .pending)
    (actions : List Action) : (t.advance actions).status = t.status := by
  induction actions generalizing t with
  | nil => rfl
  | cons a actions ih =>
    have hstep : (t.perform a).2.status = t.status := by rw [status_perform, if_neg h]
    rw [advance_cons, ih (hstep ▸ h), hstep]

/-- The first terminal status that is declared stays. -/
theorem status_advance_of_pending {t : Transfer} (h : t.status = .pending)
    (actions : List Action) :
    (t.advance actions).status = (Status.firstTerminal? (declared actions)).getD .pending := by
  induction actions generalizing t with
  | nil => exact h
  | cons a actions ih =>
    have hstep : (t.perform a).2.status = a.declared?.getD .pending := by
      rw [status_perform, if_pos h]
    rw [advance_cons]
    cases hd : a.declared? with
    | none =>
      rw [ih (by rw [hstep, hd]; rfl), declared, declared, List.filterMap_cons_none hd]
    | some s =>
      rw [hd, Option.getD_some] at hstep
      rw [declared, List.filterMap_cons_some hd, ← declared, Status.firstTerminal?]
      by_cases hs : s = .pending
      · rw [ih (hstep.trans hs), List.find?_cons_of_neg (by simp [hs])]
        rfl
      · rw [status_advance_of_terminal (hstep ▸ hs), hstep, List.find?_cons_of_pos (by simp [hs])]
        rfl

end Transfer

end SharedBus
