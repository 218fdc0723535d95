import SharedBus.Proofs.Run
import SharedBus.Proofs.Transcript

/-!
# Use of the bus and the power state

The peripheral is up when a reset has been made and no close since. A bus does not keep track of
that: a request that is submitted to it before it is brought up, or after it was shut down, is
begun all the same. It is up to the callers, then. The platform is used only while it is up if
and only if requests have been accepted only while it was.
-/

namespace SharedBus

def Event.uses : Event → Bool
  | .begun _ | .serviced .. => true
  | .reset | .clockSet _ | .closed | .broughtUp | .shutDown | .configured .. | .accepted _ |
    .retired .. | .recovered | .polled .. => false

def Event.submits : Event → Bool
  | .accepted _ => true
  | .reset | .clockSet _ | .closed | .begun _ | .serviced .. | .broughtUp | .shutDown |
    .configured .. | .retired .. | .recovered | .polled .. => false

namespace History

def Up (h : History) : Prop := ∃ since before, h = since ++ .reset :: before ∧ .closed ∉ since

def WhileUp (p : Event → Bool) (h : History) : Prop :=
  ∀ later e earlier, h = later ++ e :: earlier → p e = true → Up earlier

variable {p : Event → Bool} {e : Event} {h : History}

theorem not_up_nil : ¬ Up [] := by
  rintro ⟨since, before, heq, -⟩
  simp at heq

theorem up_cons : Up (e :: h) ↔ e = .reset ∨ e ≠ .closed ∧ Up h := by
  constructor
  · rintro ⟨since, before, heq, hclosed⟩
    cases since with
    | nil => exact .inl (List.cons.inj heq).1
    | cons e' since =>
      obtain ⟨rfl, rfl⟩ := List.cons.inj heq
      obtain ⟨hne, hclosed⟩ := not_or.1 (mt List.mem_cons.2 hclosed)
      exact .inr ⟨Ne.symm hne, since, before, rfl, hclosed⟩
  · rintro (rfl | ⟨hne, since, before, rfl, hclosed⟩)
    · exact ⟨[], h, rfl, List.not_mem_nil⟩
    · exact ⟨e :: since, before, rfl, fun hmem => (List.mem_cons.1 hmem).elim hne.symm hclosed⟩

theorem whileUp_nil (p : Event → Bool) : WhileUp p [] := by
  intro later e earlier heq
  simp at heq

theorem whileUp_cons : WhileUp p (e :: h) ↔ (p e = true → Up h) ∧ WhileUp p h := by
  constructor
  · intro hall
    refine ⟨hall [] e h rfl, fun later e' earlier heq => ?_⟩
    exact hall (e :: later) e' earlier (by rw [heq, List.cons_append])
  · rintro ⟨hfirst, hrest⟩ later e' earlier heq
    cases later with
    | nil =>
      obtain ⟨rfl, rfl⟩ := List.cons.inj heq
      exact hfirst
    | cons e'' later => exact hrest later e' earlier (List.cons.inj heq).2

/-- The platform was used only while it was up if and only if requests were submitted only then, and
as long as this holds the platform is up while any of them waits. -/
structure Powered (h : History) (waiting : Prop) : Prop where
  used_iff : WhileUp Event.uses h ↔ WhileUp Event.submits h
  up : WhileUp Event.uses h → waiting → Up h

namespace Powered

variable {waiting waiting' : Prop}

theorem mono (hh : Powered h waiting) (hwaiting : waiting' → waiting) : Powered h waiting' :=
  ⟨hh.used_iff, fun hused hwaits => hh.up hused (hwaiting hwaits)⟩

theorem quiet (hh : Powered h waiting) (huses : e.uses = false) (hsubmits : e.submits = false)
    (hopen : e ≠ .closed) (hwaiting : waiting' → waiting) : Powered (e :: h) waiting' := by
  constructor
  · simp only [whileUp_cons, huses, hsubmits, Bool.false_eq_true, false_implies, true_and]
    exact hh.used_iff
  · intro hused hwaits
    exact up_cons.2 (.inr ⟨hopen, hh.up (whileUp_cons.1 hused).2 (hwaiting hwaits)⟩)

/-- While a request waits the platform is up, if it was used only while it was up. -/
theorem used (hh : Powered h waiting) (hwaits : waiting) (huses : e.uses = true)
    (waiting' : Prop) : Powered (e :: h) waiting' := by
  have hsubmits : e.submits = false := by cases e <;> first | rfl | cases huses
  have hopen : e ≠ .closed := by rintro rfl; cases huses
  constructor
  · simp only [whileUp_cons, huses, hsubmits, Bool.false_eq_true, false_implies, true_and,
      true_implies, ← hh.used_iff]
    exact ⟨And.right, fun hused => ⟨hh.up hused hwaits, hused⟩⟩
  · intro hused _
    exact up_cons.2 (.inr ⟨hopen, hh.up (whileUp_cons.1 hused).2 hwaits⟩)

theorem reset (hh : Powered h waiting) (waiting' : Prop) : Powered (.reset :: h) waiting' := by
  constructor
  · simp only [whileUp_cons, Event.uses, Event.submits, Bool.false_eq_true, false_implies, true_and]
    exact hh.used_iff
  · intro _ _
    exact up_cons.2 (.inl rfl)

/-- The platform is closed when nothing waits. -/
theorem closed (hh : Powered h waiting) (hidle : ¬ waiting') : Powered (.closed :: h) waiting' := by
  constructor
  · simp only [whileUp_cons, Event.uses, Event.submits, Bool.false_eq_true, false_implies, true_and]
    exact hh.used_iff
  · intro _ hwaits
    exact absurd hwaits hidle

/-- A request that is submitted while others wait. -/
theorem queued (hh : Powered h waiting) (hwaits : waiting) (r : RequestId) (waiting' : Prop) :
    Powered (.accepted r :: h) waiting' := by
  constructor
  · simp only [whileUp_cons, Event.uses, Event.submits, Bool.false_eq_true, false_implies, true_and,
      true_implies, ← hh.used_iff]
    exact ⟨fun hused => ⟨hh.up hused hwaits, hused⟩, And.right⟩
  · intro hused _
    exact up_cons.2 (.inr ⟨by simp, hh.up (whileUp_cons.1 hused).2 hwaits⟩)

/-- A request that is begun as soon as it is submitted. -/
theorem begunAtOnce (hh : Powered h waiting) (t : Transfer) (r : RequestId) (waiting' : Prop) :
    Powered (.begun t :: .accepted r :: h) waiting' := by
  constructor
  · simp only [whileUp_cons, up_cons, Event.uses, Event.submits, Bool.false_eq_true, false_implies,
      true_and, true_implies, reduceCtorEq, false_or, ne_eq, not_false_iff, hh.used_iff]
  · intro hused _
    obtain ⟨hup, -⟩ := whileUp_cons.1 hused
    exact up_cons.2 (.inr ⟨by simp, hup rfl⟩)

end Powered

end History

namespace Bus

variable {σ : Type} {b b' : Bus σ}

def Powered (b : Bus σ) : Prop := b.history.Powered (b.queue.toList ≠ [])

/-- As long as the platform is up for what waits, something may be begun. -/
theorem powered_beginning {h : History} (hh : h.Powered True) (b : Bus σ) (rs : List RequestId)
    (waiting : Prop) : History.Powered (b.beginning rs ++ h) waiting := by
  cases rs with
  | nil => exact hh.mono fun _ => trivial
  | cons r rs => exact hh.used trivial rfl waiting

variable [Platform σ]

theorem Coherent.powered_handleEvent (h : b.Coherent) (hb : b.Powered) :
    b.handleEvent.Powered := by
  cases ht : b.active with
  | none => rwa [b.handleEvent_of_free ht]
  | some t =>
    have hserved : History.Powered (.serviced t (b.eventActions t)
        (t.advance (b.eventActions t)) :: b.history) True := hb.used (h.toList_ne_nil ht) rfl True
    rw [Powered, h.history_handleEvent]
    simp only [entries, ht]
    split
    · exact hserved.mono fun _ => trivial
    · rw [List.append_assoc]
      exact powered_beginning (hserved.quiet rfl rfl (by simp) id) b _ _

/-- A recovery closes the platform when the transfer in flight has been retired, and resets it
before the next one is begun. -/
theorem Coherent.powered_checkTimeout (h : b.Coherent) (hb : b.Powered) :
    b.checkTimeout.Powered := by
  cases ho : b.overdue? with
  | none => rcases checkTimeout_of_in_time ho with he | he <;> rw [he] <;> exact hb
  | some t =>
    have hretired : History.Powered (.retired t .timeout :: b.history) (b.queue.toList ≠ []) :=
      hb.quiet rfl rfl (by simp) id
    have hclosed : History.Powered (.closed :: .retired t .timeout :: b.history) False :=
      hretired.closed not_false
    have hset := (hclosed.reset True).quiet (e := .clockSet b.config.clock) rfl rfl (by simp) id
    have hbegun := powered_beginning hset b b.queue.toList.tail True
    rw [Powered, h.history_checkTimeout]
    simp only [entries, ho, List.cons_append, List.append_assoc]
    exact hbegun.quiet rfl rfl (by simp) fun _ => trivial

theorem Coherent.powered_submit (h : b.Coherent) (hb : b.Powered) {r : RequestId}
    (hr : (b.requests r).status ≠ .pending) : (b.accept r).startNext.Powered := by
  rw [Powered, h.history_submit hr, entries]
  split
  · exact hb.begunAtOnce _ r _
  · rename_i hwaits
    exact hb.queued hwaits r _

theorem Coherent.powered_act (h : b.Coherent) (hb : b.Powered) {a : Act σ}
    (ha : b.act a = .ok b') : b'.Powered := by
  cases a with
  | handleEvent =>
    cases ha
    exact h.powered_handleEvent hb
  | checkTimeout =>
    cases ha
    exact h.powered_checkTimeout hb
  | submit r =>
    obtain ⟨hr, rfl⟩ := act_submit ha
    exact h.powered_submit hb hr
  | bringUp =>
    cases ha
    have hnoted : History.Powered (.broughtUp :: b.history) (b.queue.toList ≠ []) :=
      hb.quiet rfl rfl (by simp) id
    exact (hnoted.reset _).quiet rfl rfl (by simp) id
  | shutDown =>
    obtain ⟨hqueued, rfl⟩ := act_shutDown ha
    rw [h.queued_eq, List.length_eq_zero_iff] at hqueued
    have hidle : ¬ b.queue.toList ≠ [] := fun hwaits => hwaits hqueued
    exact (hb.closed hidle).quiet rfl rfl (by simp) id
  | setClock hz =>
    cases ha
    exact hb.quiet rfl rfl (by simp) id
  | configure r c =>
    obtain ⟨-, rfl⟩ := act_configure ha
    exact hb.quiet rfl rfl (by simp) id
  | poll r l =>
    cases ha
    exact hb.quiet rfl rfl (by simp) id
  | shift | setTimeout =>
    cases ha
    exact hb

end Bus

namespace System

variable {σ : Type} [Platform σ] {s : System σ} {ms : List (Move σ)} {replies : List Reply}

/-- Something is sent to the peripheral only while it is up, after a reset and before a close, if
and only if requests are accepted only while it is up. -/
theorem used_while_up_iff (platform : σ) (config : Config) (xs : List Expander)
    (h : (create platform config xs).run ms = some (replies, s)) :
    s.bus.history.WhileUp Event.uses ↔ s.bus.history.WhileUp Event.submits := by
  have hfresh : (create platform config xs).bus.Powered :=
    ⟨⟨fun _ => History.whileUp_nil _, fun _ => History.whileUp_nil _⟩,
      fun _ hwaits => absurd rfl hwaits⟩
  have hpowered := run_keeps h (Bus.coherent_create platform config)
    (fun _ _ _ hb hpowered ha => hb.powered_act hpowered ha) hfresh
  exact hpowered.used_iff

theorem used_while_up_iff_brought_up :
    ∃ s, (create (Bench.create 0 0) Config.standard []).run
        [.call 0 .bringUp, .call 0 (.submit 1)] = some ([.done, .ok], s) ∧
      .begun (.ofCommand 1 .blank) ∈ s.bus.history ∧ s.bus.history.WhileUp Event.uses := by
  have hend : ((create (Bench.create 0 0) Config.standard []).run
      [.call 0 .bringUp, .call 0 (.submit 1)]).map (fun x => (x.1, x.2.bus.history)) =
      some ([.done, .ok], [.begun (.ofCommand 1 .blank), .accepted 1, .clockSet 100000, .reset,
        .broughtUp]) := rfl
  obtain ⟨⟨replies, s⟩, hrun, heq⟩ := Option.map_eq_some_iff.1 hend
  obtain ⟨rfl, hhistory⟩ := Prod.mk.inj heq
  refine ⟨s, hrun, by rw [hhistory]; exact List.mem_cons_self, ?_⟩
  rw [used_while_up_iff _ _ _ hrun, hhistory]
  simp [History.whileUp_cons, History.up_cons, History.whileUp_nil, Event.submits]

/-- A request is begun on a peripheral that no one has brought up. -/
theorem used_before_brought_up :
    ∃ s, (create (Bench.create 0 0) Config.standard []).run [.call 0 (.submit 1)] =
        some ([.ok], s) ∧ ¬ s.bus.history.WhileUp Event.uses := by
  have hend : ((create (Bench.create 0 0) Config.standard []).run [.call 0 (.submit 1)]).map
      (fun x => (x.1, x.2.bus.history)) =
      some ([.ok], [.begun (.ofCommand 1 .blank), .accepted 1]) := rfl
  obtain ⟨⟨replies, s⟩, hrun, heq⟩ := Option.map_eq_some_iff.1 hend
  obtain ⟨rfl, hhistory⟩ := Prod.mk.inj heq
  refine ⟨s, hrun, ?_⟩
  rw [hhistory]
  simp [History.whileUp_cons, History.up_cons, History.not_up_nil, Event.uses]

end System

end SharedBus
