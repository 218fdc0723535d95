import SharedBus.Proofs.Jobs
import SharedBus.Proofs.Outcome
import SharedBus.Proofs.Progress

/-!
# What is sent

The bytes handed out to the hardware for a transfer, over all its events, are its data
from the first byte on. Asked for more than there is, the transfer answers that there
is none, then and ever after. A request that wrote reports how many bytes were handed
out, however its transfer ended, and one that read how many were received.
-/

namespace SharedBus

namespace Answer

def handed (answers : List Answer) : List UInt8 := answers.filterMap byte?

@[simp] theorem handed_nil : handed [] = [] := rfl

@[simp] theorem handed_append (xs ys : List Answer) : handed (xs ++ ys) = handed xs ++ handed ys :=
  List.filterMap_append

theorem handed_cons (a : Answer) (answers : List Answer) :
    handed (a :: answers) = a.byte?.toList ++ handed answers := by
  cases ha : a.byte? with
  | none => exact List.filterMap_cons_none ha
  | some byte => exact List.filterMap_cons_some ha

end Answer

structure Spells (answers : List Answer) (data : List UInt8) : Prop where
  starts : Answer.handed answers <+: data
  /-- There is no next byte exactly when all of them have been handed out. -/
  none_iff : ∀ front o rest, answers = front ++ .sent o :: rest →
    (o = none ↔ Answer.handed front = data)
  none_after : ∀ front rest, answers = front ++ .sent none :: rest →
    ∀ o, .sent o ∈ rest → o = none

namespace Transfer

/-- An action is answered with the first of the unsent bytes or with none. -/
theorem handed_perform (t : Transfer) (a : Action) :
    (t.perform a).1.byte?.toList ++ (t.perform a).2.unsent = t.unsent ∧
      (t.perform a).2.sent = t.sent + (t.perform a).1.byte?.toList.length := by
  cases a with
  | send => cases hu : t.unsent <;> simp [perform, send, hu, Answer.byte?]
  | receive byte =>
    simp only [perform, receive, Answer.byte?]
    split
    · exact ⟨rfl, rfl⟩
    · cases t.received.push? byte <;> exact ⟨rfl, rfl⟩
  | complete status =>
    simp only [perform, complete, Answer.byte?]
    split <;> exact ⟨rfl, rfl⟩

/-- Taking a byte makes the received bytes one more. -/
theorem received_perform (t : Transfer) (a : Action) :
    (t.perform a).2.received.bytes.length =
      t.received.bytes.length + if (t.perform a).1.taken then 1 else 0 := by
  cases a with
  | send => cases hu : t.unsent <;> simp [perform, send, hu, Answer.taken]
  | receive byte =>
    by_cases hn : t.unread = 0
    · simp [perform, receive, hn, Answer.taken]
    · by_cases hp : t.received.bytes.length + 1 ≤ Buffer.capacity <;>
        simp [perform, receive, hn, Buffer.push?, Buffer.append?, hp, Answer.taken]
  | complete status =>
    simp only [perform, complete, Answer.taken]
    split <;> rfl

theorem handed_append_unsent (t : Transfer) (actions : List Action) :
    Answer.handed (t.answers actions) ++ (t.advance actions).unsent = t.unsent := by
  induction actions generalizing t with
  | nil => rfl
  | cons a actions ih =>
    rw [answers, advance_cons, Answer.handed_cons, List.append_assoc, ih, (t.handed_perform a).1]

theorem sent_advance (t : Transfer) (actions : List Action) :
    (t.advance actions).sent = t.sent + (Answer.handed (t.answers actions)).length := by
  induction actions generalizing t with
  | nil => rfl
  | cons a actions ih =>
    rw [answers, advance_cons, Answer.handed_cons, List.length_append, ih,
      (t.handed_perform a).2, Nat.add_assoc]

theorem received_advance (t : Transfer) (actions : List Action) :
    (t.advance actions).received.bytes.length =
      t.received.bytes.length + (t.answers actions).countP Answer.taken := by
  induction actions generalizing t with
  | nil => rfl
  | cons a actions ih =>
    rw [answers, advance_cons, List.countP_cons, ih, t.received_perform a]
    omega

/-- No byte is answered exactly when none is left unsent. -/
theorem none_iff_unsent_eq_nil {t : Transfer} {a : Action} {o : Option UInt8}
    (h : .sent o = (t.perform a).1) : o = none ↔ t.unsent = [] := by
  cases a with
  | send =>
    obtain rfl := Answer.sent.inj h
    cases hu : t.unsent <;> simp [send, hu]
  | receive | complete => cases h

theorem spells_answers (t : Transfer) (actions : List Action) :
    Spells (t.answers actions) t.unsent := by
  have hnone {front rest : List Answer} {o : Option UInt8}
      (h : t.answers actions = front ++ .sent o :: rest) :
      o = none ↔ Answer.handed front = t.unsent := by
    obtain ⟨before, a, after, -, rfl, hanswer, -⟩ := answers_eq_append h
    have hall := t.handed_append_unsent before
    rw [none_iff_unsent_eq_nil hanswer]
    constructor
    · intro hleft
      rwa [hleft, List.append_nil] at hall
    · intro hhanded
      rw [hhanded] at hall
      exact List.append_right_eq_self.1 hall
  have hstart : Answer.handed (t.answers actions) <+: t.unsent :=
    ⟨_, t.handed_append_unsent actions⟩
  refine ⟨hstart, fun front o rest h => hnone h, fun front rest h o ho => ?_⟩
  obtain ⟨middle, last, rfl⟩ := List.append_of_mem ho
  have hlater : t.answers actions = (front ++ .sent none :: middle) ++ .sent o :: last := by
    rw [h, List.append_assoc, List.cons_append]
  rw [hlater, Answer.handed_append] at hstart
  have hearly := (List.prefix_append _ _).trans hstart
  have hall : Answer.handed front = t.unsent := (hnone h).1 rfl
  have hstill : Answer.handed (front ++ .sent none :: middle) = t.unsent := by
    apply hearly.eq_of_length_le
    rw [Answer.handed_append, hall, List.length_append]
    exact Nat.le_add_right _ _
  exact (hnone hlater).2 hstill

/-- What a request reports is what has been done to its transfer since this was begun. -/
theorem byteCount_advance_ofCommand (r : RequestId) (c : Command) (actions : List Action) :
    ((ofCommand r c).advance actions).byteCount =
      if c.isRead then ((ofCommand r c).answers actions).countP Answer.taken
      else (Answer.handed ((ofCommand r c).answers actions)).length := by
  have hcommand : ((ofCommand r c).advance actions).command = c := command_advance _ _
  rw [byteCount, hcommand, sent_advance, received_advance]
  simp only [ofCommand, Buffer.empty, List.length_nil, Nat.zero_add]

end Transfer

namespace History

variable {t t' : Transfer} {since after earlier h : History} {status : Status}

theorem Lawful.spells (hl : Lawful (since ++ .begun t :: h))
    (hsince : ∀ e ∈ since, e.begun? = none) :
    Spells (answers (since ++ .begun t :: h)) t.unsent := by
  rw [(hl.progress hsince).1]
  exact t.spells_answers _

theorem Lawful.byteCount_retired
    (hl : Lawful (after ++ .retired t' status :: (earlier ++ .begun t :: h)))
    (hafter : ∀ e ∈ after, e.begun? = none) (hearlier : ∀ e ∈ earlier, e.begun? = none) :
    let done := answers (after ++ .retired t' status :: (earlier ++ .begun t :: h))
    t'.request = t.request ∧ t'.byteCount =
      if t.command.isRead then done.countP Answer.taken else (Answer.handed done).length := by
  intro done
  have hretired := hl.of_append
  obtain ⟨hanswers, hflight⟩ := hretired.2.progress hearlier
  have ht' := hflight _ hretired.1.1
  have hdone : done = t.answers (actions (earlier ++ .begun t :: h)) := by
    have hsame := (hl.answers_append rfl hafter).2.2
    rw [← hanswers]
    exact hsame
  have hbegun := hretired.2.of_append.begun_eq_ofCommand
  refine ⟨?_, ?_⟩
  · have hrequest : (t'.stamp 0).request = t.request := by rw [ht', Transfer.request_advance]
    exact hrequest
  · have hcount : t'.byteCount = (t.advance (actions (earlier ++ .begun t :: h))).byteCount := by
      rw [← ht', Transfer.byteCount_stamp]
    rw [hcount, hdone, hbegun]
    exact Transfer.byteCount_advance_ofCommand _ _ _

end History

namespace System

variable {σ : Type} {s : System σ}

/-- A retired request keeps the count it reports until it is submitted again. -/
theorem count_of_retired {later h : History} {t : Transfer} {status : Status}
    (hs : s.bus.Coherent) (hsplit : s.bus.history = later ++ .retired t status :: h)
    (hlater : .accepted t.request ∉ later) : (s.bus.requests t.request).count = t.byteCount := by
  have hl : History.Lawful (later ++ .retired t status :: h) := hsplit ▸ hs.lawful
  have hwritten : History.outcome t.request (.retired t status :: h) = (status, t.byteCount) :=
    if_pos rfl
  have hterminal : (History.outcome t.request (.retired t status :: h)).1 ≠ .pending := by
    rw [hwritten]
    exact (hl.writesOnce.retired later t status h rfl).2.2.2
  have houtcome : (s.bus.requests t.request).outcome = (status, t.byteCount) := by
    rw [hs.outcome_eq, hsplit, hl.outcome_append hterminal hlater, hwritten]
  exact congrArg Prod.snd houtcome

variable [Platform σ]

/-- For each transfer of a run, what its request was to send when it was submitted is handed out
in order, and what the request reports once the transfer is retired is the number of bytes handed
out or, if it reads, received. -/
theorem handed_out_in_order {platform : σ} {config : Config} {xs : List Expander}
    {ms : List (Move σ)} {replies : List Reply}
    (h : (create platform config xs).run ms = some (replies, s)) :
    ∀ later since t h, s.bus.history = later ++ (since ++ .begun t :: h) →
      (∀ e ∈ since, e.begun? = none) →
      ∃ between before, h = between ++ .accepted t.request :: before ∧
        History.Spares t.request between ∧
        let job := Job.last t.request (History.jobs before)
        let answers := History.answers (since ++ .begun t :: h)
        Spells answers job.data ∧
        ∀ after t' status earlier, since = after ++ .retired t' status :: earlier →
          t'.request = t.request ∧
          t'.byteCount = (if job.operation.isRead then answers.countP Answer.taken
            else (Answer.handed answers).length) ∧
          (.accepted t.request ∉ later ++ after →
            (s.bus.requests t.request).count = t'.byteCount) := by
  have hs : s.bus.Coherent := coherent_run h (Bus.coherent_create platform config)
  intro later since t h hsplit hsince
  have hl : History.Lawful (later ++ (since ++ .begun t :: h)) := hsplit ▸ hs.lawful
  obtain ⟨hpresents, between, before, hbefore, hspares, hjob⟩ :=
    hl.of_append.of_append.presents_begun
  rw [hjob] at hpresents
  refine ⟨between, before, hbefore, hspares, ?_, ?_⟩
  · rw [← hpresents.unsent_eq]
    exact hl.of_append.spells hsince
  · rintro after t' status earlier rfl
    have hafter : ∀ e ∈ after, e.begun? = none :=
      fun e he => hsince e (List.mem_append_left _ he)
    have hearlier : ∀ e ∈ earlier, e.begun? = none :=
      fun e he => hsince e (List.mem_append_right _ (List.mem_cons_of_mem _ he))
    rw [List.append_assoc, List.cons_append] at hl hsplit ⊢
    obtain ⟨hrequest, hcount⟩ := hl.of_append.byteCount_retired hafter hearlier
    refine ⟨hrequest, ?_, fun hnot => ?_⟩
    · rw [hcount, ← hpresents.operation_eq, Command.isRead_operation]
    · rw [← List.append_assoc] at hsplit
      rw [← hrequest] at hnot ⊢
      exact count_of_retired hs hsplit hnot

def hastyBench : Bench :=
  { Bench.create 0 0 with rounds := fun _ => [[.send 2], [.complete .ok, .send 2]] }

/-- The byte that is asked for after success was declared counts, the one missing does not. -/
theorem handed_out_in_order_hasty :
    ∃ replies s t t' events h, (create hastyBench Config.standard []).run
        [.call 0 .bringUp, .call 0 (.write 1 0x48 [1, 2, 3]), .call 0 .handleEvent,
          .call 0 .handleEvent] = some (replies, s) ∧
      s.bus.history = .retired t' .ok :: (events ++ .begun t :: h) ∧
      Answer.handed (History.answers s.bus.history) = [1, 2, 3] ∧
      (s.bus.requests 1).count = 3 := by
  have hrun : ∃ replies s t t' before middle h, (create hastyBench Config.standard []).run
        [.call 0 .bringUp, .call 0 (.write 1 0x48 [1, 2, 3]), .call 0 .handleEvent,
          .call 0 .handleEvent] = some (replies, s) ∧
      s.bus.history = [] ++ ([.retired t' .ok, before, middle] ++ .begun t :: h) ∧
      (∀ e ∈ [.retired t' .ok, before, middle], e.begun? = none) ∧
      t.request = 1 ∧ t'.byteCount = 3 ∧
      Answer.handed (History.answers s.bus.history) = [1, 2, 3] :=
    ⟨_, _, _, _, _, _, _, rfl, rfl, by simp [Event.begun?], rfl, rfl, rfl⟩
  obtain ⟨replies, s, t, t', before, middle, h, hrun, hsplit, hsince, ht, hcount, hhanded⟩ := hrun
  obtain ⟨_, _, -, -, -, hretired⟩ := handed_out_in_order hrun [] _ t h hsplit hsince
  obtain ⟨-, -, hkept⟩ := hretired [] t' .ok [before, middle] rfl
  refine ⟨replies, s, t, t', [before, middle], h, hrun, hsplit, hhanded, ?_⟩
  rw [← ht, hkept List.not_mem_nil, hcount]

end System

end SharedBus
