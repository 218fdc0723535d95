import SharedBus.Proofs.Run
import SharedBus.Bench

/-!
# The order of service

Since the bus was last brought up, the requests accepted are those retired followed
by those in the queue, and the transfers begun are those of the requests retired
followed by that of the head of the queue. So requests are begun and retired in the
order in which they were accepted, each acceptance once. The requests accepted are
also what the callers believe, who know only their calls and the replies.
-/

namespace SharedBus

namespace Event

def accepted? : Event → Option RequestId
  | .accepted r => some r
  | _ => none

def begun? : Event → Option RequestId
  | .begun t => some t.request
  | _ => none

def retired? : Event → Option RequestId
  | .retired t _ => some t.request
  | _ => none

variable {e : Event} {r : RequestId}

theorem accepted?_eq_some_iff : e.accepted? = some r ↔ e = .accepted r := by
  cases e <;> simp [accepted?]

/-- Only callers have requests accepted. -/
theorem accepted?_eq_none (he : e.byCaller = false) : e.accepted? = none := by
  cases e <;> first | rfl | cases he

theorem begun?_eq_some_iff : e.begun? = some r ↔ ∃ t, e = .begun t ∧ t.request = r := by
  cases e <;> simp [begun?]

theorem retired?_eq_some_iff :
    e.retired? = some r ↔ ∃ t status, e = .retired t status ∧ t.request = r := by
  cases e <;> simp [retired?]

end Event

namespace History

/-- What `f` picks out of the events since the bus was last brought up, oldest first. -/
def since (f : Event → Option RequestId) : History → List RequestId
  | [] => []
  | .broughtUp :: _ => []
  | e :: h => since f h ++ (f e).toList

theorem since_cons {e : Event} (he : e ≠ .broughtUp) (f : Event → Option RequestId) (h : History) :
    since f (e :: h) = since f h ++ (f e).toList := by
  cases e <;> first | rfl | contradiction

theorem since_cons_of_none {e : Event} (he : e ≠ .broughtUp) {f : Event → Option RequestId}
    (hf : f e = none) (h : History) : since f (e :: h) = since f h := by
  rw [since_cons he, hf, Option.toList_none, List.append_nil]

/-- The queue holds what has been accepted and not been retired. -/
theorem Lawful.accepted_eq {h : History} (hl : Lawful h) :
    since Event.accepted? h = since Event.retired? h ++ (ledger h).waiting := by
  induction h with
  | nil => rfl
  | cons e h ih =>
    have ih := ih hl.2
    cases e with
    | broughtUp => rfl
    | accepted r =>
      rw [since_cons (by simp), since_cons_of_none (by simp) rfl, ih, List.append_assoc]
      rfl
    | retired t s =>
      have hcarries := hl.2.sound.carries _ hl.1.1
      have hwaiting : (ledger h).waiting = t.request :: (ledger h).waiting.tail :=
        hcarries.waiting_eq
      rw [since_cons_of_none (by simp) rfl, since_cons (by simp), ih, List.append_assoc]
      exact congrArg _ hwaiting
    | reset | clockSet | closed | begun | serviced | shutDown | configured | recovered | polled =>
      rw [since_cons_of_none (by simp) rfl, since_cons_of_none (by simp) rfl, ih]
      rfl

/-- What has been begun and not been retired is in flight. -/
theorem Lawful.begun_eq {h : History} (hl : Lawful h) :
    since Event.begun? h =
      since Event.retired? h ++ ((ledger h).flight.map Transfer.request).toList := by
  induction h with
  | nil => rfl
  | cons e h ih =>
    have ih := ih hl.2
    cases e with
    | broughtUp => rfl
    | begun t =>
      have hfree : (ledger h).flight = none := hl.1.1
      rw [hfree, Option.map_none, Option.toList_none, List.append_nil] at ih
      rw [since_cons (by simp), since_cons_of_none (by simp) rfl, ih]
      rfl
    | serviced t actions t' =>
      obtain ⟨hflight, -, rfl⟩ := hl.1
      rw [hflight] at ih
      rw [since_cons_of_none (by simp) rfl, since_cons_of_none (by simp) rfl, ih]
      simp [Ledger.after]
    | retired t s =>
      have hflight : (ledger h).flight = some (t.stamp 0) := hl.1.1
      rw [hflight] at ih
      rw [since_cons_of_none (by simp) rfl, since_cons (by simp), ih]
      simp [Ledger.after, Ledger.wake, Ledger.setRequest, Event.retired?]
    | reset | clockSet | closed | accepted | shutDown | configured | recovered | polled =>
      rw [since_cons_of_none (by simp) rfl, since_cons_of_none (by simp) rfl, ih]
      rfl

/-- What is picked out of the events by callers alone is picked out of all events. -/
theorem filterMap_filter_byCaller {α : Type} {f : Event → Option α}
    (hf : ∀ e, e.byCaller = false → f e = none) (h : History) :
    (h.filter Event.byCaller).filterMap f = h.filterMap f := by
  have hkept : (fun e => if Event.byCaller e then f e else none) = f := by
    funext e
    cases he : e.byCaller with
    | true => rfl
    | false => exact (hf e he).symm
  rw [List.filterMap_filter, hkept]

/-- What callers bring about decides which requests count as accepted. -/
theorem since_accepted_append (added h : History) :
    since Event.accepted? (added ++ h) =
      since Event.accepted? (added.filter Event.byCaller ++ h) := by
  induction added with
  | nil => rfl
  | cons e added ih =>
    cases e with
    | broughtUp => rfl
    | accepted | shutDown | configured | polled =>
      rw [List.filter_cons_of_pos rfl, List.cons_append, List.cons_append, since_cons (by simp),
        since_cons (by simp), ih]
    | reset | clockSet | closed | begun | serviced | retired | recovered =>
      rw [List.filter_cons_of_neg (by simp [Event.byCaller]), List.cons_append,
        since_cons_of_none (by simp) rfl, ih]

end History

namespace Bus.Coherent

variable {σ : Type} {b : Bus σ}

theorem accepted_eq (h : b.Coherent) : History.since Event.accepted? b.history =
    History.since Event.retired? b.history ++ b.queue.toList := by
  rw [h.lawful.accepted_eq, h.toList_eq]

theorem begun_eq (h : b.Coherent) : History.since Event.begun? b.history =
    History.since Event.retired? b.history ++ b.queue.toList.head?.toList := by
  rw [h.lawful.begun_eq, h.flight_request, h.active_request, h.head?_toList]

end Bus.Coherent

/-! ### What the callers know -/

/-- What devices have latched decides nothing about who is submitted. -/
theorem Call.submits_congr {xs ys : List Expander}
    (h : ys.map Expander.unlatched = xs.map Expander.unlatched) (c : Call) :
    c.submits ys = c.submits xs := by
  have hkept (f : Expander → RequestId) (hf : ∀ x, f x.unlatched = f x) (i : Nat) :
      ys[i]?.map f = xs[i]?.map f := by
    have hat := congrArg (fun zs => zs[i]?.map f) h
    simpa [List.getElem?_map, Option.map_map, Function.comp_def, hf] using hat
  cases c with
  | writePin i => exact hkept Expander.writeRequest (fun _ => rfl) i
  | readPin i => exact hkept Expander.readRequest (fun _ => rfl) i
  | bringUp | shutDown | setClock | setTimeout | tick | handleEvent | submit | write | writeFixed |
    read | setWrite | setWriteFixed | setRead | readInto | wait | complete | poll | selectClock |
    describePins | ownsPin => rfl

section Replies

variable {σ : Type}

def Move.accepted? (xs : List Expander) : Move σ → Reply → Option RequestId
  | .call _ c, reply => if reply.granted then c.submits xs else none
  | .shift _, _ => none

theorem Move.accepted?_congr {xs ys : List Expander}
    (h : ys.map Expander.unlatched = xs.map Expander.unlatched) (m : Move σ) (reply : Reply) :
    m.accepted? ys reply = m.accepted? xs reply := by
  cases m with
  | call limit c => rw [accepted?, Call.submits_congr h, accepted?]
  | shift platform => rfl

/-- The requests accepted since the bus was last brought up, once a move has been made.
Those in `earlier` were accepted before it. -/
def Move.tally (xs : List Expander) (earlier : List RequestId) : Move σ → Reply → List RequestId
  | .call _ .bringUp, _ => []
  | m, reply => earlier ++ (m.accepted? xs reply).toList

def submissions (xs : List Expander) (earlier : List RequestId) :
    List (Move σ) → List Reply → List RequestId
  | m :: ms, reply :: replies => submissions xs (m.tally xs earlier reply) ms replies
  | _, _ => earlier

end Replies

namespace System

variable {σ : Type} {s s' : System σ}

/-- Of what a call has entered only its submission adds to the requests accepted. -/
theorem since_entered {c : Call} (hc : c ≠ .bringUp) (reply : Reply) (h : History) :
    History.since Event.accepted? ((s.entered c reply).reverse ++ h) =
      History.since Event.accepted? h ++
        (if reply.granted then c.submits s.expanders else none).toList := by
  cases hg : reply.granted with
  | false => simp [entered, hg]
  | true =>
    have hentered : s.entered c reply = s.intent c := if_pos hg
    rw [hentered, if_pos rfl]
    cases c with
    | bringUp => contradiction
    | poll i => cases hi : s.completions[i]? <;>
        simp [intent, hi, Call.submits, History.since, Event.accepted?]
    | writePin i | readPin i => cases hi : s.expanders[i]? <;>
        simp [intent, hi, Call.submits, History.since, Event.accepted?]
    | shutDown | setClock | setTimeout | tick | handleEvent | submit | write | writeFixed | read |
      setWrite | setWriteFixed | setRead | readInto | wait | complete | selectClock |
      describePins | ownsPin => simp [intent, Call.submits, History.since, Event.accepted?]

variable [Platform σ]

theorem Leads.since_eq {es : List Event} (h : s.Leads es s') :
    History.since Event.accepted? s'.bus.history =
      History.since Event.accepted? (es.reverse ++ s.bus.history) := by
  obtain ⟨as, hpath, rfl⟩ := h.path
  obtain ⟨added, hhistory, hadded⟩ := hpath.grows
  rw [hhistory, History.since_accepted_append, hadded]

theorem tally_eq {xs : List Expander} {m : Move σ} {reply : Reply}
    (hxs : s.expanders.map Expander.unlatched = xs.map Expander.unlatched)
    (h : s.move m = some (reply, s')) :
    m.tally xs (History.since Event.accepted? s.bus.history) reply =
      History.since Event.accepted? s'.bus.history := by
  rw [(leads_move h).since_eq]
  cases m with
  | shift platform => exact List.append_nil _
  | call limit c =>
    by_cases hc : c = .bringUp
    · subst c
      cases h
      rfl
    · have hentered : History.since Event.accepted?
          ((s.enteredBy (.call limit c) reply).reverse ++ s.bus.history) = _ :=
        since_entered hc reply s.bus.history
      rw [hentered, Call.submits_congr hxs]
      cases c <;> first | rfl | contradiction

/-- The callers count the requests accepted right. -/
theorem submissions_eq {xs : List Expander} {ms : List (Move σ)} {replies : List Reply}
    (hxs : s.expanders.map Expander.unlatched = xs.map Expander.unlatched)
    (h : s.run ms = some (replies, s')) :
    submissions xs (History.since Event.accepted? s.bus.history) ms replies =
      History.since Event.accepted? s'.bus.history := by
  induction ms generalizing s replies with
  | nil =>
    cases h
    rfl
  | cons m ms ih =>
    obtain ⟨reply, s₁, rest, hmove, hrun, rfl⟩ := run_cons_eq_some.1 h
    have hkept := (leads_move hmove).devices
    rw [submissions, tally_eq hxs hmove]
    exact ih (hkept.trans hxs) hrun

/-- Requests are begun and retired in the order in which they were accepted, each acceptance
once, and one at a time. -/
theorem served_in_order {platform : σ} {config : Config} {xs : List Expander}
    {ms : List (Move σ)} {replies : List Reply}
    (h : (create platform config xs).run ms = some (replies, s)) :
    let accepted := submissions xs [] ms replies
    let begun := History.since Event.begun? s.bus.history
    let retired := History.since Event.retired? s.bus.history
    let queue := s.bus.queue.toList
    accepted = retired ++ queue ∧ begun = retired ++ queue.head?.toList ∧
      retired <+: begun ∧ begun <+: accepted ∧ begun.length ≤ retired.length + 1 := by
  intro accepted begun retired queue
  have hs : s.bus.Coherent := coherent_run h (Bus.coherent_create platform config)
  have haccepted : accepted = retired ++ queue := by
    have hcount : accepted = History.since Event.accepted? s.bus.history := submissions_eq rfl h
    rw [hcount, hs.accepted_eq]
  have hbegun : begun = retired ++ queue.head?.toList := hs.begun_eq
  have hhead : queue.head?.toList <+: queue := by
    cases queue with
    | nil => exact List.prefix_refl _
    | cons r rest => exact List.prefix_append [r] rest
  have hone : queue.head?.toList.length ≤ 1 := by cases queue.head? <;> simp
  refine ⟨haccepted, hbegun, ?_, ?_, ?_⟩
  · rw [hbegun]
    exact List.prefix_append _ _
  · rw [hbegun, haccepted]
    exact (List.prefix_append_right_inj retired).2 hhead
  · rw [hbegun, List.length_append]
    omega

def pinBench : System Bench :=
  create (Bench.create 0 1) ⟨Config.standardMode, 0, .polled⟩ [.attach 0x20 8 4 0 1]

/-- The first request is submitted again once it has been served. -/
theorem served_in_order_twice :
    ∃ replies s, pinBench.run [.call 0 .bringUp, .call 0 (.submit 2), .call 0 (.submit 3),
        .call 0 .tick, .call 0 (.submit 2), .call 0 (.writePin 0 9 true)] = some (replies, s) ∧
      History.since Event.retired? s.bus.history = [2] ∧ s.bus.queue.toList = [3, 2, 0] ∧
      History.since Event.begun? s.bus.history = [2, 3] := by
  have hrun : ∃ replies s, pinBench.run [.call 0 .bringUp, .call 0 (.submit 2), .call 0 (.submit 3),
        .call 0 .tick, .call 0 (.submit 2), .call 0 (.writePin 0 9 true)] = some (replies, s) ∧
      History.since Event.retired? s.bus.history = [2] ∧ s.bus.queue.toList = [3, 2, 0] :=
    ⟨_, _, rfl, rfl, rfl⟩
  obtain ⟨replies, s, hrun, hretired, hqueue⟩ := hrun
  obtain ⟨-, hbegun, -⟩ := served_in_order hrun
  refine ⟨replies, s, hrun, hretired, hqueue, ?_⟩
  rw [hbegun, hretired, hqueue]
  rfl

end System

end SharedBus
