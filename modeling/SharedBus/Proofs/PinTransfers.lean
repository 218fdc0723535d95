import Mathlib.Data.List.Forall2
import SharedBus.Bench
import SharedBus.Proofs.Configuration

/-!
# The transfers of pin operations

The transfers begun on the bus, followed by those that wait to be begun, do the jobs that were
submitted, in the order of the submissions, as long as the bus is not brought up while requests
are queued. So an expander that alone submits transfers to its address has one for each of its
pin operations, whichever requests these share with others and however the transfers end: the
byte is what the device had latched when the operation returned. Once the bus is idle, the
last byte begun towards the device is what it has latched.
-/

namespace SharedBus

def Event.started? : Event → Option Transfer
  | .begun t => some t
  | .reset | .clockSet _ | .closed | .serviced .. | .broughtUp | .shutDown | .configured .. |
    .accepted _ | .retired .. | .recovered | .polled .. => none

/-! ### What was submitted, and what has become of it -/

namespace Ledger

variable {l : Ledger}

def unbegun (l : Ledger) : List RequestId :=
  match l.flight with
  | none => l.waiting
  | some _ => l.waiting.tail

def due (l : Ledger) : List Job := l.unbegun.map fun r => (l.requests r).command.job

theorem mem_waiting_of_unbegun {r : RequestId} (hr : r ∈ l.unbegun) : r ∈ l.waiting := by
  unfold unbegun at hr
  split at hr
  · exact hr
  · exact List.mem_of_mem_tail hr

/-- Jobs stay as they are until their requests are set up anew. -/
theorem map_job_after {e : Event} {rs : List RequestId} (he : ∀ r ∈ rs, ∀ c, e ≠ .configured r c) :
    rs.map (fun r => ((l.after e).requests r).command.job) =
      rs.map fun r => (l.requests r).command.job :=
  List.map_congr_left fun r hr => congrArg Command.job (command_after (he r hr))

theorem due_after {e : Event} (he : ∀ r ∈ l.unbegun, ∀ c, e ≠ .configured r c)
    (hunbegun : (l.after e).unbegun = l.unbegun) : (l.after e).due = l.due := by
  rw [due, hunbegun, map_job_after he, due]

end Ledger

namespace History

def begun (h : History) : List Transfer := (h.filterMap Event.started?).reverse

def submitted : History → List Job
  | [] => []
  | .accepted r :: h => submitted h ++ [Job.last r (jobs h)]
  | _ :: h => submitted h

/-- The bus was never brought up while requests waited. -/
def Unbroken : History → Prop
  | [] => True
  | .broughtUp :: h => (ledger h).waiting = [] ∧ Unbroken h
  | _ :: h => Unbroken h

theorem begun_cons (e : Event) (h : History) :
    begun (e :: h) = begun h ++ e.started?.toList := by
  cases he : e.started? with
  | none => rw [begun, List.filterMap_cons_none he, begun, Option.toList_none, List.append_nil]
  | some t => rw [begun, List.filterMap_cons_some he, List.reverse_cons, begun, Option.toList_some]

theorem begun_cons_of_none {e : Event} (he : e.started? = none) (h : History) :
    begun (e :: h) = begun h := by
  rw [begun_cons, he, Option.toList_none, List.append_nil]

/-- What was submitted has been begun or is due. -/
theorem Lawful.submitted_eq {h : History} (hl : Lawful h) (hu : Unbroken h) :
    submitted h = (begun h).map (·.command.job) ++ (ledger h).due := by
  induction h with
  | nil => rfl
  | cons e h ih =>
    have hquiet (hsubmitted : submitted (e :: h) = submitted h) (hu : Unbroken h)
        (hbegun : e.started? = none) (hdue : ((ledger h).after e).due = (ledger h).due) :
        submitted (e :: h) = (begun (e :: h)).map (·.command.job) ++ (ledger (e :: h)).due := by
      rw [hsubmitted, begun_cons_of_none hbegun, ledger_cons, hdue, ih hl.2 hu]
    cases e with
    | configured r c =>
      refine hquiet rfl hu rfl (Ledger.due_after (fun r' hr' c' he => ?_) rfl)
      cases he
      exact hl.1.2 (hl.2.sound.pending r (Ledger.mem_waiting_of_unbegun hr'))
    | serviced t actions t' =>
      obtain ⟨hflight, -, -⟩ := hl.1
      refine hquiet rfl hu rfl (Ledger.due_after (by simp) ?_)
      simp [Ledger.unbegun, Ledger.after, hflight]
    | retired t s =>
      have hflight : (ledger h).flight = some (t.stamp 0) := hl.1.1
      refine hquiet rfl hu rfl (Ledger.due_after (by simp) ?_)
      simp [Ledger.unbegun, Ledger.after, Ledger.wake, Ledger.setRequest, hflight]
    | broughtUp =>
      obtain ⟨hwaiting, hu⟩ := hu
      refine hquiet rfl hu rfl (Ledger.due_after (by simp) ?_)
      cases hflight : (ledger h).flight <;> simp [Ledger.unbegun, Ledger.after, hwaiting, hflight]
    | begun t =>
      obtain ⟨hfree, hhead, ht⟩ := hl.1
      obtain ⟨rest, hrest⟩ := List.head?_eq_some_iff.1 hhead
      have hdue : (ledger h).due = t.command.job :: ((ledger h).after (.begun t)).due := by
        rw [ht]
        simp [Ledger.due, Ledger.unbegun, Ledger.after, hfree, hrest, Transfer.ofCommand]
      rw [begun_cons, ledger_cons, List.map_append, List.append_assoc]
      exact (ih hl.2 hu).trans (congrArg _ hdue)
    | accepted r =>
      have hunbegun : ((ledger h).after (.accepted r)).unbegun = (ledger h).unbegun ++ [r] := by
        cases hflight : (ledger h).flight with
        | none => simp [Ledger.unbegun, Ledger.after, Ledger.setRequest, hflight]
        | some t =>
          have hwaiting := (hl.2.sound.carries t hflight).waiting_eq
          simp only [Ledger.unbegun, Ledger.after, Ledger.setRequest, hflight]
          rw [hwaiting, List.cons_append, List.tail_cons, List.tail_cons]
      have hdue : ((ledger h).after (.accepted r)).due =
          (ledger h).due ++ [Job.last r (jobs h)] := by
        rw [Ledger.due, hunbegun, Ledger.map_job_after (by simp), List.map_append, Ledger.due,
          ← job_ledger]
        rfl
      rw [begun_cons_of_none rfl, ledger_cons, hdue, ← List.append_assoc, ← ih hl.2 hu]
      rfl
    | reset | clockSet | closed | shutDown | recovered =>
      exact hquiet rfl hu rfl rfl
    | polled r m => exact hquiet rfl hu rfl (Ledger.due_after (by simp) rfl)

/-- What callers bring about decides what was submitted. -/
theorem submitted_append (added h : History) :
    submitted (added ++ h) = submitted (added.filter Event.byCaller ++ h) := by
  induction added with
  | nil => rfl
  | cons e added ih =>
    cases e with
    | accepted r =>
      have hjobs : jobs (added ++ h) = jobs (added.filter Event.byCaller ++ h) := by
        rw [jobs_append, jobs_append, jobs_filter_byCaller]
      rw [List.filter_cons_of_pos rfl, List.cons_append, List.cons_append, submitted, submitted, ih,
        hjobs]
    | broughtUp | shutDown | configured | polled =>
      rw [List.filter_cons_of_pos rfl, List.cons_append, List.cons_append, submitted, submitted, ih]
      all_goals simp
    | reset | clockSet | closed | begun | serviced | retired | recovered =>
      rw [List.filter_cons_of_neg (by simp [Event.byCaller]), List.cons_append, submitted, ih]
      simp

theorem Unbroken.append {added h : History} (hu : Unbroken h) (hadded : .broughtUp ∉ added) :
    Unbroken (added ++ h) := by
  induction added with
  | nil => exact hu
  | cons e added ih =>
    rw [List.mem_cons, not_or] at hadded
    cases e with
    | broughtUp => exact absurd rfl hadded.1
    | reset | clockSet | closed | begun | serviced | shutDown | configured | accepted | retired |
      recovered | polled => exact ih hadded.2

end History

namespace Bus

variable {σ : Type} {b : Bus σ}

def unbegun (b : Bus σ) : List RequestId :=
  if b.active.isSome then b.queue.toList.tail else b.queue.toList

theorem Accords.unbegun_eq (h : b.Accords) : b.unbegun = b.history.ledger.unbegun := by
  rw [unbegun, h.toList_eq, Ledger.unbegun, ← h.flight_eq]
  cases b.active <;> rfl

theorem unbegun_of_idle (h : b.Coherent) (hidle : b.isIdle = true) : b.unbegun = [] := by
  rw [isIdle, Bool.and_eq_true, Option.isNone_iff_eq_none, Option.isNone_iff_eq_none] at hidle
  obtain ⟨hhead, hfree⟩ := hidle
  rw [unbegun, hfree, h.toList_eq_nil_iff.2 hhead]
  rfl

theorem Accords.due_eq (h : b.Accords) :
    (b.unbegun.map b.transferFor).map (·.command.job) = b.history.ledger.due := by
  rw [h.unbegun_eq, List.map_map, Ledger.due, ← h.requests_eq]
  rfl

end Bus

/-! ### What pin operations ask for -/

def Call.Operates (i : Nat) : Call → Prop
  | .writePin j .. | .readPin j _ => j = i
  | .bringUp | .shutDown | .setClock _ | .setTimeout _ | .tick | .handleEvent | .submit _ |
    .write .. | .writeFixed .. | .read .. | .setWrite .. | .setWriteFixed .. | .setRead .. |
    .readInto .. | .wait _ | .complete _ | .poll _ | .selectClock _ | .describePins _ |
    .ownsPin .. => False

/-- The job that a pin operation of device `i` calls for, if the pin is one of the device's and
the call leaves the device as `y`. -/
def Call.asks (i : Nat) (y : Expander) : Call → Option Job
  | .writePin j pin _ => if j = i ∧ y.owns pin then some ⟨y.address, .write, [y.latch], 0⟩ else none
  | .readPin j pin =>
      if j = i ∧ y.owns pin then some ⟨y.address, .writeThenRead, [y.latch], 1⟩ else none
  | .bringUp | .shutDown | .setClock _ | .setTimeout _ | .tick | .handleEvent | .submit _ |
    .write .. | .writeFixed .. | .read .. | .setWrite .. | .setWriteFixed .. | .setRead .. |
    .readInto .. | .wait _ | .complete _ | .poll _ | .selectClock _ | .describePins _ |
    .ownsPin .. => none

theorem Call.asks_of_not_operates {i : Nat} {c : Call} (h : ¬ c.Operates i) (y : Expander) :
    c.asks i y = none := by
  cases c with
  | writePin | readPin => exact if_neg fun hj => h hj.1
  | bringUp | shutDown | setClock | setTimeout | tick | handleEvent | submit | write | writeFixed |
    read | setWrite | setWriteFixed | setRead | readInto | wait | complete | poll | selectClock |
    describePins | ownsPin => rfl

theorem Call.latches_of_not_operates {i : Nat} {c : Call} (h : ¬ c.Operates i)
    (xs : List Expander) : (c.latches xs)[i]? = xs[i]? := by
  cases c with
  | writePin j | readPin j =>
    have hne : j ≠ i := h
    cases hj : xs[j]? with
    | none => simp only [Call.latches, hj]
    | some x => simp only [Call.latches, hj, List.getElem?_set_ne hne]
  | bringUp | shutDown | setClock | setTimeout | tick | handleEvent | submit | write | writeFixed |
    read | setWrite | setWriteFixed | setRead | readInto | wait | complete | poll | selectClock |
    describePins | ownsPin => rfl

/-- The one byte asked for is the one latched. -/
theorem Call.data_of_asks {i : Nat} {y : Expander} {c : Call} {job : Job}
    (h : c.asks i y = some job) : job.address = y.address ∧ job.data = [y.latch] := by
  cases c with
  | writePin | readPin =>
    obtain ⟨-, hjob⟩ := Option.ite_none_right_eq_some.1 h
    cases hjob
    exact ⟨rfl, rfl⟩
  | bringUp | shutDown | setClock | setTimeout | tick | handleEvent | submit | write | writeFixed |
    read | setWrite | setWriteFixed | setRead | readInto | wait | complete | poll | selectClock |
    describePins | ownsPin => cases h

def Move.Operates {σ : Type} (i : Nat) : Move σ → Prop
  | .call _ c => c.Operates i
  | .shift _ => False

namespace Turn

variable {σ : Type}

def submitted? (p : Turn σ) : Option Job :=
  (p.move.accepted? p.before.expanders p.reply).map fun r => (p.after.bus.requests r).command.job

def asked? (i : Nat) (p : Turn σ) : Option Job :=
  match p.move with
  | .call _ c => p.after.expanders[i]?.bind fun y => c.asks i y
  | .shift _ => none

theorem asked?_of_not_operates {i : Nat} {p : Turn σ} (h : ¬ p.move.Operates i) :
    p.asked? i = none := by
  unfold asked?
  cases hm : p.move with
  | shift platform => rfl
  | call limit c =>
    rw [hm] at h
    cases hy : p.after.expanders[i]? with
    | none => rfl
    | some y => exact Call.asks_of_not_operates h y

theorem data_of_asked? {i : Nat} {p : Turn σ} {job : Job} (h : p.asked? i = some job)
    {y : Expander} (hy : p.after.expanders[i]? = some y) :
    job.address = y.address ∧ job.data = [y.latch] := by
  unfold asked? at h
  cases hm : p.move with
  | shift platform =>
    rw [hm] at h
    cases h
  | call limit c =>
    simp only [hm, hy, Option.bind_some] at h
    exact Call.data_of_asks h

/-- Whatever the turn submits to the address is submitted by a pin operation of device `i`, and
the bus is not brought up while requests are queued. -/
structure Reserves (p : Turn σ) (i : Nat) (address : UInt8) : Prop where
  submits : ∀ job, p.submitted? = some job → job.address = address → p.move.Operates i
  bringsUp : ∀ limit, p.move = .call limit .bringUp → p.before.bus.queued = 0

end Turn

namespace System

variable {σ : Type} {s s' : System σ} {reply : Reply}

/-- Of what a call enters at most the last is a submission. -/
theorem submitted_intent (c : Call) (h : History) :
    History.submitted ((s.intent c).reverse ++ h) = History.submitted h ++
      ((c.submits s.expanders).map fun r =>
        Job.last r (History.jobs ((s.intent c).reverse ++ h))).toList := by
  cases c with
  | poll i => cases hi : s.completions[i]? <;> simp [intent, hi, Call.submits, History.submitted]
  | writePin i | readPin i =>
    cases hi : s.expanders[i]? <;> simp [intent, hi, Call.submits, History.submitted]
  | bringUp | shutDown | setClock | setTimeout | tick | handleEvent | submit | write | writeFixed |
    read | setWrite | setWriteFixed | setRead | readInto | wait | complete | selectClock |
    describePins | ownsPin => simp [intent, Call.submits, History.submitted]

variable [Platform σ]

theorem Leads.submitted_eq {es : List Event} (h : s.Leads es s') :
    History.submitted s'.bus.history = History.submitted (es.reverse ++ s.bus.history) := by
  obtain ⟨as, hpath, rfl⟩ := h.path
  obtain ⟨added, hhistory, hadded⟩ := hpath.grows
  rw [hhistory, History.submitted_append, hadded]

omit [Platform σ] in
theorem job_request (hs : s.bus.Coherent) (r : RequestId) :
    (s.bus.requests r).command.job = Job.last r (History.jobs s.bus.history) := by
  rw [hs.requests_eq, History.job_ledger]

theorem submitted_move (hs : s.bus.Coherent) {m : Move σ} (h : s.move m = some (reply, s')) :
    History.submitted s'.bus.history = History.submitted s.bus.history ++
      (Turn.submitted? ⟨s, m, reply, s'⟩).toList := by
  have hjob := job_request (coherent_move h hs)
  have hleads := leads_move h
  rw [hleads.submitted_eq, Turn.submitted?]
  cases m with
  | shift platform => simp [enteredBy, Move.accepted?]
  | call limit c =>
    cases hg : reply.granted with
    | false => simp [enteredBy, entered, Move.accepted?, hg]
    | true =>
      have hentered : s.enteredBy (.call limit c) reply = s.intent c := if_pos hg
      rw [hentered] at hleads ⊢
      simp only [hjob, hleads.jobs_eq, ← History.jobs_append]
      rw [Move.accepted?, if_pos hg]
      exact submitted_intent c s.bus.history

theorem submitted_run (hs : s.bus.Coherent) {ms : List (Move σ)} {replies : List Reply}
    (h : s.run ms = some (replies, s')) :
    History.submitted s'.bus.history =
      History.submitted s.bus.history ++ (s.turns ms).filterMap Turn.submitted? := by
  induction ms generalizing s replies with
  | nil =>
    cases h
    rw [turns, List.filterMap_nil, List.append_nil]
  | cons m ms ih =>
    obtain ⟨reply, s₁, rest, hmove, hrun, -⟩ := run_cons_eq_some.1 h
    rw [ih (coherent_move hmove hs) hrun, submitted_move hs hmove, filterMap_turns_cons _ hmove,
      List.append_assoc]

theorem unbroken_move (hs : s.bus.Coherent) {m : Move σ} (h : s.move m = some (reply, s'))
    (hup : ∀ limit, m = .call limit .bringUp → s.bus.queued = 0)
    (hu : History.Unbroken s.bus.history) : History.Unbroken s'.bus.history := by
  by_cases hm : ∃ limit, m = .call limit .bringUp
  · obtain ⟨limit, rfl⟩ := hm
    have hempty := hs.queued_eq_zero_iff.1 (hup limit rfl)
    rw [← hs.toList_eq_nil_iff, hs.toList_eq] at hempty
    cases h
    exact ⟨hempty, hu⟩
  · obtain ⟨added, hhistory, hadded⟩ := history_move h
    rw [hhistory]
    refine hu.append fun hmem => hm ?_
    obtain ⟨limit, c, rfl, -, hintent⟩ := mem_enteredBy (hadded _ hmem rfl)
    obtain rfl : c = .bringUp := accounts_of_mem_intent hintent
    exact ⟨limit, rfl⟩

theorem unbroken_run (hs : s.bus.Coherent) {ms : List (Move σ)} {replies : List Reply}
    (h : s.run ms = some (replies, s'))
    (hup : ∀ p ∈ s.turns ms, ∀ limit, p.move = .call limit .bringUp → p.before.bus.queued = 0)
    (hu : History.Unbroken s.bus.history) : History.Unbroken s'.bus.history := by
  induction ms generalizing s replies with
  | nil =>
    cases h
    exact hu
  | cons m ms ih =>
    obtain ⟨reply, s₁, rest, hmove, hrun, -⟩ := run_cons_eq_some.1 h
    rw [turns_cons hmove, List.forall_mem_cons] at hup
    exact ih (coherent_move hmove hs) hrun hup.2 (unbroken_move hs hmove hup.1 hu)

/-! ### Pin operations of one device -/

variable {i : Nat} {x : Expander}

/-- Other moves leave the device as it is. -/
theorem device_move {m : Move σ} (h : s.move m = some (reply, s')) (hm : ¬ m.Operates i) :
    s'.expanders[i]? = s.expanders[i]? := by
  rw [expanders_move h]
  cases m with
  | shift platform => rfl
  | call limit c =>
    rw [Move.latched]
    split
    · exact Call.latches_of_not_operates hm s.expanders
    · rfl

/-- A pin operation is granted when the pin is one of the device's. -/
theorem granted_writePin {limit : Nat} {pin : UInt16} {level : Bool} (hx : s.expanders[i]? = some x)
    (h : s.perform limit (.writePin i pin level) = some (reply, s')) :
    reply.granted = x.owns pin := by
  simp only [perform, writePin, hx] at h
  obtain ⟨⟨result, x', b⟩, hwrite, hreply⟩ := Option.map_eq_some_iff.1 h
  cases hreply
  rcases Expander.writePin_eq_some hwrite with ⟨hown, rfl, -⟩ | ⟨hown, rfl, -⟩
  · rw [hown]
    rfl
  · rw [hown]
    rfl

theorem granted_readPin {limit : Nat} {pin : UInt16} (hx : s.expanders[i]? = some x)
    (h : s.perform limit (.readPin i pin) = some (reply, s')) : reply.granted = x.owns pin := by
  simp only [perform, readPin, hx] at h
  obtain ⟨⟨result, x', b⟩, hread, hreply⟩ := Option.map_eq_some_iff.1 h
  cases hreply
  rcases Expander.readPin_eq_some hread with ⟨hown, rfl, -⟩ | ⟨hown, hresult, -⟩
  · rw [hown]
    rfl
  · rw [hown]
    rcases hresult with ⟨high, rfl⟩ | ⟨status, rfl⟩ <;> rfl

/-- What a move has submitted is the job that it has given to the request. -/
theorem submitted?_of_gave (hs : s.bus.Coherent) {m : Move σ} (h : s.move m = some (reply, s'))
    {r : RequestId} {job : Job} (hr : m.accepted? s.expanders reply = some r)
    (hjob : m.gave? s.expanders reply = some (r, job)) :
    Turn.submitted? ⟨s, m, reply, s'⟩ = some job := by
  rw [Turn.submitted?, hr, Option.map_some, job_request (coherent_move h hs), jobs_move h, hjob,
    Option.toList_some, List.singleton_append, Job.last, if_pos rfl]

/-- The device `y` has latched what the turn submitted. If nothing was asked of it, it is as it
was. -/
structure Operated (x : Expander) (i : Nat) (p : Turn σ) (y : Expander) : Prop where
  device_eq : p.after.expanders[i]? = some y
  address_eq : y.address = x.address
  submitted_eq : p.submitted? = p.asked? i
  kept : p.asked? i = none → y = x

theorem operated_of_refused {limit : Nat} {c : Call} (h : s.move (.call limit c) = some (reply, s'))
    (hx : s.expanders[i]? = some x) (hg : reply.granted = false) (hasks : c.asks i x = none) :
    Operated x i ⟨s, .call limit c, reply, s'⟩ x := by
  have hkept : s'.expanders = s.expanders := by
    rw [expanders_move h, Move.latched, if_neg (by simp [hg])]
  have hdevice : s'.expanders[i]? = some x := by rw [hkept, hx]
  refine ⟨hdevice, rfl, ?_, fun _ => rfl⟩
  simp [Turn.submitted?, Turn.asked?, Move.accepted?, hg, hdevice, hasks]

theorem operated_of_granted (hs : s.bus.Coherent) {limit : Nat} {c : Call}
    (h : s.move (.call limit c) = some (reply, s')) (hx : s.expanders[i]? = some x)
    (hg : reply.granted = true) {y : Expander} (hlatches : c.latches s.expanders = s.expanders.set i y)
    (hy : y.address = x.address) {r : RequestId} {job : Job}
    (hsubmits : c.submits s.expanders = some r) (hgives : c.gives s.expanders = some (r, job))
    (hasks : c.asks i y = some job) : Operated x i ⟨s, .call limit c, reply, s'⟩ y := by
  obtain ⟨hi, -⟩ := List.getElem?_eq_some_iff.1 hx
  have hlatched : s'.expanders = s.expanders.set i y := by
    rw [expanders_move h, Move.latched, if_pos hg, hlatches]
  have hdevice : s'.expanders[i]? = some y := by rw [hlatched, List.getElem?_set_self hi]
  have hasked : Turn.asked? i ⟨s, .call limit c, reply, s'⟩ = some job := by
    simp [Turn.asked?, hdevice, hasks]
  refine ⟨hdevice, hy, ?_, fun hnone => ?_⟩
  · rw [hasked]
    apply submitted?_of_gave hs h (r := r)
    · rw [Move.accepted?, if_pos hg, hsubmits]
    · rw [Move.gave?, if_pos hg, hgives]
  · rw [hasked] at hnone
    cases hnone

/-- A pin operation submits what it asks for and latches it. On a pin that is not the device's it
does nothing. -/
theorem operated_move (hs : s.bus.Coherent) {m : Move σ} (h : s.move m = some (reply, s'))
    (hm : m.Operates i) (hx : s.expanders[i]? = some x) :
    ∃ y, Operated x i ⟨s, m, reply, s'⟩ y := by
  cases m with
  | shift platform => cases hm
  | call limit c =>
    cases c with
    | writePin j pin level =>
      obtain rfl : j = i := hm
      have hg := granted_writePin hx h
      cases hown : x.owns pin with
      | false => exact ⟨x, operated_of_refused h hx (hg.trans hown) (by simp [Call.asks, hown])⟩
      | true =>
        have hkept : (x.drive (x.bit pin) level).address = x.address ∧
            (x.drive (x.bit pin) level).owns pin = x.owns pin := by
          cases level <;> exact ⟨rfl, rfl⟩
        have hlatches : (Call.writePin j pin level).latches s.expanders =
            s.expanders.set j (x.drive (x.bit pin) level) := by
          simp only [Call.latches, hx]
        have hsubmits : (Call.writePin j pin level).submits s.expanders = some x.writeRequest := by
          rw [Call.submits, hx, Option.map_some]
        refine ⟨_, operated_of_granted hs h hx (hg.trans hown) hlatches hkept.1 hsubmits
          (Call.gives_writePin hx pin level) ?_⟩
        simp [Call.asks, hkept, hown, Job.write]
    | readPin j pin =>
      obtain rfl : j = i := hm
      have hg := granted_readPin hx h
      cases hown : x.owns pin with
      | false => exact ⟨x, operated_of_refused h hx (hg.trans hown) (by simp [Call.asks, hown])⟩
      | true =>
        have hkept : (x.raise (x.bit pin)).address = x.address ∧
            (x.raise (x.bit pin)).owns pin = x.owns pin := ⟨rfl, rfl⟩
        have hlatches : (Call.readPin j pin).latches s.expanders =
            s.expanders.set j (x.raise (x.bit pin)) := by
          simp only [Call.latches, hx]
        have hsubmits : (Call.readPin j pin).submits s.expanders = some x.readRequest := by
          rw [Call.submits, hx, Option.map_some]
        refine ⟨_, operated_of_granted hs h hx (hg.trans hown) hlatches hkept.1 hsubmits
          (Call.gives_readPin hx pin) ?_⟩
        simp [Call.asks, hkept, hown, Job.read]
    | bringUp | shutDown | setClock | setTimeout | tick | handleEvent | submit | write |
      writeFixed | read | setWrite | setWriteFixed | setRead | readInto | wait | complete |
      poll | selectClock | describePins | ownsPin => cases hm

/-- What a turn submits to the address of the device is what is asked of the device. -/
theorem exists_device_move (hs : s.bus.Coherent) {m : Move σ} (h : s.move m = some (reply, s'))
    (hx : s.expanders[i]? = some x)
    (hm : Turn.Reserves ⟨s, m, reply, s'⟩ i x.address) :
    ∃ y, s'.expanders[i]? = some y ∧ y.address = x.address ∧
      (Turn.asked? i ⟨s, m, reply, s'⟩ = none → y = x) ∧
      (Turn.submitted? ⟨s, m, reply, s'⟩).toList.filter (·.address = x.address) =
        (Turn.asked? i ⟨s, m, reply, s'⟩).toList := by
  by_cases hop : m.Operates i
  · obtain ⟨y, hy⟩ := operated_move hs h hop hx
    refine ⟨y, hy.device_eq, hy.address_eq, hy.kept, ?_⟩
    rw [hy.submitted_eq]
    cases hjob : Turn.asked? i ⟨s, m, reply, s'⟩ with
    | none => rfl
    | some job =>
      have hdata := Turn.data_of_asked? hjob hy.device_eq
      simp [hdata.1, hy.address_eq]
  · have hasked : Turn.asked? i ⟨s, m, reply, s'⟩ = none := Turn.asked?_of_not_operates hop
    refine ⟨x, (device_move h hop).trans hx, rfl, fun _ => rfl, ?_⟩
    rw [hasked, Option.toList_none, List.filter_eq_nil_iff]
    intro job hjob haddress
    exact hop (hm.submits job (Option.mem_toList.1 hjob) (by simpa using haddress))

theorem filter_submitted_run (hs : s.bus.Coherent) {ms : List (Move σ)} {replies : List Reply}
    (h : s.run ms = some (replies, s')) (hx : s.expanders[i]? = some x)
    (hms : ∀ p ∈ s.turns ms, p.Reserves i x.address) :
    ((s.turns ms).filterMap Turn.submitted?).filter (·.address = x.address) =
      (s.turns ms).filterMap (Turn.asked? i) := by
  induction ms generalizing s x replies with
  | nil => rfl
  | cons m ms ih =>
    obtain ⟨reply, s₁, rest, hmove, hrun, -⟩ := run_cons_eq_some.1 h
    rw [turns_cons hmove, List.forall_mem_cons] at hms
    obtain ⟨y, hy, haddress, -, hasked⟩ := exists_device_move hs hmove hx hms.1
    rw [filterMap_turns_cons _ hmove, filterMap_turns_cons _ hmove, List.filter_append, hasked,
      ← haddress, ih (coherent_move hmove hs) hrun hy (haddress ▸ hms.2)]

/-- The device has latched the byte of the last pin operation that asked for a job. -/
theorem latch_run (hs : s.bus.Coherent) {ms : List (Move σ)} {replies : List Reply}
    (h : s.run ms = some (replies, s')) (hx : s.expanders[i]? = some x)
    (hms : ∀ p ∈ s.turns ms, p.Reserves i x.address) :
    ∃ y, s'.expanders[i]? = some y ∧
      (((s.turns ms).filterMap (Turn.asked? i)).getLast?.map Job.data).getD [x.latch] =
        [y.latch] := by
  induction ms generalizing s x replies with
  | nil =>
    cases h
    exact ⟨x, hx, rfl⟩
  | cons m ms ih =>
    obtain ⟨reply, s₁, rest, hmove, hrun, -⟩ := run_cons_eq_some.1 h
    rw [turns_cons hmove, List.forall_mem_cons] at hms
    obtain ⟨y, hy, haddress, hkept, -⟩ := exists_device_move hs hmove hx hms.1
    obtain ⟨z, hz, hlatch⟩ := ih (coherent_move hmove hs) hrun hy (haddress ▸ hms.2)
    refine ⟨z, hz, ?_⟩
    rw [filterMap_turns_cons _ hmove, ← hlatch]
    cases hjob : Turn.asked? i ⟨s, m, reply, s₁⟩ with
    | none => rw [hkept hjob, Option.toList_none, List.nil_append]
    | some job =>
      have hdata := Turn.data_of_asked? hjob hy
      rw [Option.toList_some, List.singleton_append, List.getLast?_cons, ← hdata.2]
      cases ((s₁.turns ms).filterMap (Turn.asked? i)).getLast? <;> rfl

omit [Platform σ] in
/-- A transfer presents its own job to the hardware, when it is begun or waits to be. -/
theorem presents_own_job (hs : s.bus.Coherent) {t : Transfer}
    (ht : t ∈ History.begun s.bus.history ++ s.bus.unbegun.map s.bus.transferFor) :
    t.Presents t.command.job := by
  rcases List.mem_append.1 ht with ht | ht
  · rw [History.begun, List.mem_reverse, List.mem_filterMap] at ht
    obtain ⟨e, he, hstarted⟩ := ht
    obtain ⟨later, earlier, hsplit⟩ := List.append_of_mem he
    cases e with
    | begun u =>
      obtain rfl : u = t := Option.some.inj hstarted
      have hl : History.Lawful (.begun u :: earlier) := (hsplit ▸ hs.lawful).of_append
      rw [hl.begun_eq_ofCommand]
      exact Transfer.presents_ofCommand _ _
    | reset | clockSet | closed | serviced | broughtUp | shutDown | configured | accepted | retired |
      recovered | polled => cases hstarted
  · obtain ⟨r, -, rfl⟩ := List.mem_map.1 ht
    exact Transfer.presents_ofCommand _ _

/-- The transfers begun towards a device that has its address for itself, followed by those that
wait, are those that its pin operations asked for, one for each and in the order of the calls.
Once the bus is idle, the last one carries what the device has latched. -/
theorem pin_operations_in_order {platform : σ} {config : Config} {xs : List Expander}
    {ms : List (Move σ)} {replies : List Reply}
    (h : (create platform config xs).run ms = some (replies, s)) (hx : xs[i]? = some x)
    (hms : ∀ p ∈ (create platform config xs).turns ms, p.Reserves i x.address) :
    List.Forall₂ Transfer.Presents
        ((History.begun s.bus.history ++ s.bus.unbegun.map s.bus.transferFor).filter
          (·.command.address = x.address))
        (((create platform config xs).turns ms).filterMap (Turn.asked? i)) ∧
      (s.bus.isIdle = true → ((create platform config xs).turns ms).filterMap (Turn.asked? i) ≠ [] →
        ∃ y t, s.expanders[i]? = some y ∧ t.command.data = [y.latch] ∧
          ((History.begun s.bus.history).filter (·.command.address = x.address)).getLast? =
            some t) := by
  have hcreated := Bus.coherent_create platform config
  have hs : s.bus.Coherent := coherent_run h hcreated
  have hunbroken : History.Unbroken s.bus.history :=
    unbroken_run hcreated h (fun p hp => (hms p hp).bringsUp) trivial
  have hsubmitted : ((create platform config xs).turns ms).filterMap Turn.submitted? =
      (History.begun s.bus.history ++ s.bus.unbegun.map s.bus.transferFor).map
        (·.command.job) := by
    rw [List.map_append, hs.due_eq, ← hs.lawful.submitted_eq hunbroken, submitted_run hcreated h]
    rfl
  have hasked : ((create platform config xs).turns ms).filterMap (Turn.asked? i) =
      ((History.begun s.bus.history ++ s.bus.unbegun.map s.bus.transferFor).filter
        (·.command.address = x.address)).map (·.command.job) := by
    rw [← filter_submitted_run hcreated h hx hms, hsubmitted, List.filter_map]
    rfl
  refine ⟨?_, fun hidle hne => ?_⟩
  · rw [hasked, List.forall₂_map_right_iff, List.forall₂_same]
    intro t ht
    exact presents_own_job hs (List.mem_of_mem_filter ht)
  · obtain ⟨y, hy, hlatch⟩ := latch_run hcreated h hx hms
    rw [Bus.unbegun_of_idle hs hidle, List.map_nil, List.append_nil] at hasked
    rw [hasked, List.getLast?_map] at hlatch
    rw [hasked, ne_eq, List.map_eq_nil_iff] at hne
    have hlast := List.getLast?_eq_some_getLast hne
    rw [hlast] at hlatch
    exact ⟨y, _, hy, hlatch, hlast⟩

def sharingDevices : List Expander := [.attach 0x20 0 8 1 1, .attach 0x21 8 8 1 2]

def sharingMoves : List (Move Bench) :=
  [.call 0 .bringUp, .call 2 (.writePin 0 3 true), .call 2 (.writePin 1 9 true),
    .call 2 (.readPin 0 2)]

theorem pin_operations_in_order_sharing :
    ∃ replies s y t, (create (Bench.create 0 0) ⟨Config.standardMode, 0, .polled⟩
        sharingDevices).run sharingMoves = some (replies, s) ∧
      s.expanders[0]? = some y ∧ t.command.data = [y.latch] ∧ y.latch = 0b1100 ∧
      ((History.begun s.bus.history).filter (·.command.address = 0x20)).getLast? = some t := by
  have hrun : ∃ replies s, (create (Bench.create 0 0) ⟨Config.standardMode, 0, .polled⟩
        sharingDevices).run sharingMoves = some (replies, s) ∧ s.bus.isIdle = true ∧
      s.expanders[0]?.map Expander.latch = some 0b1100 := ⟨_, _, rfl, rfl, rfl⟩
  have hturns : ∀ p ∈ (create (Bench.create 0 0) ⟨Config.standardMode, 0, .polled⟩
      sharingDevices).turns sharingMoves, p.Reserves 0 0x20 := by
    refine List.forall_mem_cons.2 ⟨?_, List.forall_mem_cons.2 ⟨?_, List.forall_mem_cons.2 ⟨?_,
      List.forall_mem_cons.2 ⟨?_, List.forall_mem_nil _⟩⟩⟩⟩
    · refine ⟨fun job hjob => ?_, fun limit _ => rfl⟩
      cases hjob
    · exact ⟨fun job _ _ => rfl, fun limit hm => by cases hm⟩
    · refine ⟨fun job hjob haddress => ?_, fun limit hm => by cases hm⟩
      obtain rfl := Option.some.inj hjob
      cases haddress
    · exact ⟨fun job _ _ => rfl, fun limit hm => by cases hm⟩
  obtain ⟨replies, s, hrun, hidle, hlatch⟩ := hrun
  obtain ⟨-, hlast⟩ := pin_operations_in_order (i := 0) hrun rfl hturns
  obtain ⟨y, t, hy, hdata, ht⟩ := hlast hidle (List.cons_ne_nil _ _)
  rw [hy] at hlatch
  exact ⟨replies, s, y, t, hrun, hy, hdata, Option.some.inj hlatch, ht⟩

end System

end SharedBus
