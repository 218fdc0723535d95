import SharedBus.Bench
import SharedBus.Proofs.Transcript

/-!
# Service between the calls of a caller

To service the bus is to handle hardware events and to tick, while the platform goes its own
way. Service does not look at a request outside the queue and leaves it as it is. So a caller
who sets up an idle request may do so before the bus is serviced or after it, and service
that comes between the two halves of a submission does what it would have done before both:
the request is not begun, retired or lost, and it is queued once.
-/

namespace SharedBus

/-- What the interrupt side does, or the platform by itself. -/
inductive Service (σ : Type) where
  | event
  | tick
  | shift (platform : σ)

def Service.move {σ : Type} : Service σ → Move σ
  | .event => .call 0 .handleEvent
  | .tick => .call 0 .tick
  | .shift platform => .shift platform

def Call.setsUp : Call → Option RequestId
  | .setWrite r .. | .setWriteFixed r .. | .setRead r .. => some r
  | .bringUp | .shutDown | .setClock _ | .setTimeout _ | .tick | .handleEvent | .submit _ |
    .write .. | .writeFixed .. | .read .. | .readInto .. | .wait _ | .complete _ | .poll _ |
    .selectClock _ | .describePins _ | .ownsPin .. | .writePin .. | .readPin .. => none

/-- Only who is accepted is begun and retired. -/
theorem History.Lawful.undisturbed {added h : History} {r : RequestId}
    (hl : Lawful (added ++ h)) (hr : (outcome r h).1 ≠ .pending) (hadded : .accepted r ∉ added) :
    ∀ e ∈ added, e.accepted? ≠ some r ∧ e.begun? ≠ some r ∧ e.retired? ≠ some r := by
  intro e he
  obtain ⟨later, earlier, rfl⟩ := List.append_of_mem he
  rw [List.append_assoc, List.cons_append] at hl
  obtain ⟨hallowed, hbefore⟩ := hl.of_append
  rw [List.mem_append, List.mem_cons, not_or, not_or] at hadded
  have hidle : (outcome r (earlier ++ h)).1 ≠ .pending := by
    rwa [hbefore.outcome_append hr hadded.2.2]
  cases e with
  | accepted r' =>
    have hne : r' ≠ r := by
      rintro rfl
      exact hadded.2.1 rfl
    simpa [Event.accepted?, Event.begun?, Event.retired?] using hne
  | begun t =>
    have hne : t.request ≠ r := by
      rintro rfl
      apply hidle
      rw [← outcome_ledger]
      exact hbefore.sound.pending _ (List.mem_of_mem_head? hallowed.2.1)
    simpa [Event.accepted?, Event.begun?, Event.retired?] using hne
  | retired t s =>
    have hne : t.request ≠ r := by
      rintro rfl
      exact hidle (hbefore.serving hallowed.1).2
    simpa [Event.accepted?, Event.begun?, Event.retired?] using hne
  | reset | clockSet | closed | serviced | broughtUp | shutDown | configured | recovered | polled =>
    simp [Event.accepted?, Event.begun?, Event.retired?]

namespace Bus

variable {σ : Type} {b : Bus σ} {r : RequestId}

/-! ### Requests out of reach -/

def amend (b : Bus σ) (r : RequestId) (q : Request) (h : History) : Bus σ :=
  { b.setRequest r q with history := h }

theorem amend_self (b : Bus σ) (r : RequestId) : b.amend r (b.requests r) b.history = b := by
  have hrequests : (fun s => if s = r then b.requests r else b.requests s) = b.requests := by
    funext s
    split <;> simp_all
  rw [amend, setRequest, hrequests]

/-- What `f` does to `b` it does whatever `r` holds and whatever has happened, and it leaves `r`
and the past as they are but for what it adds. -/
def Overlooks (f : Bus σ → Bus σ) (b : Bus σ) (r : RequestId) : Prop :=
  ∃ added, ∀ q h, f (b.amend r q h) = (f b).amend r q (added ++ h)

namespace Overlooks

variable {f g : Bus σ → Bus σ}

theorem of_field (hf : ∀ q h, f (b.amend r q h) = (f b).amend r q h) : Overlooks f b r :=
  ⟨[], hf⟩

theorem trans (hf : Overlooks f b r) (hg : Overlooks g (f b) r) : Overlooks (g ∘ f) b r := by
  obtain ⟨first, hf⟩ := hf
  obtain ⟨second, hg⟩ := hg
  refine ⟨second ++ first, fun q h => ?_⟩
  rw [Function.comp_apply, hf, hg, List.append_assoc, Function.comp_apply]

theorem congr (hf : Overlooks f b r) (hg : ∀ q h, g (b.amend r q h) = f (b.amend r q h)) :
    Overlooks g b r := by
  obtain ⟨added, hf⟩ := hf
  have hself := hg (b.requests r) b.history
  rw [amend_self] at hself
  exact ⟨added, fun q h => by rw [hg, hf, hself]⟩

theorem requests_eq (hf : Overlooks f b r) : (f b).requests r = b.requests r := by
  obtain ⟨added, hf⟩ := hf
  have hself := hf (b.requests r) b.history
  rw [amend_self] at hself
  have hrequest := congrArg (fun b' => b'.requests r) hself
  exact hrequest.trans (requests_setRequest_self _ _ _)

end Overlooks

theorem retireActive_overlooks (hr : b.active.map Transfer.request ≠ some r)
    (status : Option Status) : Overlooks (retireActive · status) b r := by
  cases ht : b.active with
  | none =>
    refine .of_field fun q h => ?_
    have hfree : (b.amend r q h).active = none := ht
    simp only [b.retireActive_of_free ht, retireActive_of_free _ hfree]
  | some t =>
    have hne : t.request ≠ r := by
      rintro rfl
      exact hr (by rw [ht, Option.map_some])
    have hserved (q : Request) (h : History) :
        (b.amend r q h).requests t.request = b.requests t.request :=
      requests_setRequest_of_ne b q hne
    refine ⟨[.retired t (status.getD t.status)], fun q h => ?_⟩
    have hactive : (b.amend r q h).active = some t := ht
    simp only [retireActive_of_active _ hactive, b.retireActive_of_active ht, hserved]
    simp only [amend, setRequest, List.cons_append, List.nil_append, mk.injEq, true_and, and_true]
    funext s
    by_cases hs : s = r
    · rw [if_neg (by rw [hs]; exact hne.symm), if_pos hs, if_pos hs]
    · simp only [if_neg hs]

variable [Platform σ]

theorem startNext_overlooks (hr : b.queue.head ≠ some r) : Overlooks startNext b r := by
  cases hfree : b.active with
  | some t =>
    have hactive : b.active ≠ none := by simp [hfree]
    refine .of_field fun q h => ?_
    have hactive' : (b.amend r q h).active ≠ none := hactive
    rw [b.startNext_of_active hactive, startNext_of_active _ hactive']
  | none =>
    cases hhead : b.queue.head with
    | none =>
      refine .of_field fun q h => ?_
      have hempty : (b.amend r q h).queue.head = none := hhead
      rw [b.startNext_of_empty hhead, startNext_of_empty _ hempty]
    | some s =>
      have hne : s ≠ r := by
        rintro rfl
        exact hr hhead
      refine ⟨[.begun (b.transferFor s)], fun q h => ?_⟩
      have hbegun : (b.amend r q h).transferFor s = b.transferFor s := by
        rw [transferFor, transferFor]
        exact congrArg (fun p => Transfer.ofCommand s p.command) (requests_setRequest_of_ne b q hne)
      have hstarted := (b.amend r q h).startNext_of_waiting hfree hhead
      rw [hstarted, b.startNext_of_waiting hfree hhead, hbegun]
      rfl

theorem serviced_overlooks (b : Bus σ) (t : Transfer) (r : RequestId) :
    Overlooks (serviced · t) b r :=
  ⟨[.serviced t (b.eventActions t) (t.advance (b.eventActions t))], fun _ _ => rfl⟩

namespace Coherent

variable {t : Transfer}

omit [Platform σ] in
theorem active_ne (h : b.Coherent) (hr : r ∉ b.queue.toList) :
    b.active.map Transfer.request ≠ some r := by
  rw [h.active_request, ← h.head?_toList]
  exact fun hhead => hr (List.mem_of_mem_head? hhead)

omit [Platform σ] in
theorem head_popFront_ne (h : b.Coherent) (hr : r ∉ b.queue.toList) :
    b.queue.popFront.head ≠ some r := by
  rw [h.chains.popFront.head_eq]
  rw [h.toList_eq] at hr
  exact fun hhead => hr (List.mem_of_mem_tail (List.mem_of_mem_head? hhead))

theorem handleEvent_overlooks (h : b.Coherent) (hr : r ∉ b.queue.toList) :
    Overlooks Bus.handleEvent b r := by
  cases ht : b.active with
  | none =>
    have hnothing : Overlooks id b r := .of_field fun _ _ => rfl
    exact hnothing.congr fun q past => handleEvent_of_free _ ht
  | some t =>
    have hactive (q : Request) (past : History) : (b.amend r q past).active = some t := ht
    have hserviced := b.serviced_overlooks t r
    by_cases hs : (t.advance (b.eventActions t)).status = .pending
    · exact hserviced.congr fun q past => (handleEvent_of_active _ (hactive q past)).trans (if_pos hs)
    · have hne : (b.serviced t).active.map Transfer.request ≠ some r := by
        have hsame := h.active_ne hr
        rw [ht] at hsame
        simpa [Bus.serviced] using hsame
      have hretired := hserviced.trans (retireActive_overlooks hne none)
      have hhead : ((b.serviced t).retireActive none).queue.head ≠ some r := by
        rw [retireActive_of_active _ rfl]
        exact h.head_popFront_ne hr
      exact (hretired.trans (startNext_overlooks hhead)).congr fun q past =>
        (handleEvent_of_active _ (hactive q past)).trans (if_neg hs)

theorem recover_overlooks (h : b.Coherent) (hr : r ∉ b.queue.toList) (ht : b.active = some t) :
    Overlooks Bus.recover b r := by
  have hretired := retireActive_overlooks (h.active_ne hr) (some .timeout)
  have hreset : Overlooks (fun b => b.closePlatform.resetPlatform.applyClock)
      (b.retireActive (some .timeout)) r :=
    ⟨[.clockSet (b.retireActive (some .timeout)).config.clock, .reset, .closed], fun _ _ => rfl⟩
  have hhead : b.reclaimed.queue.head ≠ some r := by
    have hqueue : b.reclaimed.queue = b.queue.popFront :=
      congrArg queue (b.retireActive_of_active ht (some .timeout))
    rw [hqueue]
    exact h.head_popFront_ne hr
  have hcounted : Overlooks (fun b => { b with recoveries := b.recoveries + 1 }.note .recovered)
      b.reclaimed.startNext r := ⟨[.recovered], fun _ _ => rfl⟩
  exact (((hretired.trans hreset).trans (startNext_overlooks hhead)).trans hcounted).congr
    fun _ _ => rfl

theorem checkTimeout_overlooks (h : b.Coherent) (hr : r ∉ b.queue.toList) :
    Overlooks Bus.checkTimeout b r := by
  have hnothing : Overlooks id b r := .of_field fun _ _ => rfl
  have hread : Overlooks (fun b => b.readClock.2) b r := .of_field fun _ _ => rfl
  by_cases hlimit : b.config.timeout = 0
  · exact hnothing.congr fun q past => (checkTimeout_eq _).trans (if_pos hlimit)
  cases ho : b.overdue? with
  | none =>
    refine hread.congr fun q past => ?_
    rw [checkTimeout_eq]
    exact (if_neg hlimit).trans (if_pos ho)
  | some t =>
    have hlate : b.overdue? ≠ none := by simp [ho]
    have ht := (overdue?_eq_some_iff.1 ho).1
    refine (hread.trans (h.readClock.recover_overlooks hr ht)).congr fun q past => ?_
    rw [checkTimeout_eq]
    exact (if_neg hlimit).trans (if_neg hlate)

end Coherent

/-! ### Service -/

def serve (b : Bus σ) : Service σ → Bus σ
  | .event => b.handleEvent
  | .tick => b.tick
  | .shift platform => { b with platform := platform }

def serveAll (b : Bus σ) (service : List (Service σ)) : Bus σ := service.foldl serve b

theorem path_serve (b : Bus σ) (x : Service σ) :
    ∃ as, Path b as (b.serve x) ∧ as.filterMap Act.entry = [] := by
  cases x with
  | event => exact ⟨[.handleEvent], .single rfl, rfl⟩
  | tick => exact b.path_tick
  | shift platform => exact ⟨[.shift platform], .single rfl, rfl⟩

theorem path_serveAll (b : Bus σ) (service : List (Service σ)) :
    ∃ as, Path b as (b.serveAll service) ∧ as.filterMap Act.entry = [] := by
  induction service generalizing b with
  | nil => exact ⟨[], .nil b, rfl⟩
  | cons x service ih =>
    obtain ⟨as, hpath, has⟩ := b.path_serve x
    obtain ⟨as', hpath', has'⟩ := ih (b.serve x)
    refine ⟨as ++ as', hpath.trans hpath', ?_⟩
    rw [List.filterMap_append, has, has', List.append_nil]

theorem submit_of_arm {b' : Bus σ} (h : b.arm r = .ok b') : b.submit r = .ok (b'.enqueue r) := by
  rw [submit, h]
  rfl

namespace Coherent

theorem toList_serve (h : b.Coherent) (x : Service σ) :
    ∃ k, (b.serve x).queue.toList = b.queue.toList.drop k := by
  cases x with
  | event =>
    cases ht : b.active with
    | none => exact ⟨0, by rw [serve, b.handleEvent_of_free ht, List.drop_zero]⟩
    | some t =>
      have hevent := h.toList_handleEvent ht
      split at hevent
      · exact ⟨0, by rw [serve, hevent, List.drop_zero]⟩
      · exact ⟨1, by rw [serve, hevent, List.drop_one]⟩
  | tick => exact h.toList_tick
  | shift platform => exact ⟨0, rfl⟩

theorem not_mem_serve (h : b.Coherent) (hr : r ∉ b.queue.toList) (x : Service σ) :
    r ∉ (b.serve x).queue.toList := by
  obtain ⟨k, hk⟩ := h.toList_serve x
  rw [hk]
  exact fun hmem => hr (List.mem_of_mem_drop hmem)

theorem serve (h : b.Coherent) (x : Service σ) : (b.serve x).Coherent := by
  obtain ⟨as, hpath, -⟩ := b.path_serve x
  exact hpath.coherent h

theorem tick_overlooks (h : b.Coherent) (hr : r ∉ b.queue.toList) : Overlooks Bus.tick b r := by
  cases hd : b.config.delivery with
  | polled =>
    have hevent := h.handleEvent_overlooks hr
    have hcheck := h.handleEvent.checkTimeout_overlooks (h.not_mem_serve hr .event)
    refine (hevent.trans hcheck).congr fun q past => ?_
    have hpolled : (b.amend r q past).config.delivery = .polled := hd
    rw [Bus.tick, hpolled, Function.comp_apply]
  | interrupt =>
    refine (h.checkTimeout_overlooks hr).congr fun q past => ?_
    have hinterrupt : (b.amend r q past).config.delivery = .interrupt := hd
    rw [Bus.tick, hinterrupt]

theorem serve_overlooks (h : b.Coherent) (hr : r ∉ b.queue.toList) (x : Service σ) :
    Overlooks (Bus.serve · x) b r := by
  cases x with
  | event => exact h.handleEvent_overlooks hr
  | tick => exact h.tick_overlooks hr
  | shift platform => exact .of_field fun _ _ => rfl

theorem serveAll_overlooks (h : b.Coherent) (hr : r ∉ b.queue.toList) (service : List (Service σ)) :
    Overlooks (serveAll · service) b r := by
  induction service generalizing b with
  | nil => exact .of_field fun _ _ => rfl
  | cons x service ih =>
    exact ((h.serve_overlooks hr x).trans (ih (h.serve x) (h.not_mem_serve hr x))).congr
      fun _ _ => rfl

theorem idle_serveAll (h : b.Coherent) (hr : (b.requests r).status ≠ .pending)
    (service : List (Service σ)) :
    r ∉ b.queue.toList ∧ (b.serveAll service).requests r = b.requests r ∧
      ∃ added, (b.serveAll service).history = added ++ b.history ∧
        ∀ q past, (b.amend r q past).serveAll service =
          (b.serveAll service).amend r q (added ++ past) := by
  have hout : r ∉ b.queue.toList := h.toList_eq ▸ h.not_mem_waiting hr
  have hoverlooks := h.serveAll_overlooks hout service
  have hkept := hoverlooks.requests_eq
  obtain ⟨added, hadded⟩ := hoverlooks
  have hself := hadded (b.requests r) b.history
  rw [amend_self] at hself
  exact ⟨hout, hkept, added, congrArg history hself, hadded⟩

omit [Platform σ] in
/-- A request out of the queue points nowhere already. -/
theorem arm_eq (h : b.Coherent) (hr : (b.requests r).status ≠ .pending) :
    b.arm r = .ok (b.amend r (b.requests r).armed b.history) := by
  rw [arm_of_idle hr, h.chains.link_none (h.not_mem_waiting hr)]
  rfl

end Coherent

/-- Between the halves of its submission `r` is pending, and service keeps its hands off it. In the
end it stands in the queue once, behind all others. -/
structure StaysApart (r : RequestId) (before between after : Bus σ) : Prop where
  pending : (between.requests r).status = .pending
  not_mem : r ∉ between.queue.toList
  undisturbed : ∃ added, between.history = added ++ before.history ∧
    ∀ e ∈ added, e.accepted? ≠ some r ∧ e.begun? ≠ some r ∧ e.retired? ≠ some r
  toList_eq : after.queue.toList = between.queue.toList ++ [r]
  nodup : after.queue.toList.Nodup

theorem Coherent.staysApart (h : b.Coherent) (hr : (b.requests r).status ≠ .pending)
    (service : List (Service σ)) :
    StaysApart r b
      ((b.serveAll service).amend r (b.requests r).armed (b.serveAll service).history)
      (((b.serveAll service).amend r (b.requests r).armed
        (b.serveAll service).history).enqueue r) := by
  obtain ⟨-, hkept, -⟩ := h.idle_serveAll hr service
  have hstill : ((b.serveAll service).requests r).status ≠ .pending := by rwa [hkept]
  obtain ⟨as, hpath, has⟩ := b.path_serveAll service
  have hserved : (b.serveAll service).Coherent := hpath.coherent h
  have hout := hserved.not_mem_waiting hstill
  have hpushed := hserved.chains.pushBack hout
  have hqueue : (((b.serveAll service).amend r (b.requests r).armed
      (b.serveAll service).history).enqueue r).queue = (b.serveAll service).queue.pushBack r :=
    queue_startNext _
  refine ⟨?_, hserved.toList_eq ▸ hout, ?_, ?_, ?_⟩
  · exact congrArg Request.status (requests_setRequest_self _ _ _)
  · obtain ⟨added, hhistory, hquiet⟩ := hpath.grows
    have hlawful : History.Lawful (added ++ b.history) := hhistory ▸ hserved.lawful
    have hidle : (History.outcome r b.history).1 ≠ .pending := h.status_eq_outcome r ▸ hr
    refine ⟨added, hhistory, hlawful.undisturbed hidle fun hmem => ?_⟩
    have hcaller : .accepted r ∈ added.filter Event.byCaller := List.mem_filter.2 ⟨hmem, rfl⟩
    rw [hquiet, has] at hcaller
    cases hcaller
  · rw [hqueue, hpushed.toList_eq, ← hserved.toList_eq]
    rfl
  · rw [hqueue, hpushed.toList_eq]
    exact hpushed.nodup

end Bus

namespace System

variable {σ : Type} {s : System σ} {r : RequestId}

/-- The two systems are the same but for where their histories tell of the callers. -/
structure Agrees (s s' : System σ) : Prop where
  state_eq : s'.withBus { s'.bus with history := s.bus.history } = s
  calls_eq : History.calls s'.bus.history = History.calls s.bus.history

variable [Platform σ]

theorem run_service (s : System σ) (service : List (Service σ)) :
    s.run (service.map Service.move) =
      some (List.replicate service.length .done, s.withBus (s.bus.serveAll service)) := by
  induction service generalizing s with
  | nil => rfl
  | cons x service ih =>
    rw [List.map_cons, run_cons_eq_some]
    refine ⟨.done, s.withBus (s.bus.serve x), _, ?_, ih _, rfl⟩
    cases x <;> rfl

theorem run_then_service {m : Move σ} {reply : Reply} {b : Bus σ}
    (h : s.move m = some (reply, s.withBus b)) (service : List (Service σ)) :
    s.run (m :: service.map Service.move) =
      some (reply :: List.replicate service.length .done, s.withBus (b.serveAll service)) :=
  run_cons_eq_some.2 ⟨_, _, _, h, run_service _ _, rfl⟩

theorem run_service_then {m : Move σ} {reply : Reply} {b : Bus σ} {service : List (Service σ)}
    (h : (s.withBus (s.bus.serveAll service)).move m = some (reply, s.withBus b)) :
    s.run (service.map Service.move ++ [m]) =
      some (List.replicate service.length .done ++ [reply], s.withBus b) :=
  run_append_eq_some.2 ⟨_, _, [reply], s.run_service service,
    run_cons_eq_some.2 ⟨_, _, [], h, rfl, rfl⟩, rfl⟩

/-- What sets up a request is a command, and the request decides whether it takes it. -/
theorem perform_setsUp {c : Call} (hc : c.setsUp = some r) :
    ∃ command, ∀ (s : System σ) limit,
      s.perform limit c = some (s.attempt (command >>= s.bus.configure r)) := by
  cases c with
  | setWrite r' address data =>
    cases hc
    exact ⟨Command.copying address data, fun _ _ => rfl⟩
  | setWriteFixed r' address data =>
    cases hc
    exact ⟨.ok (.writeFixed address data), fun _ _ => rfl⟩
  | setRead r' address length lead =>
    cases hc
    exact ⟨Command.reading address length lead, fun _ _ => rfl⟩
  | _ => cases hc

/-- Setting up an idle request before service or after it comes to the same. -/
theorem setsUp_commutes (hs : s.bus.Coherent) (hr : (s.bus.requests r).status ≠ .pending)
    (service : List (Service σ)) {c : Call} (hc : c.setsUp = some r) (limit : Nat) :
    ∃ reply s₁ s₂,
      s.run (.call limit c :: service.map Service.move) =
        some (reply :: List.replicate service.length .done, s₁) ∧
      s.run (service.map Service.move ++ [.call limit c]) =
        some (List.replicate service.length .done ++ [reply], s₂) ∧ s₁.Agrees s₂ := by
  obtain ⟨command, hperform⟩ := perform_setsUp (σ := σ) hc
  cases command with
  | error e =>
    have hfirst : s.move (.call limit c) = some (.error e, s.withBus s.bus) := hperform s limit
    have hlast : (s.withBus (s.bus.serveAll service)).move (.call limit c) =
        some (.error e, s.withBus (s.bus.serveAll service)) := hperform _ limit
    exact ⟨_, _, _, run_then_service hfirst service, run_service_then hlast, rfl, rfl⟩
  | ok command =>
    obtain ⟨-, hkept, added, hhistory, hamended⟩ := hs.idle_serveAll hr service
    have hstill : ((s.bus.serveAll service).requests r).status ≠ .pending := by rwa [hkept]
    have hfirst : s.move (.call limit c) = some (.ok, s.withBus (s.bus.amend r
        ((s.bus.requests r).configured command) (.configured r command :: s.bus.history))) := by
      refine (hperform s limit).trans ?_
      exact congrArg (fun x => some (s.attempt x)) (Bus.configure_of_idle hr command)
    have hlast : (s.withBus (s.bus.serveAll service)).move (.call limit c) =
        some (.ok, s.withBus ((s.bus.serveAll service).amend r
          ((s.bus.requests r).configured command)
          (.configured r command :: (s.bus.serveAll service).history))) := by
      refine (hperform _ limit).trans ?_
      rw [← hkept]
      exact congrArg (fun x => some ((s.withBus (s.bus.serveAll service)).attempt x))
        (Bus.configure_of_idle hstill command)
    have hserved := run_then_service hfirst service
    rw [hamended] at hserved
    refine ⟨_, _, _, hserved, run_service_then hlast, rfl, ?_⟩
    change History.calls (s.bus.serveAll service).history =
      History.calls (added ++ .configured r command :: s.bus.history)
    rw [hhistory, History.calls_append, History.calls_append]
    rfl

/-- To submit is to arm and then to enqueue, and what is serviced in between might have been
serviced before. -/
theorem submit_commutes (hs : s.bus.Coherent) (hr : (s.bus.requests r).status ≠ .pending)
    (service : List (Service σ)) :
    ∃ armed between, s.bus.arm r = .ok armed ∧
      (s.withBus armed).run (service.map Service.move) =
        some (List.replicate service.length .done, between) ∧
      (∀ limit, s.run (service.map Service.move ++ [.call limit (.submit r)]) =
        some (List.replicate service.length .done ++ [.ok],
          between.withBus (between.bus.enqueue r))) ∧
      Bus.StaysApart r s.bus between.bus (between.bus.enqueue r) := by
  obtain ⟨-, hkept, added, hhistory, hamended⟩ := hs.idle_serveAll hr service
  obtain ⟨as, hpath, -⟩ := s.bus.path_serveAll service
  have hserved : (s.bus.serveAll service).Coherent := hpath.coherent hs
  have hstill : ((s.bus.serveAll service).requests r).status ≠ .pending := by rwa [hkept]
  have harmed := hserved.arm_eq hstill
  rw [hkept] at harmed
  have hbetween := run_service (s.withBus (s.bus.amend r (s.bus.requests r).armed s.bus.history))
    service
  have hsame : (s.bus.amend r (s.bus.requests r).armed s.bus.history).serveAll service =
      (s.bus.serveAll service).amend r (s.bus.requests r).armed
        (s.bus.serveAll service).history := by
    rw [hamended, hhistory]
  have hbus : ((s.withBus (s.bus.amend r (s.bus.requests r).armed s.bus.history)).bus.serveAll
      service) = _ := hsame
  rw [hbus] at hbetween
  refine ⟨_, _, hs.arm_eq hr, hbetween, fun limit => ?_, hs.staysApart hr service⟩
  apply run_service_then
  exact congrArg (fun x => some (System.attempt _ x)) (Bus.submit_of_arm harmed)

/-- It does not matter whether an idle request is set up before the bus is serviced or after it,
nor where between the halves of its submission the bus is serviced. -/
theorem commutes_with_service {platform : σ} {config : Config} {xs : List Expander}
    {ms : List (Move σ)} {replies : List Reply}
    (h : (create platform config xs).run ms = some (replies, s))
    (hr : (s.bus.requests r).status ≠ .pending) (service : List (Service σ)) :
    ∃ dones served, s.run (service.map Service.move) = some (dones, served) ∧
      (∀ limit c, c.setsUp = some r → ∃ reply s₁ s₂,
        s.run (.call limit c :: service.map Service.move) = some (reply :: dones, s₁) ∧
        s.run (service.map Service.move ++ [.call limit c]) = some (dones ++ [reply], s₂) ∧
        s₁.Agrees s₂) ∧
      ∃ armed between, s.bus.arm r = .ok armed ∧
        (s.withBus armed).run (service.map Service.move) = some (dones, between) ∧
        (∀ limit, s.run (service.map Service.move ++ [.call limit (.submit r)]) =
          some (dones ++ [.ok], between.withBus (between.bus.enqueue r))) ∧
        Bus.StaysApart r s.bus between.bus (between.bus.enqueue r) := by
  have hs : s.bus.Coherent := coherent_run h (Bus.coherent_create platform config)
  exact ⟨_, _, s.run_service service, fun limit c hc => setsUp_commutes hs hr service hc limit,
    submit_commutes hs hr service⟩

/-- The event between the halves of the submission retires one request and begins another. -/
theorem commutes_with_service_retiring :
    ∃ replies s dones armed between,
      (create (Bench.create 0 0) Config.standard []).run
        [.call 0 .bringUp, .call 0 (.submit 1), .call 0 (.submit 2)] = some (replies, s) ∧
      (s.bus.requests 3).status ≠ .pending ∧ s.bus.arm 3 = .ok armed ∧
      (s.withBus armed).run [.call 0 .handleEvent] = some (dones, between) ∧
      s.run [.call 0 .handleEvent, .call 0 (.submit 3)] =
        some (dones ++ [.ok], between.withBus (between.bus.enqueue 3)) ∧
      (between.bus.enqueue 3).queue.toList = [2, 3] := by
  have hrun : ∃ replies s served, (create (Bench.create 0 0) Config.standard []).run
        [.call 0 .bringUp, .call 0 (.submit 1), .call 0 (.submit 2)] = some (replies, s) ∧
      (s.bus.requests 3).status = .ok ∧
      s.run [.call 0 .handleEvent, .call 0 (.submit 3)] = some ([.done, .ok], served) ∧
      served.bus.queue.toList = [2, 3] := ⟨_, _, _, rfl, rfl, rfl, rfl⟩
  obtain ⟨replies, s, served, hrun, hstatus, hserved, hqueue⟩ := hrun
  have hidle : (s.bus.requests 3).status ≠ .pending := by simp [hstatus]
  obtain ⟨dones, -, -, -, armed, between, harmed, hbetween, hsubmit, -⟩ :=
    commutes_with_service hrun hidle [.event]
  have hlast := hsubmit 0
  obtain ⟨-, hsame⟩ := Prod.mk.inj (Option.some.inj (hserved.symm.trans hlast))
  refine ⟨replies, s, dones, armed, between, hrun, hidle, harmed, hbetween, hlast, ?_⟩
  rw [hsame] at hqueue
  exact hqueue

end System

end SharedBus
