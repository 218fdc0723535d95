import SharedBus.Proofs.Run
import SharedBus.Bench

/-!
# Requests that were forgotten

Bringing the bus up empties the queue but leaves the requests in it pending. From
then on they are out of reach: they are not queued again, they keep all they hold
but their listener, and since they are never retired nobody who waits for one is
woken. The pending requests are those in the queue and those forgotten.
-/

namespace SharedBus

def Request.unheard (q : Request) : Request := { q with listener := none }

theorem Request.status_eq_of_unheard {q q' : Request} (h : q.unheard = q'.unheard) :
    q.status = q'.status := by
  have hstatus : q.unheard.status = q'.unheard.status := congrArg Request.status h
  exact hstatus

namespace Ledger

variable {l : Ledger} {e : Event} {r : RequestId}

/-- An event leaves alone what is pending and does not wait. -/
theorem unheard_after (hl : l.Sound) (he : l.Allows e) (hr : (l.requests r).status = .pending)
    (hw : r ∉ l.waiting) : ((l.after e).requests r).unheard = (l.requests r).unheard := by
  cases e with
  | reset | clockSet | closed | begun | serviced | broughtUp | shutDown | recovered => rfl
  | configured r' c =>
    have hne : r ≠ r' := by
      rintro rfl
      exact he.2 hr
    exact congrArg Request.unheard (l.requests_setRequest_of_ne _ hne)
  | accepted r' =>
    have hne : r ≠ r' := by
      rintro rfl
      exact he.2 hr
    exact congrArg Request.unheard (l.requests_setRequest_of_ne _ hne)
  | retired t s =>
    have hne : r ≠ t.request := by
      rintro rfl
      exact hw (hl.carries _ he.1).mem
    exact congrArg Request.unheard (l.requests_setRequest_of_ne _ hne)
  | polled r' m =>
    exact apply_setRequest (q := (l.requests r').listen m) Request.unheard rfl r

/-- Nor does it make it wait. -/
theorem not_mem_waiting_after (he : l.Allows e) (hr : (l.requests r).status = .pending)
    (hw : r ∉ l.waiting) : r ∉ (l.after e).waiting := by
  cases e with
  | reset | clockSet | closed | begun | serviced | shutDown | configured | recovered | polled =>
    exact hw
  | broughtUp => exact List.not_mem_nil
  | retired t s => exact fun hmem => hw (List.mem_of_mem_tail hmem)
  | accepted r' =>
    intro hmem
    rcases List.mem_append.1 hmem with hmem | hmem
    · exact hw hmem
    · obtain rfl := List.mem_singleton.1 hmem
      exact he.2 hr

end Ledger

namespace History

/-- `r` was pending at an earlier time when the bus was brought up. -/
def Forgets (r : RequestId) : History → Prop
  | [] => False
  | .broughtUp :: h => ((ledger h).requests r).status = .pending ∨ Forgets r h
  | _ :: h => Forgets r h

theorem Forgets.cons {r : RequestId} {h : History} (hr : Forgets r h) (e : Event) :
    Forgets r (e :: h) := by
  cases e with
  | broughtUp => exact .inr hr
  | reset | clockSet | closed | begun | serviced | shutDown | configured | accepted | retired |
    recovered | polled => exact hr

theorem Forgets.append {r : RequestId} {h : History} (hr : Forgets r h) (added : List Event) :
    Forgets r (added ++ h) := by
  induction added with
  | nil => exact hr
  | cons e added ih => exact ih.cons e

/-- What is forgotten is pending and does not wait. -/
theorem Lawful.of_forgets {h : History} (hl : Lawful h) {r : RequestId} (hr : Forgets r h) :
    ((ledger h).requests r).status = .pending ∧ r ∉ (ledger h).waiting := by
  induction h with
  | nil => cases hr
  | cons e h ih =>
    have hstep (hr : Forgets r h) : ((ledger (e :: h)).requests r).status = .pending ∧
        r ∉ (ledger (e :: h)).waiting := by
      obtain ⟨hpending, hwaiting⟩ := ih hl.2 hr
      have hstill := Ledger.unheard_after hl.2.sound hl.1 hpending hwaiting
      have hstatus := Request.status_eq_of_unheard hstill
      exact ⟨hstatus.trans hpending, Ledger.not_mem_waiting_after hl.1 hpending hwaiting⟩
    cases e with
    | broughtUp =>
      rcases hr with hpending | hr
      · exact ⟨hpending, List.not_mem_nil⟩
      · exact hstep hr
    | reset | clockSet | closed | begun | serviced | shutDown | configured | accepted | retired |
      recovered | polled => exact hstep hr

/-- What is pending waits or is forgotten. -/
theorem Lawful.pending_iff {h : History} (hl : Lawful h) (r : RequestId) :
    ((ledger h).requests r).status = .pending ↔ r ∈ (ledger h).waiting ∨ Forgets r h := by
  constructor
  · intro hr
    induction h with
    | nil => cases hr
    | cons e h ih =>
      have ih := ih hl.2
      cases e with
      | reset | clockSet | closed | begun | serviced | shutDown | recovered => exact ih hr
      | broughtUp => exact .inr (.inl hr)
      | configured r' c =>
        have hkept := Ledger.apply_setRequest (q := ((ledger h).requests r').configured c)
          Request.status rfl r
        exact ih (hkept.symm.trans hr)
      | polled r' m =>
        have hkept := Ledger.apply_setRequest (q := ((ledger h).requests r').listen m)
          Request.status rfl r
        exact ih (hkept.symm.trans hr)
      | accepted r' =>
        by_cases hne : r = r'
        · subst r'
          exact .inl (List.mem_append.2 (.inr (List.mem_singleton.2 rfl)))
        · rw [ledger_cons, Ledger.after, Ledger.requests_setRequest_of_ne _ _ hne] at hr
          rcases ih hr with hmem | hforgets
          · exact .inl (List.mem_append.2 (.inl hmem))
          · exact .inr hforgets
      | retired t s =>
        obtain ⟨hflight, hs⟩ := hl.1
        have hcarries := hl.2.sound.carries _ hflight
        by_cases hne : r = t.request
        · subst r
          have hretired : s = .pending := by
            simpa [Ledger.after, Ledger.wake, Request.retire] using hr
          rcases hs with ⟨hne, rfl⟩ | ⟨-, rfl⟩
          · exact absurd hretired hne
          · cases hretired
        · have hother : (((ledger h).after (.retired t s)).requests r).status =
              ((ledger h).requests r).status :=
            congrArg Request.status ((ledger h).requests_setRequest_of_ne _ hne)
          rcases ih (hother.symm.trans hr) with hmem | hforgets
          · rw [hcarries.waiting_eq, List.mem_cons] at hmem
            exact .inl (hmem.resolve_left hne)
          · exact .inr hforgets
  · rintro (hmem | hr)
    · exact hl.sound.pending r hmem
    · exact (hl.of_forgets hr).1

theorem Lawful.unheard_append {added : List Event} {h : History} (hl : Lawful (added ++ h))
    {r : RequestId} (hr : Forgets r h) :
    ((ledger (added ++ h)).requests r).unheard = ((ledger h).requests r).unheard := by
  induction added with
  | nil => rfl
  | cons e added ih =>
    obtain ⟨hpending, hwaiting⟩ := hl.2.of_forgets (hr.append added)
    rw [← ih hl.2]
    exact Ledger.unheard_after hl.2.sound hl.1 hpending hwaiting

/-- Whoever listens to a request has polled it. -/
theorem polled_of_listener {h : History} {r : RequestId} {m : ListenerId}
    (hr : ((ledger h).requests r).listener = some m) : .polled r m ∈ h := by
  induction h with
  | nil => cases hr
  | cons e h ih =>
    cases e with
    | reset | clockSet | closed | begun | serviced | broughtUp | shutDown | recovered =>
      exact List.mem_cons_of_mem _ (ih hr)
    | configured r' c =>
      have hkept := Ledger.apply_setRequest (q := ((ledger h).requests r').configured c)
        Request.listener rfl r
      exact List.mem_cons_of_mem _ (ih (hkept.symm.trans hr))
    | accepted r' =>
      have hkept := Ledger.apply_setRequest (q := ((ledger h).requests r').armed)
        Request.listener rfl r
      exact List.mem_cons_of_mem _ (ih (hkept.symm.trans hr))
    | retired t s =>
      have hkept := Ledger.apply_setRequest (q := ((ledger h).requests t.request).retire t s)
        Request.listener rfl r
      exact List.mem_cons_of_mem _ (ih (hkept.symm.trans hr))
    | polled r' m' =>
      by_cases hne : r = r'
      · subst r'
        rw [ledger_cons, Ledger.after, Ledger.requests_setRequest_self] at hr
        obtain rfl : m' = m := Option.some.inj hr
        exact List.mem_cons_self ..
      · rw [ledger_cons, Ledger.after, Ledger.requests_setRequest_of_ne _ _ hne] at hr
        exact List.mem_cons_of_mem _ (ih hr)

/-- A listener that only a forgotten request has is not woken. -/
theorem Lawful.wakes_append {added : List Event} {h : History} (hl : Lawful (added ++ h))
    {r : RequestId} (hr : Forgets r h) {m : ListenerId}
    (hm : ∀ r', .polled r' m ∈ added ++ h → r' = r) :
    (ledger (added ++ h)).wakes m = (ledger h).wakes m := by
  induction added with
  | nil => rfl
  | cons e added ih =>
    have ih := ih hl.2 fun r' hmem => hm r' (List.mem_cons_of_mem _ hmem)
    rw [← ih]
    cases e with
    | retired t s =>
      have hother : ((ledger (added ++ h)).requests t.request).listener ≠ some m := by
        intro hlistener
        have hpolled := List.mem_cons_of_mem (.retired t s) (polled_of_listener hlistener)
        have hserved := (hl.2.sound.carries _ hl.1.1).mem
        have hwaiting := (hl.2.of_forgets (hr.append added)).2
        rw [← hm _ hpolled] at hwaiting
        exact hwaiting hserved
      exact if_neg hother
    | reset | clockSet | closed | begun | serviced | broughtUp | shutDown | configured | accepted |
      recovered | polled => rfl

/-- Unless the bus was brought up since, what is forgotten was forgotten before. -/
theorem Forgets.of_append {added : List Event} {h : History} {r : RequestId}
    (hr : Forgets r (added ++ h)) (hadded : .broughtUp ∉ added) : Forgets r h := by
  induction added with
  | nil => exact hr
  | cons e added ih =>
    rw [List.mem_cons, not_or] at hadded
    cases e with
    | broughtUp => exact absurd rfl hadded.1
    | reset | clockSet | closed | begun | serviced | shutDown | configured | accepted | retired |
      recovered | polled => exact ih hr hadded.2

end History

namespace System

variable {σ : Type} {s s' : System σ} {r : RequestId}

def Hears (s : System σ) : Prop :=
  ∀ r m, .polled r m ∈ s.bus.history → s.completions[m]?.map Completion.request = some r

theorem Hears.eq_of_polled (hs : s.Hears) {r' : RequestId} {m : Nat}
    (hm : s.completions[m]?.map Completion.request = some r)
    (hpolled : .polled r' m ∈ s.bus.history) : r' = r :=
  Option.some.inj ((hs r' m hpolled).symm.trans hm)

theorem hears_create (platform : σ) (config : Config) (xs : List Expander) :
    (create platform config xs).Hears := fun _ _ hmem => absurd hmem List.not_mem_nil

theorem Keeps.awaited_getElem? (h : s.Keeps s') {m : Nat}
    (hm : s.completions[m]?.map Completion.request = some r) :
    s'.completions[m]?.map Completion.request = some r := by
  rw [← List.getElem?_map] at hm ⊢
  obtain ⟨rest, hrest⟩ := h.awaited
  obtain ⟨hlt, -⟩ := List.getElem?_eq_some_iff.1 hm
  rw [← hrest, List.getElem?_append_left hlt, hm]

variable [Platform σ]

theorem Hears.move (hs : s.Hears) {m : Move σ} {reply : Reply} (h : s.move m = some (reply, s')) :
    s'.Hears := by
  intro r l hmem
  obtain ⟨added, hhistory, hadded⟩ := history_move h
  rw [hhistory] at hmem
  apply (leads_move h).toKeeps.awaited_getElem?
  rcases List.mem_append.1 hmem with hmem | hmem
  · obtain ⟨-, c, -, -, hintent⟩ := mem_enteredBy (hadded _ hmem rfl)
    exact accounts_of_mem_intent hintent
  · exact hs r l hmem

theorem hears_run {ms : List (Move σ)} {replies : List Reply} (h : s.run ms = some (replies, s'))
    (hs : s.Hears) : s'.Hears :=
  run_preserves (P := Hears) h (fun _ _ _ _ hs₁ hmove => hs₁.move hmove) hs

def BringsUpAt (s : System σ) (ms : List (Move σ)) (s₁ : System σ) : Prop :=
  ∃ before limit after replies, ms = before ++ .call limit .bringUp :: after ∧
    s.run before = some (replies, s₁)

theorem BringsUpAt.cons {s₁ : System σ} {m : Move σ} {reply : Reply} {ms : List (Move σ)}
    (h : s'.BringsUpAt ms s₁) (hmove : s.move m = some (reply, s')) :
    s.BringsUpAt (m :: ms) s₁ := by
  obtain ⟨before, limit, after, replies, rfl, hrun⟩ := h
  exact ⟨m :: before, limit, after, reply :: replies, rfl,
    run_cons_eq_some.2 ⟨reply, s', replies, hmove, hrun, rfl⟩⟩

theorem BringsUpAt.history {s₁ : System σ} {ms : List (Move σ)} {replies : List Reply}
    (h : s.BringsUpAt ms s₁) (hrun : s.run ms = some (replies, s')) :
    ∃ added, s'.bus.history = added ++ .broughtUp :: s₁.bus.history := by
  obtain ⟨before, limit, after, first, rfl, hbefore⟩ := h
  obtain ⟨first', s₂, rest, hbefore', hrest, -⟩ := run_append_eq_some.1 hrun
  obtain ⟨-, rfl⟩ := Prod.mk.inj (Option.some.inj (hbefore.symm.trans hbefore'))
  obtain ⟨reply, s₃, rest', hmove, hafter, -⟩ := run_cons_eq_some.1 hrest
  cases hmove
  obtain ⟨added, hadded⟩ := history_run hafter
  exact ⟨added ++ [.clockSet s₁.bus.config.clock, .reset], by rw [hadded, List.append_assoc]; rfl⟩

/-- A move forgets only what is pending when it brings the bus up. -/
theorem forgets_move (hs : s.bus.Coherent) {m : Move σ} {reply : Reply}
    (h : s.move m = some (reply, s')) (hr : History.Forgets r s'.bus.history) :
    History.Forgets r s.bus.history ∨
      ∃ limit, m = .call limit .bringUp ∧ (s.bus.requests r).status = .pending := by
  obtain ⟨added, hhistory, hadded⟩ := history_move h
  by_cases hup : .broughtUp ∈ added
  · obtain ⟨limit, c, rfl, -, hintent⟩ := mem_enteredBy (hadded _ hup rfl)
    obtain rfl : c = .bringUp := accounts_of_mem_intent hintent
    cases h
    rcases hr with hpending | hforgets
    · rw [← hs.requests_eq] at hpending
      exact .inr ⟨limit, rfl, hpending⟩
    · exact .inl hforgets
  · rw [hhistory] at hr
    exact .inl (hr.of_append hup)

theorem bringsUpAt_of_forgets {ms : List (Move σ)} {replies : List Reply}
    (hs : s.bus.Coherent) (h : s.run ms = some (replies, s'))
    (hr : History.Forgets r s'.bus.history) :
    History.Forgets r s.bus.history ∨
      ∃ s₁, s.BringsUpAt ms s₁ ∧ (s₁.bus.requests r).status = .pending := by
  induction ms generalizing s replies with
  | nil =>
    cases h
    exact .inl hr
  | cons m ms ih =>
    obtain ⟨reply, s₁, rest, hmove, hrun, -⟩ := run_cons_eq_some.1 h
    rcases ih (coherent_move hmove hs) hrun with hforgets | ⟨s₂, hup, hpending⟩
    · rcases forgets_move hs hmove hforgets with hforgets | ⟨limit, rfl, hpending⟩
      · exact .inl hforgets
      · exact .inr ⟨s, ⟨[], limit, ms, [], rfl, rfl⟩, hpending⟩
    · exact .inr ⟨s₂, hup.cons hmove, hpending⟩

/-! ### What calls on a pending request are answered -/

/-- Calls on `r` are turned down without effect: for a length past the limit if there is one,
and otherwise because `r` is pending. -/
structure TurnsDown (s : System σ) (r : RequestId) : Prop where
  setWrite : ∀ limit address data, data.length ≤ Buffer.capacity →
    s.perform limit (.setWrite r address data) = some (.error .pending, s)
  setWrite_long : ∀ limit address data, Buffer.capacity < data.length →
    s.perform limit (.setWrite r address data) =
      some (.error (.bufferTooLong data.length Buffer.capacity), s)
  setWriteFixed : ∀ limit address data,
    s.perform limit (.setWriteFixed r address data) = some (.error .pending, s)
  setRead : ∀ limit address length lead, length ≤ Buffer.capacity →
    lead.length ≤ Buffer.capacity →
    s.perform limit (.setRead r address length lead) = some (.error .pending, s)
  setRead_long : ∀ limit address length lead, Buffer.capacity < length →
    s.perform limit (.setRead r address length lead) =
      some (.error (.bufferTooLong length Buffer.capacity), s)
  setRead_lead_long : ∀ limit address length lead, length ≤ Buffer.capacity →
    Buffer.capacity < lead.length →
    s.perform limit (.setRead r address length lead) =
      some (.error (.bufferTooLong lead.length Buffer.capacity), s)
  submit : ∀ limit, s.perform limit (.submit r) = some (.error .pending, s)
  readInto : ∀ limit out, s.perform limit (.readInto r out) = some (.notCopied .pending out, s)

omit [Platform σ] in
theorem attempt_configure_of_pending (hr : (s.bus.requests r).status = .pending) (c : Command) :
    s.attempt (s.bus.configure r c) = (.error .pending, s) := by
  rw [Bus.configure_of_pending hr]
  rfl

theorem turnsDown_of_pending (hr : (s.bus.requests r).status = .pending) : s.TurnsDown r where
  setWrite limit address data hle := by
    rw [perform, Command.copying_of_le address hle]
    exact congrArg some (attempt_configure_of_pending hr _)
  setWrite_long limit address data hgt := by
    rw [perform, Command.copying_of_gt address hgt]
    rfl
  setWriteFixed limit address data := by
    rw [perform, attempt_configure_of_pending hr]
  setRead limit address length lead hlength hlead := by
    rw [perform, Command.reading_of_le address hlength hlead]
    exact congrArg some (attempt_configure_of_pending hr _)
  setRead_long limit address length lead hlength := by
    rw [perform, Command.reading_of_gt address lead hlength]
    rfl
  setRead_lead_long limit address length lead hlength hlead := by
    rw [perform, Command.reading_of_lead_gt address hlength hlead]
    rfl
  submit limit := by
    rw [perform, Bus.submit_of_pending hr]
    rfl
  readInto limit out := by
    rw [perform, System.readInto, Request.readInto_of_pending hr]

/-- What is true of the pending requests after every run, and of those that were pending at an
earlier time when it brought the bus up. -/
theorem pending_iff_queued_or_forgotten {platform : σ} {config : Config} {xs : List Expander}
    {ms : List (Move σ)} {replies : List Reply}
    (h : (create platform config xs).run ms = some (replies, s)) :
    (∀ r, (s.bus.requests r).status = .pending ↔ r ∈ s.bus.queue.toList ∨
        ∃ s₁, (create platform config xs).BringsUpAt ms s₁ ∧
          (s₁.bus.requests r).status = .pending) ∧
      s.bus.queue.toList.Nodup ∧ s.bus.queued = s.bus.queue.toList.length ∧
      ∀ s₁ r, (create platform config xs).BringsUpAt ms s₁ →
        (s₁.bus.requests r).status = .pending →
        r ∉ s.bus.queue.toList ∧ s.bus.queue.next r = none ∧
          (s.bus.requests r).unheard = (s₁.bus.requests r).unheard ∧
          (∀ m, s.completions[m]?.map Completion.request = some r →
            s.bus.wakes m = s₁.bus.wakes m) ∧
          s.TurnsDown r := by
  have hcreate : (create platform config xs).bus.Coherent := Bus.coherent_create platform config
  have hs : s.bus.Coherent := coherent_run h hcreate
  have hlater {s₁ : System σ} {r : RequestId} (hup : (create platform config xs).BringsUpAt ms s₁)
      (hpending : (s₁.bus.requests r).status = .pending) :
      s₁.bus.Coherent ∧ History.Forgets r (.broughtUp :: s₁.bus.history) := by
    obtain ⟨before, -, -, first, -, hbefore⟩ := hup
    have hs₁ : s₁.bus.Coherent := coherent_run hbefore hcreate
    rw [hs₁.requests_eq] at hpending
    exact ⟨hs₁, .inl hpending⟩
  refine ⟨fun r => ?_, ?_, hs.queued_eq, fun s₁ r hup hpending => ?_⟩
  · rw [hs.requests_eq, hs.toList_eq, hs.lawful.pending_iff]
    constructor
    · rintro (hmem | hforgets)
      · exact .inl hmem
      · exact .inr ((bringsUpAt_of_forgets hcreate h hforgets).resolve_left id)
    · rintro (hmem | ⟨s₁, hup, hpending⟩)
      · exact .inl hmem
      · obtain ⟨added, hhistory⟩ := hup.history h
        rw [hhistory]
        exact .inr ((hlater hup hpending).2.append added)
  · rw [hs.toList_eq]
    exact hs.lawful.sound.nodup
  · obtain ⟨hs₁, hforgets⟩ := hlater hup hpending
    obtain ⟨added, hhistory⟩ := hup.history h
    have hlawful : History.Lawful (added ++ .broughtUp :: s₁.bus.history) := hhistory ▸ hs.lawful
    obtain ⟨hstatus, hwaiting⟩ := hlawful.of_forgets (hforgets.append added)
    rw [← hhistory] at hwaiting
    have hunheard := hlawful.unheard_append hforgets
    refine ⟨hs.toList_eq ▸ hwaiting, hs.chains.next_eq_none hwaiting, ?_, fun m hm => ?_, ?_⟩
    · rw [hs.requests_eq, hhistory, hunheard, hs₁.requests_eq]
      rfl
    · have hheard : s.Hears := hears_run h (hears_create platform config xs)
      have hwakes := hlawful.wakes_append hforgets fun r' hpolled => by
        rw [← hhistory] at hpolled
        exact hheard.eq_of_polled hm hpolled
      rw [hs.wakes_eq, hhistory, hwakes, hs₁.wakes_eq]
      rfl
    · apply turnsDown_of_pending
      rw [hs.requests_eq, hhistory]
      exact hstatus

def forgettingMoves : List (Move Bench) :=
  [.call 0 .bringUp, .call 0 (.write 1 0x48 [7]), .call 0 (.complete 1), .call 0 (.poll 0),
    .call 0 .bringUp, .call 0 (.submit 2), .call 0 .handleEvent]

theorem pending_iff_queued_or_forgotten_write :
    ∃ replies s, (create (Bench.create 0 0) Config.standard []).run forgettingMoves =
        some (replies, s) ∧
      (s.bus.requests 1).unheard = ⟨.write 0x48 (.holding [7]), .empty, .pending, 0, none⟩ ∧
      s.bus.wakes 0 = 0 ∧ s.TurnsDown 1 := by
  have hrun : ∃ replies s, (create (Bench.create 0 0) Config.standard []).run forgettingMoves =
      some (replies, s) ∧ s.completions[0]?.map Completion.request = some 1 := ⟨_, _, rfl, rfl⟩
  have hup : ∃ s₁, (create (Bench.create 0 0) Config.standard []).BringsUpAt forgettingMoves s₁ ∧
      (s₁.bus.requests 1).status = .pending ∧
      (s₁.bus.requests 1).unheard = ⟨.write 0x48 (.holding [7]), .empty, .pending, 0, none⟩ ∧
      s₁.bus.wakes 0 = 0 :=
    ⟨_, ⟨forgettingMoves.take 4, 0, [.call 0 (.submit 2), .call 0 .handleEvent], _, rfl, rfl⟩,
      rfl, rfl, rfl⟩
  obtain ⟨replies, s, hrun, hcompletion⟩ := hrun
  obtain ⟨s₁, hup, hpending, hheld, hwakes⟩ := hup
  obtain ⟨-, -, -, hforgotten⟩ := pending_iff_queued_or_forgotten hrun
  obtain ⟨-, -, hunheard, hsilent, hturned⟩ := hforgotten s₁ 1 hup hpending
  exact ⟨replies, s, hrun, hunheard.trans hheld, (hsilent 0 hcompletion).trans hwakes, hturned⟩

/-- Being pending is not all that can be wrong with a call on a forgotten request: a length past
the limit is found first. -/
theorem forgotten_not_always_answered_pending :
    ¬ ∀ (ms : List (Move Bench)) (replies : List Reply) (s s₁ : System Bench) (r : RequestId)
      (limit : Nat) (address : UInt8) (data : List UInt8),
      (create (Bench.create 0 0) Config.standard []).run ms = some (replies, s) →
      (create (Bench.create 0 0) Config.standard []).BringsUpAt ms s₁ →
      (s₁.bus.requests r).status = .pending →
      (s.perform limit (.setWrite r address data)).map Prod.fst = some (.error .pending) := by
  intro hall
  have hanswer := hall
    [.call 0 .bringUp, .call 0 (.setWrite 0 0x48 [1]), .call 0 (.submit 0), .call 0 .bringUp] _ _ _
    0 0 0x48 (List.replicate 33 0) rfl
    ⟨[.call 0 .bringUp, .call 0 (.setWrite 0 0x48 [1]), .call 0 (.submit 0)], 0, [], _, rfl, rfl⟩
    rfl
  contradiction

end System

end SharedBus
