import SharedBus.Proofs.Admission
import SharedBus.Proofs.Advance

/-!
# The ledger of a history

A ledger is what a history amounts to: the requests, those that wait in the queue,
the transfer in flight and the wakes. It is written up event by event, and each
event is allowed only in some ledgers: a transfer is begun for the first request
that waits and with the command this has, only a request that is not pending is
accepted, and what a retirement says is what the hardware declared, or a timeout
when it has declared nothing. A history is lawful when every event was allowed.
-/

namespace SharedBus

structure Ledger where
  requests : RequestId → Request
  /-- The queue, head first. The request in flight is still part of it. -/
  waiting : List RequestId
  /-- The transfer in flight, without its stamp. -/
  flight : Option Transfer
  wakes : ListenerId → Nat

namespace Ledger

def initial : Ledger := ⟨fun _ => .fresh, [], none, fun _ => 0⟩

def setRequest (l : Ledger) (r : RequestId) (q : Request) : Ledger :=
  { l with requests := fun s => if s = r then q else l.requests s }

@[simp] theorem requests_setRequest_self (l : Ledger) (r : RequestId) (q : Request) :
    (l.setRequest r q).requests r = q := if_pos rfl

theorem requests_setRequest_of_ne (l : Ledger) {r s : RequestId} (q : Request) (h : s ≠ r) :
    (l.setRequest r q).requests s = l.requests s := if_neg h

/-- What a change of a request keeps of it is kept of all requests. -/
theorem apply_setRequest {α : Type} (f : Request → α) {l : Ledger} {r : RequestId} {q : Request}
    (hq : f q = f (l.requests r)) (s : RequestId) :
    f ((l.setRequest r q).requests s) = f (l.requests s) := by
  by_cases hs : s = r
  · rw [hs, requests_setRequest_self, hq]
  · rw [requests_setRequest_of_ne l q hs]

def wake (l : Ledger) (listener : Option ListenerId) : Ledger :=
  { l with wakes := fun m => if listener = some m then l.wakes m + 1 else l.wakes m }

def after (l : Ledger) : Event → Ledger
  | .configured r c => l.setRequest r ((l.requests r).configured c)
  | .accepted r => { l with waiting := l.waiting ++ [r] }.setRequest r (l.requests r).armed
  | .begun t => { l with flight := some t }
  | .serviced _ _ t => { l with flight := some (t.stamp 0) }
  | .retired t s =>
      ({ l with waiting := l.waiting.tail, flight := none }.setRequest t.request
        ((l.requests t.request).retire t s)).wake (l.requests t.request).listener
  | .broughtUp => { l with waiting := [], flight := none }
  | .polled r m => l.setRequest r ((l.requests r).listen m)
  | .reset | .clockSet _ | .closed | .shutDown | .recovered => l

def Settled (l : Ledger) : Prop := ∀ t, l.flight = some t → t.status = .pending

def Allows (l : Ledger) : Event → Prop
  | .configured r _ => l.Settled ∧ (l.requests r).status ≠ .pending
  | .accepted r => l.Settled ∧ (l.requests r).status ≠ .pending
  | .begun t => l.flight = none ∧ l.waiting.head? = some t.request ∧
      t = Transfer.ofCommand t.request (l.requests t.request).command
  | .serviced t actions t' => l.flight = some (t.stamp 0) ∧ t.status = .pending ∧
      t' = t.advance actions
  | .retired t s => l.flight = some (t.stamp 0) ∧
      (t.status ≠ .pending ∧ s = t.status ∨ t.status = .pending ∧ s = .timeout)
  | .shutDown => l.waiting = []
  | .reset | .closed => l.flight = none
  | .clockSet _ | .broughtUp | .recovered | .polled _ _ => l.Settled

/-! ### Ledgers that a lawful history leads to -/

structure Carries (l : Ledger) (t : Transfer) : Prop where
  head_eq : l.waiting.head? = some t.request
  command_eq : t.command = (l.requests t.request).command
  inStep : t.InStep

structure Sound (l : Ledger) : Prop where
  nodup : l.waiting.Nodup
  pending : ∀ r ∈ l.waiting, (l.requests r).status = .pending
  carries : ∀ t, l.flight = some t → l.Carries t

theorem sound_initial : initial.Sound :=
  ⟨List.nodup_nil, fun _ h => absurd h List.not_mem_nil, fun _ h => by cases h⟩

theorem Carries.mem {l : Ledger} {t : Transfer} (h : l.Carries t) : t.request ∈ l.waiting :=
  List.mem_of_mem_head? h.head_eq

theorem Carries.waiting_eq {l : Ledger} {t : Transfer} (h : l.Carries t) :
    l.waiting = t.request :: l.waiting.tail := by
  obtain ⟨rest, hrest⟩ := List.head?_eq_some_iff.1 h.head_eq
  rw [hrest, List.tail_cons]

/-- What waits and what flies is not touched by a change of a request that keeps its status
and its command. -/
theorem Sound.setRequest {l : Ledger} (h : l.Sound) {r : RequestId} {q : Request}
    (hq : r ∈ l.waiting → q.status = .pending ∧ q.command = (l.requests r).command) :
    (l.setRequest r q).Sound := by
  refine ⟨h.nodup, fun s hs => ?_, fun t ht => ?_⟩
  · by_cases hsr : s = r
    · subst s
      simpa [Ledger.setRequest] using (hq hs).1
    · simpa [Ledger.setRequest, hsr] using h.pending s hs
  · have hc := h.carries t ht
    refine ⟨hc.head_eq, ?_, hc.inStep⟩
    by_cases htr : t.request = r
    · have hmem : r ∈ l.waiting := htr ▸ hc.mem
      have hcommand := hc.command_eq
      rw [htr] at hcommand
      simpa [Ledger.setRequest, htr, (hq hmem).2] using hcommand
    · simpa [Ledger.setRequest, htr] using hc.command_eq

theorem Sound.after {l : Ledger} (h : l.Sound) {e : Event} (he : l.Allows e) :
    (l.after e).Sound := by
  cases e with
  | reset | clockSet | closed | shutDown | recovered => exact h
  | configured r c => exact h.setRequest fun hr => absurd (h.pending r hr) he.2
  | polled r m => exact h.setRequest fun hr => ⟨h.pending r hr, rfl⟩
  | broughtUp =>
    exact ⟨List.nodup_nil, fun _ hr => absurd hr List.not_mem_nil, fun _ ht => by cases ht⟩
  | begun t =>
    obtain ⟨-, hhead, ht⟩ := he
    refine ⟨h.nodup, h.pending, fun u hu => ?_⟩
    obtain rfl : t = u := Option.some.inj hu
    refine ⟨hhead, ?_, ?_⟩
    · rw [ht]
      rfl
    · rw [ht]
      exact Transfer.inStep_ofCommand _ _
  | serviced t actions t' =>
    obtain ⟨hflight, -, rfl⟩ := he
    refine ⟨h.nodup, h.pending, fun u hu => ?_⟩
    obtain rfl : (t.advance actions).stamp 0 = u := Option.some.inj hu
    obtain ⟨hhead, hcommand, hstep⟩ := h.carries _ hflight
    rw [← Transfer.stamp_advance]
    exact ⟨by rwa [Transfer.request_advance],
      by rwa [Transfer.command_advance, Transfer.request_advance], hstep.advance actions⟩
  | accepted r =>
    have hr : r ∉ l.waiting := fun hmem => he.2 (h.pending r hmem)
    have hset : (l.setRequest r (l.requests r).armed).Sound :=
      h.setRequest fun hmem => absurd hmem hr
    refine ⟨?_, fun s hs => ?_, fun t ht => ?_⟩
    · refine List.nodup_append.2 ⟨h.nodup, by simp, ?_⟩
      rintro x hx y hy rfl
      exact hr (List.mem_singleton.1 hy ▸ hx)
    · rcases List.mem_append.1 hs with hs | hs
      · exact hset.pending s hs
      · obtain rfl := List.mem_singleton.1 hs
        simp [Ledger.after, Ledger.setRequest, Request.armed]
    · obtain ⟨hhead, hcommand, hstep⟩ := hset.carries t ht
      refine ⟨?_, hcommand, hstep⟩
      change (l.waiting ++ [r]).head? = some t.request
      rw [List.head?_append, show l.waiting.head? = some t.request from hhead, Option.some_or]
  | retired t s =>
    have hc := h.carries _ he.1
    have hnodup := h.nodup
    rw [hc.waiting_eq, List.nodup_cons] at hnodup
    refine ⟨hnodup.2, fun r hr => ?_, fun _ ht => by cases ht⟩
    have hne : r ≠ t.request := by
      rintro rfl
      exact hnodup.1 hr
    have hpending := h.pending r (List.mem_of_mem_tail hr)
    simpa [Ledger.after, wake, Ledger.setRequest, hne] using hpending

end Ledger

namespace History

def ledger : History → Ledger
  | [] => .initial
  | e :: h => (ledger h).after e

def Lawful : History → Prop
  | [] => True
  | e :: h => (ledger h).Allows e ∧ Lawful h

@[simp] theorem ledger_cons (e : Event) (h : History) : ledger (e :: h) = (ledger h).after e := rfl

theorem Lawful.of_append {es h : History} (hl : Lawful (es ++ h)) : Lawful h := by
  induction es with
  | nil => exact hl
  | cons e es ih => exact ih hl.2

theorem Lawful.sound {h : History} (hl : Lawful h) : (ledger h).Sound := by
  induction h with
  | nil => exact Ledger.sound_initial
  | cons e h ih => exact (ih hl.2).after hl.1

end History

end SharedBus
