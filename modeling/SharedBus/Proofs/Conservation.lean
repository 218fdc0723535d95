import SharedBus.Proofs.Waiting

/-!
# The queue over a stretch of history

Unless the bus is brought up, no request leaves the queue but by being retired. So over
any stretch of history the requests that were queued, followed by those accepted since,
are those retired since followed by the queue at the end. In the same way a transfer that
has been begun is in flight until it is retired, so whatever is serviced was in flight at the
start or has been begun since.
-/

namespace SharedBus

namespace History

variable {f : Event → Option RequestId} {added earlier later h : History}

/-- What `f` picks out of a stretch of history, oldest first. -/
def gather (f : Event → Option RequestId) (added : History) : List RequestId :=
  (added.filterMap f).reverse

theorem gather_cons (e : Event) (added : History) :
    gather f (e :: added) = gather f added ++ (f e).toList := by
  cases he : f e with
  | none => rw [gather, List.filterMap_cons_none he, gather, Option.toList_none, List.append_nil]
  | some r => rw [gather, List.filterMap_cons_some he, List.reverse_cons, gather, Option.toList_some]

theorem gather_append (later earlier : History) :
    gather f (later ++ earlier) = gather f earlier ++ gather f later := by
  rw [gather, List.filterMap_append, List.reverse_append, gather, gather]

theorem gather_eq_nil_iff : gather f added = [] ↔ ∀ e ∈ added, f e = none := by
  rw [gather, List.reverse_eq_nil_iff, List.filterMap_eq_nil_iff]

/-- Where the last one was picked. -/
theorem gather_eq_append_singleton_iff {xs : List RequestId} {r : RequestId} :
    gather f added = xs ++ [r] ↔ ∃ later e earlier, added = later ++ e :: earlier ∧
      (∀ e ∈ later, f e = none) ∧ f e = some r ∧ gather f earlier = xs := by
  have hreverse : gather f added = xs ++ [r] ↔ added.filterMap f = r :: xs.reverse := by
    rw [gather, List.reverse_eq_iff, List.reverse_append, List.reverse_singleton,
      List.singleton_append]
  rw [hreverse, List.filterMap_eq_cons_iff]
  simp only [gather, List.reverse_eq_iff]

theorem since_append (hquiet : .broughtUp ∉ added) (h : History) :
    since f (added ++ h) = since f h ++ gather f added := by
  induction added with
  | nil => exact (List.append_nil _).symm
  | cons e added ih =>
    rw [List.mem_cons, not_or] at hquiet
    rw [List.cons_append, since_cons (Ne.symm hquiet.1), ih hquiet.2, gather_cons, List.append_assoc]

def flying (h : History) : List RequestId := ((ledger h).flight.map Transfer.request).toList

theorem Lawful.waiting_append (hl : Lawful (added ++ h)) (hquiet : .broughtUp ∉ added) :
    (ledger h).waiting ++ gather Event.accepted? added =
      gather Event.retired? added ++ (ledger (added ++ h)).waiting := by
  have hlater := hl.accepted_eq
  rw [since_append hquiet, since_append hquiet, hl.of_append.accepted_eq, List.append_assoc,
    List.append_assoc, List.append_cancel_left_eq] at hlater
  exact hlater

theorem Lawful.flying_append (hl : Lawful (added ++ h)) (hquiet : .broughtUp ∉ added) :
    flying h ++ gather Event.begun? added =
      gather Event.retired? added ++ flying (added ++ h) := by
  have hlater := hl.begun_eq
  rw [since_append hquiet, since_append hquiet, hl.of_append.begun_eq, List.append_assoc,
    List.append_assoc, List.append_cancel_left_eq] at hlater
  exact hlater

/-- Whatever is serviced was in flight before or has been begun since. -/
theorem Lawful.mem_of_serviced (hl : Lawful (added ++ h)) (hquiet : .broughtUp ∉ added)
    {t t' : Transfer} {actions : List Action} (hmem : .serviced t actions t' ∈ added) :
    t.request ∈ flying h ++ gather Event.begun? added := by
  obtain ⟨later, earlier, rfl⟩ := List.append_of_mem hmem
  rw [List.mem_append, List.mem_cons, not_or, not_or] at hquiet
  rw [List.append_assoc, List.cons_append] at hl
  obtain ⟨⟨hflight, -⟩, hearlier⟩ := hl.of_append
  have hflying : flying (earlier ++ h) = [t.request] := by
    rw [flying, hflight]
    rfl
  have hconserved := hearlier.flying_append hquiet.2.2
  rw [gather_append, gather_cons, List.append_assoc, ← List.append_assoc (flying h), hconserved,
    hflying]
  simp

end History

namespace Bus.Coherent

variable {σ : Type} {b b' : Bus σ} {added : History}

/-- What was queued and what has been accepted since is retired in this order or queued. -/
theorem toList_append (h : b.Coherent) (h' : b'.Coherent)
    (hhistory : b'.history = added ++ b.history) (hquiet : .broughtUp ∉ added) :
    b.queue.toList ++ History.gather Event.accepted? added =
      History.gather Event.retired? added ++ b'.queue.toList := by
  have hlawful : History.Lawful (added ++ b.history) := hhistory ▸ h'.lawful
  rw [h.toList_eq, h'.toList_eq, hhistory]
  exact hlawful.waiting_append hquiet

theorem flying_eq (h : b.Coherent) : History.flying b.history = b.queue.toList.head?.toList := by
  rw [History.flying, h.flight_request, h.active_request, h.head?_toList]

variable [Platform σ]

/-- Ticks retire the front of the queue in order and leave the rest. -/
theorem ticks_append (h : b.Coherent) (n : Nat) : ∃ added,
    (b.ticks n).history = added ++ b.history ∧ (∀ e ∈ added, e.byCaller = false) ∧
      b.queue.toList = History.gather Event.retired? added ++ (b.ticks n).queue.toList := by
  obtain ⟨as, hpath, has⟩ := b.path_ticks n
  obtain ⟨added, hhistory, hadded⟩ := hpath.grows
  rw [has, List.reverse_nil, List.filter_eq_nil_iff] at hadded
  have hservice : ∀ e ∈ added, e.byCaller = false := fun e he => by simpa using hadded e he
  have hquiet : .broughtUp ∉ added := fun hmem => by cases hservice _ hmem
  have haccepted : History.gather Event.accepted? added = [] :=
    History.gather_eq_nil_iff.2 fun e he => Event.accepted?_eq_none (hservice e he)
  have hconserved := h.toList_append (h.ticks n) hhistory hquiet
  rw [haccepted, List.append_nil] at hconserved
  exact ⟨added, hhistory, hservice, hconserved⟩

end Bus.Coherent

end SharedBus
