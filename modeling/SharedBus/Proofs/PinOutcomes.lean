import SharedBus.Proofs.Draining
import SharedBus.Proofs.Jobs

/-!
# Outcomes of pin operations

Writing an owned pin never fails: when it returns, the write is the last one in the queue.
Reading one waits for its own transfer, so when it returns the queue has been worked off:
what was queued before has been retired, in order, before the transfer of the read was
begun, and the bus is idle. The reply tells how this transfer ended, a level if it ended well
and the status it ended with otherwise.
-/

namespace SharedBus

def Event.Idles (e : Event) : Prop := e.byCaller = false ∧ e.begun? = none ∧ e.retired? = none

namespace History

variable {added rest h : History} {r : RequestId} {c : Command} {t : Transfer} {status : Status}

/-- What callers bring about decides which requests are accepted. -/
theorem gather_accepted_filter (added : History) :
    gather Event.accepted? (added.filter Event.byCaller) = gather Event.accepted? added :=
  congrArg List.reverse (filterMap_filter_byCaller (fun _ => Event.accepted?_eq_none) added)

/-- What is begun once all that waited has been retired was accepted since. -/
theorem Lawful.accepted_of_begun (hl : Lawful (.begun t :: (added ++ h)))
    (hquiet : .broughtUp ∉ added) (hretired : gather Event.retired? added = (ledger h).waiting) :
    .accepted t.request ∈ added := by
  have hwaiting := hl.2.waiting_append hquiet
  rw [hretired, List.append_cancel_left_eq] at hwaiting
  have hmem := List.mem_of_mem_head? hl.1.2.1
  rw [← hwaiting, gather, List.mem_reverse, List.mem_filterMap] at hmem
  obtain ⟨e, he, hr⟩ := hmem
  rwa [Event.accepted?_eq_some_iff.1 hr] at he

theorem eq_tail_concat {ws xs : List RequestId} (h : ws.head?.toList ++ xs = ws ++ [r]) :
    xs = ws.tail ++ [r] := by
  cases ws with
  | nil => exact h
  | cons w ws => exact (List.cons.inj h).2

/-- Once the requests that waited have been retired, what is retired next was begun since. -/
theorem Lawful.exists_begun (hl : Lawful (.retired t status :: (rest ++ h)))
    (hquiet : .broughtUp ∉ rest) (hflying : flying h = (ledger h).waiting.head?.toList)
    (hretired : gather Event.retired? rest = (ledger h).waiting) :
    ∃ during before, rest = during ++ .begun (.ofCommand t.request
        ((ledger (before ++ h)).requests t.request).command) :: before ∧
      gather Event.retired? before = (ledger h).waiting ∧ .accepted t.request ∈ before ∧
      ∀ e ∈ during, e.begun? = none ∧ e.retired? = none := by
  have hflight : flying (rest ++ h) = [t.request] := by
    rw [flying, hl.1.1]
    rfl
  have hbegun := hl.2.flying_append hquiet
  rw [hflying, hretired, hflight] at hbegun
  obtain ⟨during, e, before, rfl, hduring, he, hearlier⟩ :=
    gather_eq_append_singleton_iff.1 (eq_tail_concat hbegun)
  obtain ⟨u, rfl, hu⟩ := Event.begun?_eq_some_iff.1 he
  have hlawful := hl.2
  rw [List.append_assoc, List.cons_append] at hlawful
  replace hlawful := hlawful.of_append
  rw [List.mem_append, List.mem_cons, not_or, not_or] at hquiet
  obtain ⟨hfree, -, hcommand⟩ := hlawful.1
  have hbefore := hlawful.2.flying_append hquiet.2.2
  have hnone : flying (before ++ h) = [] := congrArg (fun o => (o.map Transfer.request).toList) hfree
  have hfront : (ledger h).waiting.head?.toList ++ (ledger h).waiting.tail = (ledger h).waiting := by
    cases (ledger h).waiting <;> rfl
  rw [hflying, hearlier, hnone, hfront, List.append_nil] at hbefore
  have hnot : (Event.begun u).retired? = none := rfl
  rw [gather_append, gather_cons, ← hbefore, hnot, Option.toList_none, List.append_nil,
    List.append_right_eq_self, gather_eq_nil_iff] at hretired
  have haccepted := hlawful.accepted_of_begun hquiet.2.2 hbefore.symm
  rw [hu] at haccepted
  refine ⟨during, before, ?_, hbefore.symm, haccepted, fun e he => ⟨hduring e he, hretired e he⟩⟩
  rw [← hu, ← hcommand]

/-- With nothing in flight at either end, what is begun is retired. -/
theorem Lawful.begun_eq_none (hl : Lawful (added ++ h)) (hquiet : .broughtUp ∉ added)
    (hbefore : flying h = []) (hafter : flying (added ++ h) = [])
    (hretired : ∀ e ∈ added, e.retired? = none) : ∀ e ∈ added, e.begun? = none := by
  have hconserved := hl.flying_append hquiet
  rwa [hbefore, hafter, gather_eq_nil_iff.2 hretired, List.nil_append, List.append_nil,
    gather_eq_nil_iff] at hconserved

theorem outcome_of_retired (hadded : ∀ e ∈ added, e.Idles) (h : History) :
    outcome t.request (added ++ .retired t status :: h) = (status, t.byteCount) := by
  rw [outcome_append_of_untouched fun e he => ?_, outcome, if_pos rfl]
  rw [Event.accepted?_eq_none (hadded e he).1, (hadded e he).2.2]
  exact ⟨Option.some_ne_none _ ∘ Eq.symm, Option.some_ne_none _ ∘ Eq.symm⟩

/-- A request that was configured and then accepted has the command that it was given. -/
theorem command_of_filter (hcallers : added.filter Event.byCaller = [.accepted r, .configured r c])
    (h : History) : ((ledger (added ++ h)).requests r).command = c := by
  obtain ⟨later, between, rfl, hlater, -, hrest⟩ := List.filter_eq_cons_iff.1 hcallers
  obtain ⟨between, earlier, rfl, hbetween, -, -⟩ := List.filter_eq_cons_iff.1 hrest
  have hsince : ∀ e ∈ later ++ .accepted r :: between, ∀ c', e ≠ .configured r c' := by
    rintro e he c' rfl
    simp only [List.mem_append, List.mem_cons, reduceCtorEq, false_or] at he
    rcases he with he | he
    · exact hlater _ he rfl
    · exact hbetween _ he rfl
  have hsplit : later ++ .accepted r :: (between ++ .configured r c :: earlier) ++ h =
      (later ++ .accepted r :: between) ++ .configured r c :: (earlier ++ h) := by simp
  rw [hsplit, command_append hsince, ledger_cons, Ledger.after, Ledger.requests_setRequest_self]
  rfl

theorem eq_pair_of_append {α : Type} {xs ys : List α} {x y : α} (h : xs ++ ys = [x, y])
    (hne : x ≠ y) (hx : x ∈ ys) : xs = [] ∧ ys = [x, y] := by
  cases xs with
  | nil => exact ⟨rfl, h⟩
  | cons z xs =>
    have hrest : xs ++ ys = [y] := (List.cons.inj h).2
    have hmem : x ∈ xs ++ ys := List.mem_append_right xs hx
    rw [hrest] at hmem
    exact absurd (List.mem_singleton.1 hmem) hne

theorem broughtUp_not_mem (hcallers : added.filter Event.byCaller = [.accepted r, .configured r c]) :
    .broughtUp ∉ added := by
  intro hmem
  have hcaller : .broughtUp ∈ added.filter Event.byCaller := List.mem_filter.2 ⟨hmem, rfl⟩
  rw [hcallers] at hcaller
  simp at hcaller

/-- If callers only set up a request and submit it, they do nothing once it has been accepted. -/
theorem filter_eq_of_accepted (hcallers : (rest ++ added).filter Event.byCaller =
      [.accepted r, .configured r c]) (hmem : .accepted r ∈ added) :
    (∀ e ∈ rest, e.byCaller = false) ∧
      added.filter Event.byCaller = [.accepted r, .configured r c] := by
  rw [List.filter_append] at hcallers
  obtain ⟨hnone, hcallers⟩ :=
    eq_pair_of_append hcallers (by simp) (List.mem_filter.2 ⟨hmem, rfl⟩)
  rw [List.filter_eq_nil_iff] at hnone
  exact ⟨fun e he => by simpa using hnone e he, hcallers⟩

end History

namespace Bus

variable {σ : Type} {b b' : Bus σ} {r : RequestId} {c : Command} {added : History}

/-- Since `b` the requests queued there have been retired, in order, and `r` has been set up with
`c` and accepted. Then its transfer was begun and has been retired as `t`, with `status`, and the
bus is idle. -/
structure Transacts (b : Bus σ) (r : RequestId) (c : Command) (t : Transfer) (status : Status)
    (b' : Bus σ) : Prop where
  request_eq : t.request = r
  idle : b'.isIdle = true
  history_eq : ∃ after during before, b'.history =
      after ++ .retired t status :: (during ++ .begun (.ofCommand r c) :: (before ++ b.history)) ∧
    History.gather Event.retired? before = b.queue.toList ∧
    before.filter Event.byCaller = [.accepted r, .configured r c] ∧
    (∀ e ∈ during, e.Idles) ∧ ∀ e ∈ after, e.Idles

structure EndsWith (b : Bus σ) (r : RequestId) (c : Command) : Prop where
  last_eq : b.queue.toList.getLast? = some r
  pending : (b.requests r).status = .pending
  command_eq : (b.requests r).command = c

/-- The one request accepted is transacted, and after all others, if the queue is empty at the
end. -/
theorem Coherent.transacts (h : b.Coherent) (h' : b'.Coherent)
    (hhistory : b'.history = added ++ b.history)
    (hadded : added.filter Event.byCaller = [.accepted r, .configured r c])
    (hempty : b'.queue.toList = []) : ∃ t, b.Transacts r c t (b'.requests r).status b' := by
  have hquiet := History.broughtUp_not_mem hadded
  have haccepted : History.gather Event.accepted? added = [r] := by
    rw [← History.gather_accepted_filter, hadded]
    rfl
  have hretired := h.toList_append h' hhistory hquiet
  rw [haccepted, hempty, List.append_nil, eq_comm,
    History.gather_eq_append_singleton_iff] at hretired
  obtain ⟨after, e, rest, rfl, hafter, he, hrest⟩ := hretired
  obtain ⟨t, status, rfl, rfl⟩ := Event.retired?_eq_some_iff.1 he
  have hlawful : History.Lawful (after ++ .retired t status :: (rest ++ b.history)) := by
    have hlawful := h'.lawful
    rwa [hhistory, List.append_assoc] at hlawful
  simp only [List.mem_append, List.mem_cons, not_or] at hquiet
  rw [h.toList_eq] at hrest
  obtain ⟨during, before, rfl, hbefore, hmem, hduring⟩ :=
    hlawful.of_append.exists_begun hquiet.2.2 (h.toList_eq ▸ h.flying_eq) hrest
  rw [List.append_assoc, List.cons_append] at hlawful
  obtain ⟨hnone, hrest⟩ := History.filter_eq_of_accepted hadded
    (List.mem_cons_of_mem _ (List.mem_append_right _ (List.mem_cons_of_mem _ hmem)))
  rw [List.filter_cons_of_neg (by simp [Event.byCaller])] at hrest
  obtain ⟨hservice, hrest⟩ := History.filter_eq_of_accepted hrest (List.mem_cons_of_mem _ hmem)
  rw [List.filter_cons_of_neg (by simp [Event.byCaller])] at hrest
  rw [History.command_of_filter hrest, List.append_assoc, List.cons_append, List.append_assoc,
    List.cons_append] at hhistory
  rw [History.command_of_filter hrest] at hlawful
  have hbegun : ∀ e ∈ after, e.begun? = none := by
    refine hlawful.begun_eq_none hquiet.1 rfl ?_ hafter
    rw [← hhistory, h'.flying_eq, hempty]
    rfl
  have hidles : ∀ e ∈ after, e.Idles := fun e he => ⟨hnone e he, hbegun e he, hafter e he⟩
  have hstatus : (b'.requests t.request).status = status := by
    rw [h'.status_eq_outcome, hhistory, History.outcome_of_retired hidles]
  rw [hstatus]
  refine ⟨t, rfl, ?_, after, during, before, hhistory, hbefore.trans h.toList_eq.symm, hrest,
    fun e he => ?_, hidles⟩
  · rw [h'.isIdle_iff, h'.queued_eq, hempty, List.length_nil]
  · exact ⟨hservice e he, hduring e he⟩

variable [Platform σ]

theorem requests_placed (b : Bus σ) (r : RequestId) (c : Command) :
    (b.placed r c).requests r = ((b.requests r).configured c).armed := by
  rw [placed, requests_startNext]
  simp [accept, note]

namespace Coherent

theorem toList_placed (h : b.Coherent) (hr : (b.requests r).status ≠ .pending) (c : Command) :
    (b.placed r c).queue.toList = b.queue.toList ++ [r] := by
  rw [placed, queue_startNext, (h.configure hr c).toList_accept ?_]
  · rfl
  · simpa [note, Request.configured] using hr

theorem endsWith_placed (h : b.Coherent) (hr : (b.requests r).status ≠ .pending) (c : Command) :
    (b.placed r c).EndsWith r c where
  last_eq := by rw [h.toList_placed hr, List.getLast?_concat]
  pending := by rw [requests_placed, Request.armed]
  command_eq := by rw [requests_placed, Request.armed, Request.configured]

/-- Nothing is left of the queue when the wait for its last request returns. -/
theorem toList_wait_placed (h : b.Coherent) (hr : (b.requests r).status ≠ .pending) {limit : Nat}
    {status : Status} (hwait : (b.placed r c).wait r limit = some (status, b')) :
    b'.queue.toList = [] := by
  have hqueue := h.toList_placed hr c
  have hlast : (b.placed r c).queue.toList[b.queue.toList.length]? = some r := by
    rw [hqueue, List.getElem?_concat_length]
  have hplaced : (b.placed r c).Coherent := (place_of_idle hr c).2.coherent h
  have hlength : (b.placed r c).queue.toList.length = b.queue.toList.length + 1 := by
    rw [hqueue, List.length_append, List.length_singleton]
  rcases hplaced.drains_wait hwait hlast with hdrains | ⟨q, -, hdrains, -⟩
  · rw [hdrains.left_eq, List.drop_eq_nil_iff]
    exact Nat.le_of_eq hlength
  · rw [hdrains.left_eq, List.drop_eq_nil_iff]
    exact Nat.le_succ_of_le (Nat.le_of_eq hlength)

/-- To wait for a request, place it and wait for it again is to transact it. -/
theorem transacts_wait (h : b.Coherent) {limit : Nat} {s₁ s : Status} {b₁ : Bus σ}
    (hwait₁ : b.wait r limit = some (s₁, b₁))
    (hwait : (b₁.placed r c).wait r limit = some (s, b')) :
    s ≠ .pending ∧ ∃ t, b.Transacts r c t s b' := by
  obtain ⟨⟨as₁, hpath₁, has₁⟩, hr, -⟩ := path_wait hwait₁
  obtain ⟨⟨as, hpath, has⟩, hidle, rfl⟩ := path_wait hwait
  have hall := (hpath₁.trans (place_of_idle hr c).2).trans hpath
  obtain ⟨added, hhistory, hadded⟩ := hall.grows
  rw [List.filterMap_append, List.filterMap_append, has₁, has] at hadded
  have hempty := (hpath₁.coherent h).toList_wait_placed hr hwait
  exact ⟨hidle, h.transacts (hall.coherent h) hhistory hadded hempty⟩

end Coherent

end Bus

namespace System

variable {σ : Type} [Platform σ] {s s' : System σ} {i : Nat} {x : Expander} {pin : UInt16}
  {limit : Nat} {reply : Reply}

theorem writePin_returns (hs : s.bus.Coherent) (hx : s.expanders[i]? = some x)
    (hown : x.owns pin = true) {level : Bool}
    (h : s.perform limit (.writePin i pin level) = some (reply, s')) :
    reply = .ok ∧ ∃ y, s'.expanders[i]? = some y ∧
      s'.bus.EndsWith x.writeRequest (.write y.address (.holding [y.latch])) := by
  obtain ⟨hi, -⟩ := List.getElem?_eq_some_iff.1 hx
  simp only [perform, writePin, hx] at h
  obtain ⟨⟨result, x', b⟩, hwrite, hreply⟩ := Option.map_eq_some_iff.1 h
  cases hreply
  obtain ⟨rfl, rfl, status, b₁, hwait, rfl⟩ := Expander.writePin_of_owned hown hwrite
  obtain ⟨⟨as, hpath, -⟩, hr, -⟩ := Bus.path_wait hwait
  have hkept : (x.drive (x.bit pin) level).address = x.address := by cases level <;> rfl
  refine ⟨rfl, _, List.getElem?_set_self hi, ?_⟩
  rw [hkept]
  exact (hpath.coherent hs).endsWith_placed hr _

theorem readPin_returns (hs : s.bus.Coherent) (hx : s.expanders[i]? = some x)
    (hown : x.owns pin = true) (h : s.perform limit (.readPin i pin) = some (reply, s')) :
    ∃ y t status, s'.expanders[i]? = some y ∧
      s.bus.Transacts x.readRequest (.read y.address 1 (.holding [y.latch])) t status s'.bus ∧
      status ≠ .pending ∧
      reply = if status = .ok then
        .level ((s'.bus.requests x.readRequest).received.bytes.headD 0 &&& x.bit pin != 0)
      else .pinError (.bus status) := by
  obtain ⟨hi, -⟩ := List.getElem?_eq_some_iff.1 hx
  simp only [perform, readPin, hx] at h
  obtain ⟨⟨result, x', b⟩, hread, hreply⟩ := Option.map_eq_some_iff.1 h
  cases hreply
  obtain ⟨rfl, s₁, b₁, status, hwait₁, hwait, rfl⟩ := Expander.readPin_of_owned hown hread
  obtain ⟨hpending, t, ht⟩ := hs.transacts_wait hwait₁ hwait
  refine ⟨_, t, status, List.getElem?_set_self hi, ht, hpending, ?_⟩
  split <;> rfl

/-- What has become of the bus and what the reply is when an operation on an owned pin returns, in
every state that a run leads to. -/
theorem pin_operations_return (platform : σ) (config : Config) (xs : List Expander)
    {ms : List (Move σ)} {replies : List Reply}
    (h : (create platform config xs).run ms = some (replies, s)) (hx : s.expanders[i]? = some x)
    (hown : x.owns pin = true) :
    (∀ limit level reply s', s.perform limit (.writePin i pin level) = some (reply, s') →
      reply = .ok ∧ ∃ y, s'.expanders[i]? = some y ∧
        s'.bus.EndsWith x.writeRequest (.write y.address (.holding [y.latch]))) ∧
    ∀ limit reply s', s.perform limit (.readPin i pin) = some (reply, s') →
      ∃ y t status, s'.expanders[i]? = some y ∧
        s.bus.Transacts x.readRequest (.read y.address 1 (.holding [y.latch])) t status s'.bus ∧
        status ≠ .pending ∧
        ((∃ high, reply = .level high) ↔ status = .ok) ∧
        (∀ e, reply = .pinError (.bus e) ↔ status = e ∧ status ≠ .ok) ∧
        ∀ e, reply ≠ .pinError (.request e) := by
  have hs : s.bus.Coherent := coherent_run h (Bus.coherent_create platform config)
  refine ⟨fun _ _ _ _ hwrite => writePin_returns hs hx hown hwrite, fun limit reply s' hread => ?_⟩
  obtain ⟨y, t, status, hy, ht, hpending, rfl⟩ := readPin_returns hs hx hown hread
  refine ⟨y, t, status, hy, ht, hpending, ?_, fun e => ?_, fun e => ?_⟩ <;>
    by_cases hstatus : status = .ok <;> simp [hstatus]

def faultySystem : System Bench :=
  create ((Bench.create 0 0).adjust (.script 0x20 [[.finish], [.complete (.failed .overrun)]]))
    ⟨Config.standardMode, 0, .polled⟩ [.attach 0x20 0 8 1 1]

/-- A pin is read while a write is queued, and the read fails. -/
theorem pin_operations_return_faulty :
    ∃ s s' t, ∃ y : Expander,
      faultySystem.run [.call 0 .bringUp, .call 0 (.writePin 0 3 true)] =
        some ([.done, .ok], s) ∧
      s.bus.queue.toList = [1] ∧
      s.perform 2 (.readPin 0 2) = some (.pinError (.bus (.failed .overrun)), s') ∧
      s.bus.Transacts 1 (.read y.address 1 (.holding [y.latch])) t (.failed .overrun) s'.bus := by
  have hwritten : ∃ s, faultySystem.run [.call 0 .bringUp, .call 0 (.writePin 0 3 true)] =
        some ([.done, .ok], s) ∧
      s.bus.queue.toList = [1] ∧ s.expanders[0]?.map Expander.readRequest = some 1 ∧
      s.expanders[0]?.map (fun x => x.owns 2) = some true := ⟨_, rfl, rfl, rfl, rfl⟩
  have hboth : ∃ s', faultySystem.run
        ([.call 0 .bringUp, .call 0 (.writePin 0 3 true)] ++ [.call 2 (.readPin 0 2)]) =
      some ([.done, .ok, .pinError (.bus (.failed .overrun))], s') := ⟨_, rfl⟩
  obtain ⟨s, hrun, hqueue, hrequest, hown⟩ := hwritten
  obtain ⟨s', hboth⟩ := hboth
  obtain ⟨x, hx, hrequest⟩ := Option.map_eq_some_iff.1 hrequest
  rw [hx, Option.map_some, Option.some.injEq] at hown
  have hread : s.perform 2 (.readPin 0 2) = some (.pinError (.bus (.failed .overrun)), s') :=
    move_of_run_concat hrun hboth
  obtain ⟨-, hreturn⟩ := pin_operations_return _ _ _ hrun hx hown
  obtain ⟨y, t, status, -, ht, -, -, hbus, -⟩ := hreturn 2 _ s' hread
  obtain ⟨rfl, -⟩ := (hbus _).1 rfl
  rw [hrequest] at ht
  exact ⟨s, s', t, y, hrun, hqueue, hread, ht⟩

end System

end SharedBus
