import SharedBus.Proofs.Configuration
import SharedBus.Proofs.Sending

/-!
# What is received

Of the bytes that the hardware offers to a transfer, over all its events, those within
the length of the read are taken and no others. When the transfer is retired, however it
ended, they go to its request, and from there the front of them is copied to whoever asks,
as far as the buffer handed over has room. They stay until the next transfer of the request
is retired or the request is set up for another read.
-/

namespace SharedBus

structure Offer where
  byte : UInt8
  taken : Bool
  deriving DecidableEq, Repr

def Action.offered? : Action → Option UInt8
  | .receive byte => some byte
  | .send | .complete _ => none

namespace Offer

def of? : Action → Answer → Option Offer
  | .receive byte, .received taken => some ⟨byte, taken⟩
  | _, _ => none

def among (actions : List Action) (answers : List Answer) : List Offer :=
  (List.zipWith of? actions answers).filterMap id

def bytes (offers : List Offer) : List UInt8 := (offers.filter taken).map byte

structure Fills (n : Nat) (offers : List Offer) : Prop where
  taken : ∀ o ∈ offers.take n, o.taken = true
  refused : ∀ o ∈ offers.drop n, o.taken = false

theorem among_cons (a : Action) (answer : Answer) (actions : List Action)
    (answers : List Answer) : among (a :: actions) (answer :: answers) =
      (of? a answer).toList ++ among actions answers := by
  rw [among, List.zipWith_cons_cons]
  cases of? a answer <;> rfl

theorem bytes_append (xs ys : List Offer) : bytes (xs ++ ys) = bytes xs ++ bytes ys := by
  rw [bytes, List.filter_append, List.map_append, bytes, bytes]

theorem bytes_eq_nil {offers : List Offer} (h : Fills 0 offers) : bytes offers = [] := by
  have hnone : offers.filter taken = [] :=
    List.filter_eq_nil_iff.2 fun o ho => by simp [h.refused o ho]
  rw [bytes, hnone, List.map_nil]

theorem bytes_eq_take {n : Nat} {offers : List Offer} (h : Fills n offers) :
    bytes offers = (offers.map byte).take n := by
  have hfront : bytes (offers.take n) = (offers.take n).map byte := by
    rw [bytes, List.filter_eq_self.2 h.taken]
  have hlater : bytes (offers.drop n) = [] := bytes_eq_nil ⟨by simp, h.refused⟩
  calc bytes offers
    _ = bytes (offers.take n) ++ bytes (offers.drop n) := by
      rw [← bytes_append, List.take_append_drop]
    _ = (offers.map byte).take n := by rw [hfront, hlater, List.append_nil, List.map_take]

theorem length_bytes_le {n : Nat} {offers : List Offer} (h : Fills n offers) :
    (bytes offers).length ≤ n := by
  rw [bytes_eq_take h]
  exact List.length_take_le _ _

end Offer

namespace Transfer

variable {t : Transfer}

def offers (t : Transfer) (actions : List Action) : List Offer :=
  Offer.among actions (t.answers actions)

theorem offers_cons (t : Transfer) (a : Action) (actions : List Action) :
    t.offers (a :: actions) =
      (Offer.of? a (t.perform a).1).toList ++ (t.perform a).2.offers actions :=
  Offer.among_cons ..

theorem byte_offers (t : Transfer) (actions : List Action) :
    (t.offers actions).map Offer.byte = actions.filterMap Action.offered? := by
  induction actions generalizing t with
  | nil => rfl
  | cons a actions ih =>
    rw [offers_cons, List.map_append, ih]
    cases a <;> rfl

/-- A byte is taken as long as the read is not complete. -/
theorem receive_eq (h : t.command.readLength ≤ Buffer.capacity) (byte : UInt8) :
    t.receive byte = if t.unread = 0 then (false, t)
      else (true, { t with received := ⟨t.received.bytes ++ [byte]⟩ }) := by
  by_cases hn : t.unread = 0
  · rw [receive, if_pos hn, if_pos hn]
  · have hroom : t.received.bytes.length < Buffer.capacity := by
      unfold unread at hn
      omega
    rw [receive, if_neg hn, if_neg hn, Buffer.push?_eq_some byte hroom]

/-- All that can come of an offer. -/
theorem offer_cases (h : t.command.readLength ≤ Buffer.capacity) (a : Action) :
    (Offer.of? a (t.perform a).1 = none ∧ (t.perform a).2.received = t.received) ∨
    (∃ byte, t.unread = 0 ∧ Offer.of? a (t.perform a).1 = some ⟨byte, false⟩ ∧
      (t.perform a).2.received = t.received) ∨
    (∃ byte, t.unread ≠ 0 ∧ Offer.of? a (t.perform a).1 = some ⟨byte, true⟩ ∧
      (t.perform a).2.received = ⟨t.received.bytes ++ [byte]⟩) := by
  cases a with
  | send => exact .inl ⟨rfl, by cases hu : t.unsent <;> simp [perform, send, hu]⟩
  | receive byte =>
    rw [perform, receive_eq h]
    by_cases hn : t.unread = 0
    · rw [if_pos hn]
      exact .inr (.inl ⟨byte, hn, rfl, rfl⟩)
    · rw [if_neg hn]
      exact .inr (.inr ⟨byte, hn, rfl, rfl⟩)
  | complete status =>
    refine .inl ⟨rfl, ?_⟩
    simp only [perform, complete]
    split <;> rfl

/-- The bytes taken are added to those received. -/
theorem received_offers (h : t.command.readLength ≤ Buffer.capacity) (actions : List Action) :
    (t.advance actions).received.bytes =
      t.received.bytes ++ Offer.bytes (t.offers actions) := by
  induction actions generalizing t with
  | nil => exact (List.append_nil _).symm
  | cons a actions ih =>
    rw [advance_cons, ih (by rwa [command_perform]), offers_cons, Offer.bytes_append]
    rcases offer_cases h a with ⟨hoffer, hkept⟩ | ⟨byte, -, hoffer, hkept⟩ | ⟨byte, -, hoffer, hgot⟩
    · rw [hoffer, hkept]
      rfl
    · rw [hoffer, hkept]
      rfl
    · rw [hoffer, hgot, ← List.append_assoc]
      rfl

/-- Bytes are taken until the read is complete. -/
theorem fills_offers (h : t.command.readLength ≤ Buffer.capacity) (actions : List Action) :
    Offer.Fills t.unread (t.offers actions) := by
  induction actions generalizing t with
  | nil => exact ⟨by simp [offers, Offer.among], by simp [offers, Offer.among]⟩
  | cons a actions ih =>
    have ih := ih (t := (t.perform a).2) (by rwa [command_perform])
    rw [unread, command_perform] at ih
    rw [offers_cons]
    rcases offer_cases h a with
      ⟨hoffer, hkept⟩ | ⟨byte, hn, hoffer, hkept⟩ | ⟨byte, hn, hoffer, hgot⟩
    · rw [hkept] at ih
      rw [hoffer]
      exact ih
    · rw [hkept, ← unread, hn] at ih
      rw [hoffer, hn]
      exact ⟨by simp, List.forall_mem_cons.2 ⟨rfl, ih.refused⟩⟩
    · obtain ⟨n, hn⟩ := Nat.exists_eq_succ_of_ne_zero hn
      have hleft : t.command.readLength - (t.received.bytes ++ [byte]).length = n := by
        rw [List.length_append, Nat.sub_add_eq, ← unread, hn]
        rfl
      rw [hgot, hleft] at ih
      rw [hoffer, hn]
      exact ⟨List.forall_mem_cons.2 ⟨rfl, ih.taken⟩, ih.refused⟩

end Transfer

/-- A request loses what it has received to the next read alone. -/
theorem Ledger.received_after {l : Ledger} {e : Event} {r : RequestId}
    (hretired : e.retired? ≠ some r) (hgiven : ∀ c, e = .configured r c → c.isRead = false) :
    ((l.after e).requests r).received = (l.requests r).received := by
  cases e with
  | configured r' c =>
    by_cases hr : r' = r
    · subst hr
      have hwrite : ¬ c.isRead = true := by simp [hgiven c rfl]
      rw [after, requests_setRequest_self]
      exact if_neg hwrite
    · exact congrArg Request.received (l.requests_setRequest_of_ne _ (Ne.symm hr))
  | accepted r' =>
    exact apply_setRequest (q := (l.requests r').armed) Request.received rfl r
  | polled r' m =>
    exact apply_setRequest (q := (l.requests r').listen m) Request.received rfl r
  | retired t s =>
    have hne : r ≠ t.request := fun hr => hretired (congrArg some hr.symm)
    exact congrArg Request.received (l.requests_setRequest_of_ne _ hne)
  | reset | clockSet | closed | begun | serviced | broughtUp | shutDown | recovered => rfl

namespace History

/-- The offers made to the transfer begun last, over all its events. -/
def offers (h : History) : List Offer := Offer.among (actions h) (answers h)

structure Leaves (r : RequestId) (later : History) : Prop where
  retired : ∀ e ∈ later, e.retired? ≠ some r
  given : ∀ job, (r, job) ∈ jobs later → job.operation.isRead = false

variable {t t' : Transfer} {since after earlier later h : History} {status : Status}
  {r : RequestId}

theorem Lawful.offers_eq (hl : Lawful (since ++ .begun t :: h))
    (hsince : ∀ e ∈ since, e.begun? = none) :
    offers (since ++ .begun t :: h) = t.offers (actions (since ++ .begun t :: h)) := by
  rw [offers, (hl.progress hsince).1]
  rfl

/-- A transfer takes of the bytes offered as many as it is to read, and no more. -/
theorem Lawful.fills (hl : Lawful (since ++ .begun t :: h)) (hsince : ∀ e ∈ since, e.begun? = none)
    (hlength : t.command.readLength ≤ Buffer.capacity) :
    Offer.Fills t.command.readLength (offers (since ++ .begun t :: h)) := by
  have hunread : t.unread = t.command.readLength := by
    rw [hl.of_append.begun_eq_ofCommand]
    rfl
  rw [hl.offers_eq hsince, ← hunread]
  exact Transfer.fills_offers hlength _

/-- What is retired has received the bytes taken. -/
theorem Lawful.received_retired
    (hl : Lawful (after ++ .retired t' status :: (earlier ++ .begun t :: h)))
    (hafter : ∀ e ∈ after, e.begun? = none) (hearlier : ∀ e ∈ earlier, e.begun? = none)
    (hlength : t.command.readLength ≤ Buffer.capacity) :
    t'.command = t.command ∧ t'.received.bytes =
      Offer.bytes (offers (after ++ .retired t' status :: (earlier ++ .begun t :: h))) := by
  have hretired := hl.of_append
  have ht' := (hretired.2.progress hearlier).2 _ hretired.1.1
  have hempty : t.received.bytes = [] := by
    rw [hretired.2.of_append.begun_eq_ofCommand]
    rfl
  have hoffers : offers (after ++ .retired t' status :: (earlier ++ .begun t :: h)) =
      t.offers (actions (earlier ++ .begun t :: h)) := by
    obtain ⟨-, hactions, hanswers⟩ := hl.answers_append rfl hafter
    rw [← hretired.2.offers_eq hearlier, offers, hactions, hanswers]
    rfl
  refine ⟨?_, ?_⟩
  · have hcommand : (t'.stamp 0).command = t.command := by rw [ht', Transfer.command_advance]
    exact hcommand
  · have hreceived : (t'.stamp 0).received.bytes =
        (t.advance (actions (earlier ++ .begun t :: h))).received.bytes := by rw [ht']
    rw [hoffers, ← List.nil_append (Offer.bytes _), ← hempty, ← Transfer.received_offers hlength]
    exact hreceived

/-- A request keeps the bytes that it has received until it is retired or set up for a read. -/
theorem Leaves.received_eq (hlater : Leaves r later) (h : History) :
    ((ledger (later ++ h)).requests r).received = ((ledger h).requests r).received := by
  induction later with
  | nil => rfl
  | cons e later ih =>
    obtain ⟨hretired, hearlier⟩ := List.forall_mem_cons.1 hlater.retired
    have hgiven : ∀ c, e = .configured r c → c.isRead = false := by
      rintro c rfl
      rw [← Command.isRead_operation]
      exact hlater.given c.job List.mem_cons_self
    have hrest : Leaves r later := ⟨hearlier, fun job hjob => hlater.given job ?_⟩
    · rw [List.cons_append, ledger_cons, Ledger.received_after hretired hgiven, ih hrest]
    · exact jobs_append [e] later ▸ List.mem_append_right _ hjob

end History

/-- A retired request has received what its transfer has. -/
theorem Bus.Coherent.received_of_retired {σ : Type} {b : Bus σ} {later h : History} {t : Transfer}
    {status : Status} (hb : b.Coherent) (hsplit : b.history = later ++ .retired t status :: h)
    (hlater : History.Leaves t.request later)
    (hroom : t.received.bytes.length ≤ Buffer.capacity) :
    (b.requests t.request).received.bytes = t.received.bytes := by
  have hretired : ((History.ledger (.retired t status :: h)).requests t.request).received =
      .holding t.received.bytes :=
    congrArg Request.received (Ledger.requests_setRequest_self _ _ _)
  rw [hb.requests_eq, hsplit, hlater.received_eq, hretired, Buffer.bytes_holding hroom]

theorem Job.length_last_le {n : Nat} {given : List (RequestId × Job)}
    (h : ∀ x ∈ given, x.2.length ≤ n) (r : RequestId) : (last r given).length ≤ n := by
  induction given with
  | nil => exact Nat.zero_le n
  | cons x given ih =>
    obtain ⟨hx, hgiven⟩ := List.forall_mem_cons.1 h
    rw [last]
    split
    · exact hx
    · exact ih hgiven

theorem Command.readLength_eq_zero {c : Command} (h : c.isRead = false) : c.readLength = 0 := by
  cases c with
  | write | writeFixed => rfl
  | read => cases h

/-- `n` bytes have been copied from the front of `bytes` to that of `out`, as many as there are and
as fit. -/
structure Overlays (bytes out : List UInt8) (n : Nat) (out' : List UInt8) : Prop where
  count_eq : n = min out.length bytes.length
  length_eq : out'.length = out.length
  front_eq : out'.take n = bytes.take n
  rest_eq : out'.drop n = out.drop n

theorem Request.overlays_readInto {q : Request} (h : q.status ≠ .pending) (out : List UInt8) :
    ∃ n out', q.readInto out = .ok (n, out') ∧ Overlays q.received.bytes out n out' := by
  have hfront : (q.received.bytes.take (min out.length q.received.bytes.length)).length =
      min out.length q.received.bytes.length := by
    rw [List.length_take]
    exact Nat.min_eq_left (Nat.min_le_right _ _)
  refine ⟨_, _, if_neg (by simpa using h), rfl, ?_, ?_, ?_⟩
  · rw [List.length_append, hfront, List.length_drop]
    exact Nat.add_sub_cancel' (Nat.min_le_left _ _)
  · exact List.take_left' hfront
  · exact List.drop_left' hfront

namespace System

variable {σ : Type} [Platform σ] {s s' : System σ} {r : RequestId}

/-- Whatever buffer is handed over, reading `r` copies `bytes` into it and changes nothing else.
While `r` is pending the buffer is left alone as well. -/
structure ReadsBack (s : System σ) (r : RequestId) (bytes : List UInt8) : Prop where
  pending : (s.bus.requests r).status = .pending → ∀ limit out,
    s.perform limit (.readInto r out) = some (.notCopied .pending out, s)
  idle : (s.bus.requests r).status ≠ .pending → ∀ limit out, ∃ n out',
    s.perform limit (.readInto r out) = some (.copied n out', s) ∧ Overlays bytes out n out'

theorem readsBack_received (s : System σ) (r : RequestId) :
    s.ReadsBack r (s.bus.requests r).received.bytes where
  pending hr limit out := by
    rw [perform, readInto, Request.readInto_of_pending hr]
  idle hr limit out := by
    obtain ⟨n, out', hread, hout⟩ := Request.overlays_readInto hr out
    exact ⟨n, out', by rw [perform, readInto, hread], hout⟩

theorem length_le_of_gave {m : Move σ} {reply : Reply} {job : Job}
    (h : s.move m = some (reply, s')) (hgave : m.gave? s.expanders reply = some (r, job)) :
    job.length ≤ Buffer.capacity := by
  cases m with
  | shift platform => cases hgave
  | call limit c =>
    rw [Move.gave?] at hgave
    split at hgave
    · rename_i hg
      cases c with
      | setRead r' address length lead =>
        obtain ⟨c, hc⟩ := exists_of_attempt_granted (Option.some.inj h) hg
        obtain ⟨-, rfl⟩ := Prod.mk.inj (Option.some.inj hgave)
        exact (Command.le_of_reading hc).1
      | read r' address length lead =>
        obtain ⟨c, hc⟩ := exists_of_request_granted h hg
        obtain ⟨-, rfl⟩ := Prod.mk.inj (Option.some.inj hgave)
        exact (Command.le_of_reading hc).1
      | write | writeFixed | setWrite | setWriteFixed =>
        obtain ⟨-, rfl⟩ := Prod.mk.inj (Option.some.inj hgave)
        exact Nat.zero_le _
      | writePin =>
        obtain ⟨x, -, hx⟩ := Option.map_eq_some_iff.1 hgave
        obtain ⟨-, rfl⟩ := Prod.mk.inj hx
        exact Nat.zero_le _
      | readPin =>
        obtain ⟨x, -, hx⟩ := Option.map_eq_some_iff.1 hgave
        obtain ⟨-, rfl⟩ := Prod.mk.inj hx
        exact Nat.succ_le_succ (Nat.zero_le _)
      | _ => cases hgave
    · cases hgave

/-- No read is longer than what a request has room for. -/
theorem length_le_of_given {ms : List (Move σ)} {replies : List Reply}
    (h : s.run ms = some (replies, s'))
    (hs : ∀ x ∈ History.jobs s.bus.history, x.2.length ≤ Buffer.capacity) :
    ∀ x ∈ History.jobs s'.bus.history, x.2.length ≤ Buffer.capacity := by
  refine run_preserves
    (P := fun s => ∀ x ∈ History.jobs s.bus.history, x.2.length ≤ Buffer.capacity) h
    (fun s₁ s₂ m reply hs₁ hmove x hx => ?_) hs
  rw [jobs_move hmove, List.mem_append, Option.mem_toList] at hx
  rcases hx with hgave | hearlier
  · exact length_le_of_gave hmove hgave
  · exact hs₁ x hearlier

/-- A request reads back what it has received until it is retired or set up for a read. -/
theorem readsBack_of_leaves {later h : History} {bytes : List UInt8} (hs : s.bus.Coherent)
    (hsplit : s.bus.history = later ++ h) (hlater : History.Leaves r later)
    (hreceived : ((History.ledger h).requests r).received.bytes = bytes) : s.ReadsBack r bytes := by
  rw [← hreceived, ← hlater.received_eq, ← hsplit, ← hs.requests_eq]
  exact s.readsBack_received r

theorem readsBack_of_retired {later h : History} {t : Transfer} {status : Status}
    (hs : s.bus.Coherent) (hsplit : s.bus.history = later ++ .retired t status :: h)
    (hlater : History.Leaves t.request later)
    (hroom : t.received.bytes.length ≤ Buffer.capacity) :
    s.ReadsBack t.request t.received.bytes := by
  rw [← hs.received_of_retired hsplit hlater hroom]
  exact s.readsBack_received t.request

theorem readsBack_of_configured {later h : History} {c : Command} (hs : s.bus.Coherent)
    (hsplit : s.bus.history = later ++ .configured r c :: h) (hc : c.isRead = true)
    (hlater : History.Leaves r later) : s.ReadsBack r [] := by
  apply readsBack_of_leaves hs hsplit hlater
  have hcleared : ((History.ledger (.configured r c :: h)).requests r).received = .empty :=
    (congrArg Request.received (Ledger.requests_setRequest_self _ _ _)).trans (if_pos hc)
  rw [hcleared]
  rfl

/-- The jobs given in a run are those that the replies show. A transfer takes the first bytes that
it is offered, as many as its job has to read. Once it is retired its request reports their number,
and reads them back until it is retired again or given a read to do. Just given one, it has nothing
to read back. -/
theorem received_in_order {platform : σ} {config : Config} {xs : List Expander}
    {ms : List (Move σ)} {replies : List Reply}
    (h : (create platform config xs).run ms = some (replies, s)) :
    History.jobs s.bus.history = givenJobs xs [] ms replies ∧
      (∀ later since t h, s.bus.history = later ++ (since ++ .begun t :: h) →
        (∀ e ∈ since, e.begun? = none) →
        ∃ between before, h = between ++ .accepted t.request :: before ∧
          History.Spares t.request between ∧
          let job := Job.last t.request (History.jobs before)
          let offers := History.offers (since ++ .begun t :: h)
          offers.map Offer.byte =
            (History.actions (since ++ .begun t :: h)).filterMap Action.offered? ∧
          Offer.Fills job.length offers ∧
          ∀ after t' status earlier, since = after ++ .retired t' status :: earlier →
            (job.operation.isRead = true → .accepted t.request ∉ later ++ after →
              (s.bus.requests t.request).count = (Offer.bytes offers).length) ∧
            (job.operation.isRead = false → Offer.bytes offers = []) ∧
            (History.Leaves t.request (later ++ after) →
              s.ReadsBack t.request (Offer.bytes offers))) ∧
      ∀ later r c h, s.bus.history = later ++ .configured r c :: h → c.isRead = true →
        History.Leaves r later → s.ReadsBack r [] := by
  have hs : s.bus.Coherent := coherent_run h (Bus.coherent_create platform config)
  have hlength := length_le_of_given h fun x hx => absurd hx List.not_mem_nil
  refine ⟨(givenJobs_eq h).symm, fun later since t h hsplit hsince => ?_,
    fun later r c h hsplit hc hlater => readsBack_of_configured hs hsplit hc hlater⟩
  have hl : History.Lawful (later ++ (since ++ .begun t :: h)) := hsplit ▸ hs.lawful
  obtain ⟨hpresents, between, before, hbefore, hspares, hjob⟩ :=
    hl.of_append.of_append.presents_begun
  have hroom : t.command.readLength ≤ Buffer.capacity := by
    rw [hpresents.readLength_eq]
    refine Job.length_last_le (fun x hx => hlength x ?_) _
    rw [hsplit, History.jobs_append, History.jobs_append]
    exact List.mem_append_right _ (List.mem_append_right _ hx)
  have hfills := hl.of_append.fills hsince hroom
  rw [hjob] at hpresents
  refine ⟨between, before, hbefore, hspares, ?_, ?_, ?_⟩
  · rw [hl.of_append.offers_eq hsince, Transfer.byte_offers]
  · rw [← hpresents.readLength_eq]
    exact hfills
  rintro after t' status earlier rfl
  have hafter : ∀ e ∈ after, e.begun? = none := fun e he => hsince e (List.mem_append_left _ he)
  have hearlier : ∀ e ∈ earlier, e.begun? = none :=
    fun e he => hsince e (List.mem_append_right _ (List.mem_cons_of_mem _ he))
  rw [List.append_assoc, List.cons_append] at hl hsplit hfills ⊢
  obtain ⟨hcommand, hreceived⟩ := hl.of_append.received_retired hafter hearlier hroom
  obtain ⟨hrequest, -⟩ := hl.of_append.byteCount_retired hafter hearlier
  rw [← List.append_assoc] at hsplit
  rw [← hpresents.operation_eq, Command.isRead_operation, ← hreceived, ← hrequest]
  refine ⟨fun hread hnot => ?_, fun hwrite => ?_, fun hlater => ?_⟩
  · rw [count_of_retired hs hsplit hnot, Transfer.byteCount, hcommand, if_pos hread]
  · rw [Command.readLength_eq_zero hwrite] at hfills
    rw [hreceived, Offer.bytes_eq_nil hfills]
  · apply readsBack_of_retired hs hsplit hlater
    rw [hreceived]
    exact Nat.le_trans (Offer.length_bytes_le hfills) hroom

def lavishBench : Bench := { Bench.create 0 0 with
  rounds := fun _ => [[.receive [1, 2]], [.receive [3, 4], .complete (.failed .bus)]] }

/-- The fault does not matter, nor that the request is set up for a write. -/
theorem received_in_order_lavish :
    ∃ replies s, (create lavishBench Config.standard []).run
        [.call 0 .bringUp, .call 0 (.read 1 0x48 3 []), .call 0 .handleEvent,
          .call 0 .handleEvent, .call 0 (.setWrite 1 0x48 [9])] = some (replies, s) ∧
      (s.bus.requests 1).status = .failed .bus ∧ s.ReadsBack 1 [1, 2, 3] := by
  have hrun : ∃ replies s t t' command second first h, (create lavishBench Config.standard []).run
        [.call 0 .bringUp, .call 0 (.read 1 0x48 3 []), .call 0 .handleEvent,
          .call 0 .handleEvent, .call 0 (.setWrite 1 0x48 [9])] = some (replies, s) ∧
      s.bus.history = [.configured 1 command] ++
        ([.retired t' (.failed .bus), second, first] ++ .begun t :: h) ∧
      (∀ e ∈ [.retired t' (.failed .bus), second, first], e.begun? = none) ∧
      (s.bus.requests 1).status = .failed .bus ∧ t.request = 1 ∧ command.isRead = false ∧
      Offer.bytes (History.offers ([.retired t' (.failed .bus), second, first] ++ .begun t :: h)) =
        [1, 2, 3] :=
    ⟨_, _, _, _, _, _, _, _, rfl, rfl, by simp [Event.begun?], rfl, rfl, rfl, rfl⟩
  obtain ⟨replies, s, t, t', command, second, first, h, hrun, hsplit, hsince, hstatus, ht, hwrite,
    hbytes⟩ := hrun
  obtain ⟨-, hreceived, -⟩ := received_in_order hrun
  obtain ⟨_, _, -, -, -, -, hretired⟩ := hreceived _ _ t h hsplit hsince
  obtain ⟨-, -, hreads⟩ := hretired [] t' (.failed .bus) [second, first] rfl
  refine ⟨replies, s, hrun, hstatus, ?_⟩
  rw [← ht, ← hbytes]
  refine hreads ⟨by simp [Event.retired?], fun job hjob => ?_⟩
  obtain rfl : job = command.job := by simpa [ht] using hjob
  rw [← hwrite]
  exact command.isRead_operation

end System

end SharedBus
