import SharedBus.Proofs.CallActs
import SharedBus.Proofs.Receiving
import SharedBus.Proofs.TimeoutCheck

/-!
# Bounds

The lengths of a command are checked when a request is set up and never again. What is kept in a
request itself then fits into its buffers, a transfer never receives more than was asked for or
hands out more than there is, and all that is done later without a check succeeds: counting down
the bytes unread, storing a byte while some are unread, taking over what was received. Only writes
from fixed storage are longer than a buffer, and those are not copied.
-/

namespace SharedBus

/-- What fits is never refused. -/
theorem Buffer.append?_eq_some {data : List UInt8} (h : data.length ≤ capacity) :
    empty.append? data = some (holding data) := by
  have hfits : empty.bytes.length + data.length ≤ capacity := by simpa [empty] using h
  rw [holding, append?, if_pos hfits, Option.getD_some]

namespace Command

def inline : Command → Buffer
  | .write _ data => data
  | .writeFixed .. => .empty
  | .read _ _ lead => lead

/-- A command that a request can be set up with: what has to be copied has been measured. -/
inductive Measured : Command → Prop
  | copying {address : UInt8} {data : List UInt8} {c : Command}
      (h : Command.copying address data = .ok c) : Measured c
  | fixed (address : UInt8) (data : List UInt8) : Measured (.writeFixed address data)
  | reading {address : UInt8} {length : Nat} {lead : List UInt8} {c : Command}
      (h : Command.reading address length lead = .ok c) : Measured c

structure Bounded (c : Command) : Prop where
  inline : c.inline.bytes.length ≤ Buffer.capacity
  readLength : c.readLength ≤ Buffer.capacity
  isRead : 0 < c.readLength → c.operation.isRead = true

theorem isRead_of_readLength {c : Command} (h : 0 < c.readLength) : c.operation.isRead = true := by
  rw [isRead_operation]
  cases hread : c.isRead with
  | true => rfl
  | false =>
    rw [readLength_eq_zero hread] at h
    cases h

theorem Measured.bounded {c : Command} (h : c.Measured) : c.Bounded := by
  cases h with
  | copying h =>
    rw [copying_eq_ok h]
    exact ⟨Buffer.length_holding_le _, Nat.zero_le _, isRead_of_readLength⟩
  | fixed => exact ⟨Nat.zero_le _, Nat.zero_le _, isRead_of_readLength⟩
  | reading h =>
    rw [reading_eq_ok h]
    exact ⟨Buffer.length_holding_le _, (le_of_reading h).1, isRead_of_readLength⟩

/-- Once the check has passed all of the data is copied. -/
theorem filled_of_copying {address : UInt8} {data : List UInt8} {c : Command}
    (h : copying address data = .ok c) :
    Buffer.empty.append? data = some c.inline ∧ c.data = data := by
  have hfits := le_of_copying h
  rw [copying_eq_ok h]
  exact ⟨Buffer.append?_eq_some hfits, Buffer.bytes_holding hfits⟩

theorem filled_of_reading {address : UInt8} {length : Nat} {lead : List UInt8} {c : Command}
    (h : reading address length lead = .ok c) :
    Buffer.empty.append? lead = some c.inline ∧ c.data = lead ∧ c.readLength = length := by
  obtain ⟨-, hfits⟩ := le_of_reading h
  rw [reading_eq_ok h]
  exact ⟨Buffer.append?_eq_some hfits, Buffer.bytes_holding hfits, rfl⟩

end Command

/-! ### Transfers -/

namespace Transfer

variable {t : Transfer}

structure Bounded (t : Transfer) : Prop where
  command : t.command.Bounded
  received : t.received.bytes.length ≤ t.command.readLength
  sent : t.sent ≤ t.command.data.length
  inStep : t.InStep

structure LosesNothing (t : Transfer) : Prop where
  /-- No more has been received than can be counted down from. -/
  unread_add : t.unread + t.received.bytes.length = t.command.readLength
  push : t.unread ≠ 0 → ∀ byte, t.received.push? byte = some ⟨t.received.bytes ++ [byte]⟩
  receive : t.unread ≠ 0 → ∀ byte,
    t.receive byte = (true, { t with received := ⟨t.received.bytes ++ [byte]⟩ })
  /-- The request that it is retired to has room for all that was received. -/
  retire : Buffer.empty.append? t.received.bytes = some t.received ∧
    ∀ (q : Request) (status : Status), (q.retire t status).received = t.received

theorem length_lt_of_unread (h : t.unread ≠ 0) :
    t.received.bytes.length < t.command.readLength := by
  unfold unread at h
  omega

theorem bounded_ofCommand {c : Command} (h : c.Bounded) (r : RequestId) :
    (ofCommand r c).Bounded :=
  ⟨h, Nat.zero_le _, Nat.zero_le _, inStep_ofCommand r c⟩

namespace Bounded

theorem stamp (h : t.Bounded) (now : Ticks) : (t.stamp now).Bounded :=
  ⟨h.command, h.received, h.sent, h.inStep⟩

theorem fits (h : t.Bounded) : t.Fits := Nat.le_trans h.received h.command.readLength

theorem push (h : t.Bounded) (hn : t.unread ≠ 0) (byte : UInt8) :
    t.received.push? byte = some ⟨t.received.bytes ++ [byte]⟩ :=
  Buffer.push?_eq_some byte (Nat.lt_of_lt_of_le (length_lt_of_unread hn) h.command.readLength)

theorem perform (h : t.Bounded) (a : Action) : (t.perform a).2.Bounded := by
  have hinStep := h.inStep.perform a
  rcases t.perform_cases a with ⟨he, -⟩ | ⟨byte, rest, -, hunsent, he⟩ |
    ⟨byte, received, -, hn, hpush, he⟩ | ⟨status, -, -, he⟩
  · rwa [he]
  · have hleft : t.sent < t.command.data.length := by
      refine Nat.lt_of_not_le fun hall => ?_
      have hnone := h.inStep.trans (List.drop_eq_nil_of_le hall)
      rw [hunsent] at hnone
      cases hnone
    rw [he] at hinStep ⊢
    exact ⟨h.command, h.received, hleft, hinStep⟩
  · obtain rfl := Option.some.inj ((h.push hn byte).symm.trans hpush)
    rw [he] at hinStep ⊢
    refine ⟨h.command, ?_, h.sent, hinStep⟩
    rw [List.length_append]
    exact length_lt_of_unread hn
  · rw [he] at hinStep ⊢
    exact ⟨h.command, h.received, h.sent, hinStep⟩

theorem advance (h : t.Bounded) (actions : List Action) : (t.advance actions).Bounded := by
  induction actions generalizing t with
  | nil => exact h
  | cons a actions ih => exact ih (h.perform a)

theorem losesNothing (h : t.Bounded) : t.LosesNothing where
  unread_add := Nat.sub_add_cancel h.received
  push hn := h.push hn
  receive hn byte := by rw [receive_eq h.command.readLength, if_neg hn]
  retire := by
    have hheld : Buffer.holding t.received.bytes = t.received :=
      congrArg Buffer.mk (Buffer.bytes_holding h.fits)
    exact ⟨by rw [Buffer.append?_eq_some h.fits, hheld], fun _ _ => hheld⟩

end Bounded

end Transfer

/-! ### Requests -/

namespace Request

structure Bounded (q : Request) : Prop where
  command : q.command.Bounded
  received : q.received.bytes.length ≤ Buffer.capacity

namespace Bounded

variable {q : Request}

theorem configured (h : q.Bounded) {c : Command} (hc : c.Bounded) : (q.configured c).Bounded := by
  refine ⟨hc, ?_⟩
  simp only [Request.configured]
  split
  · exact Nat.zero_le _
  · exact h.received

theorem armed (h : q.Bounded) : q.armed.Bounded := ⟨h.command, h.received⟩

theorem listen (h : q.Bounded) (l : ListenerId) : (q.listen l).Bounded := ⟨h.command, h.received⟩

theorem retire (h : q.Bounded) (t : Transfer) (status : Status) : (q.retire t status).Bounded :=
  ⟨h.command, Buffer.length_holding_le _⟩

end Bounded

end Request

namespace Bus

variable {σ : Type} {b : Bus σ}

structure Bounded (b : Bus σ) : Prop where
  requests : ∀ r, (b.requests r).Bounded
  active : ∀ t, b.active = some t → t.Bounded

theorem bounded_create (platform : σ) (config : Config) : (create platform config).Bounded :=
  ⟨fun _ => ⟨⟨Nat.zero_le _, Nat.zero_le _, Command.isRead_of_readLength⟩, Nat.zero_le _⟩,
    fun _ ht => by cases ht⟩

namespace Bounded

theorem setRequest (h : b.Bounded) (r : RequestId) {q : Request} (hq : q.Bounded) :
    (b.setRequest r q).Bounded := by
  refine ⟨fun p => ?_, h.active⟩
  by_cases hp : p = r
  · rw [hp, requests_setRequest_self]
    exact hq
  · rw [b.requests_setRequest_of_ne q hp]
    exact h.requests p

theorem retireActive (h : b.Bounded) (status : Option Status) :
    (b.retireActive status).Bounded := by
  cases ht : b.active with
  | none => rwa [b.retireActive_of_free ht]
  | some t =>
    have hretired := h.setRequest t.request
      ((h.requests t.request).retire t (status.getD t.status))
    rw [b.retireActive_of_active ht]
    exact ⟨hretired.requests, fun u hu => by cases hu⟩

variable [Platform σ]

theorem startNext (h : b.Bounded) : b.startNext.Bounded := by
  rcases b.startNext_cases with he | ⟨r, hfree, hhead⟩
  · rwa [he]
  · rw [b.startNext_of_waiting hfree hhead]
    refine ⟨h.requests, fun t ht => ?_⟩
    obtain rfl := Option.some.inj ht
    exact (Transfer.bounded_ofCommand (h.requests r).command r).stamp _

theorem handleEvent (h : b.Bounded) : b.handleEvent.Bounded := by
  cases ht : b.active with
  | none => rwa [b.handleEvent_of_free ht]
  | some t =>
    have hserviced : (b.serviced t).Bounded := by
      refine ⟨h.requests, fun u hu => ?_⟩
      obtain rfl := Option.some.inj hu
      exact (h.active t ht).advance _
    rw [b.handleEvent_of_active ht]
    split
    · exact hserviced
    · exact (hserviced.retireActive none).startNext

theorem recover (h : b.Bounded) : b.recover.Bounded := by
  have hretired := h.retireActive (some .timeout)
  have hreclaimed : b.reclaimed.Bounded := ⟨hretired.requests, hretired.active⟩
  exact ⟨hreclaimed.startNext.requests, hreclaimed.startNext.active⟩

theorem checkTimeout (h : b.Bounded) : b.checkTimeout.Bounded := by
  have hread : b.readClock.2.Bounded := ⟨h.requests, h.active⟩
  rcases b.checkTimeout_cases with ⟨-, he⟩ | ⟨-, he, -⟩ | ⟨t, -, -, -, he⟩ <;> rw [he]
  · exact h
  · exact hread
  · exact hread.recover

end Bounded

end Bus

def Act.Measured {σ : Type} : Act σ → Prop
  | .configure _ c => c.Measured
  | .shift _ | .handleEvent | .checkTimeout | .bringUp | .shutDown | .setClock _ | .setTimeout _ |
    .submit _ | .poll .. => True

namespace Bus

variable {σ : Type} [Platform σ] {b b' : Bus σ}

theorem Bounded.act (h : b.Bounded) {a : Act σ} (hmeasured : a.Measured)
    (ha : b.act a = .ok b') : b'.Bounded := by
  cases a with
  | shift | setClock | setTimeout =>
    cases ha
    exact ⟨h.requests, h.active⟩
  | handleEvent =>
    cases ha
    exact h.handleEvent
  | checkTimeout =>
    cases ha
    exact h.checkTimeout
  | bringUp =>
    cases ha
    exact ⟨h.requests, fun _ ht => by cases ht⟩
  | shutDown =>
    obtain ⟨-, rfl⟩ := act_shutDown ha
    exact ⟨h.requests, h.active⟩
  | configure r c =>
    obtain ⟨-, rfl⟩ := act_configure ha
    have hset := h.setRequest r ((h.requests r).configured hmeasured.bounded)
    exact ⟨hset.requests, hset.active⟩
  | submit r =>
    obtain ⟨-, rfl⟩ := act_submit ha
    have hset := h.setRequest r (h.requests r).armed
    have haccepted : (b.accept r).Bounded := ⟨hset.requests, hset.active⟩
    exact haccepted.startNext
  | poll r l =>
    cases ha
    have hset := h.setRequest r ((h.requests r).listen l)
    exact ⟨hset.requests, hset.active⟩

end Bus

/-! ### What callers are promised -/

namespace Bus

variable {σ : Type} {b b' : Bus σ} {r : RequestId}

/-- Whatever is copied into a request or out of it is copied as a whole. -/
structure LosesNothing (b : Bus σ) : Prop where
  write : ∀ r address data b', (Command.copying address data >>= b.configure r) = .ok b' →
    Buffer.empty.append? data = some (b'.requests r).command.inline ∧
      (b'.requests r).command.data = data
  read : ∀ r address length lead b',
    (Command.reading address length lead >>= b.configure r) = .ok b' →
    Buffer.empty.append? lead = some (b'.requests r).command.inline ∧
      (b'.requests r).command.data = lead ∧ (b'.requests r).command.readLength = length
  /-- A write from fixed storage has any length. -/
  writeFixed : ∀ r address data, (b.requests r).status ≠ .pending →
    ∃ b', b.configure r (.writeFixed address data) = .ok b' ∧
      (b'.requests r).command.inline = .empty ∧ (b'.requests r).command.data = data
  /-- The bytes copied out are there to be copied, and there is room for them. -/
  readInto : ∀ r out n out', (b.requests r).readInto out = .ok (n, out') →
    n ≤ (b.requests r).received.bytes.length ∧ n ≤ out.length ∧
      Overlays (b.requests r).received.bytes out n out'

theorem command_of_configure {c : Command} (h : b.configure r c = .ok b') :
    (b'.requests r).command = c := by
  by_cases hr : (b.requests r).status = .pending
  · rw [configure_of_pending hr] at h
    cases h
  · rw [configure_of_idle hr] at h
    obtain rfl := Except.ok.inj h
    exact congrArg Request.command (b.requests_setRequest_self r _)

/-- A request is set up only with a command that is good. -/
theorem command_of_setUp {command : Except Error Command}
    (h : (command >>= b.configure r) = .ok b') : command = .ok (b'.requests r).command := by
  cases command with
  | error e => cases h
  | ok c => rw [command_of_configure h]

theorem losesNothing (b : Bus σ) : b.LosesNothing where
  write _ _ _ _ h := Command.filled_of_copying (command_of_setUp h)
  read _ _ _ _ _ h := Command.filled_of_reading (command_of_setUp h)
  writeFixed r address data hr := by
    have hset := configure_of_idle hr (.writeFixed address data)
    refine ⟨_, hset, ?_, ?_⟩ <;> rw [command_of_configure hset]
    · rfl
    · rfl
  readInto r out n out' h := by
    by_cases hr : (b.requests r).status = .pending
    · rw [Request.readInto_of_pending hr] at h
      cases h
    · obtain ⟨m, copied, hread, hcopied⟩ := Request.overlays_readInto hr out
      obtain ⟨rfl, rfl⟩ := Prod.mk.inj (Except.ok.inj (h.symm.trans hread))
      have hcount := hcopied.count_eq
      exact ⟨hcount ▸ Nat.min_le_right .., hcount ▸ Nat.min_le_left .., hcopied⟩

end Bus

namespace System

variable {σ : Type} [Platform σ] {s s' : System σ} {reply : Reply}

/-- Whatever a call has set a request up with has been measured. -/
theorem measured_of_mem_intent {limit : Nat} {c : Call} {r : RequestId} {d : Command}
    (h : s.perform limit c = some (reply, s')) (hg : reply.granted = true)
    (hmem : .configured r d ∈ s.intent c) : d.Measured := by
  cases c with
  | write r' address data =>
    obtain ⟨c, hc⟩ := exists_of_request_granted h hg
    obtain ⟨-, rfl⟩ : r = r' ∧ d = .write address (.holding data) := by simpa [intent] using hmem
    exact .copying (Command.copying_eq_ok hc ▸ hc)
  | setWrite r' address data =>
    obtain ⟨c, hc⟩ := exists_of_attempt_granted (Option.some.inj h) hg
    obtain ⟨-, rfl⟩ : r = r' ∧ d = .write address (.holding data) := by simpa [intent] using hmem
    exact .copying (Command.copying_eq_ok hc ▸ hc)
  | read r' address length lead =>
    obtain ⟨c, hc⟩ := exists_of_request_granted h hg
    obtain ⟨-, rfl⟩ : r = r' ∧ d = .read address length (.holding lead) := by
      simpa [intent] using hmem
    exact .reading (Command.reading_eq_ok hc ▸ hc)
  | setRead r' address length lead =>
    obtain ⟨c, hc⟩ := exists_of_attempt_granted (Option.some.inj h) hg
    obtain ⟨-, rfl⟩ : r = r' ∧ d = .read address length (.holding lead) := by
      simpa [intent] using hmem
    exact .reading (Command.reading_eq_ok hc ▸ hc)
  | writeFixed r' address data | setWriteFixed r' address data =>
    obtain ⟨-, rfl⟩ : r = r' ∧ d = .writeFixed address data := by simpa [intent] using hmem
    exact .fixed address data
  | writePin i pin level =>
    cases hx : s.expanders[i]? with
    | none => simp [intent, hx] at hmem
    | some x =>
      obtain ⟨-, rfl⟩ : r = x.writeRequest ∧
          d = .write x.address (.holding [(x.drive (x.bit pin) level).latch]) := by
        simpa [intent, hx] using hmem
      exact .copying (Command.copying_of_le x.address (by simp [Buffer.capacity]))
  | readPin i pin =>
    cases hx : s.expanders[i]? with
    | none => simp [intent, hx] at hmem
    | some x =>
      obtain ⟨-, rfl⟩ : r = x.readRequest ∧
          d = .read x.address 1 (.holding [(x.raise (x.bit pin)).latch]) := by
        simpa [intent, hx] using hmem
      exact .reading (Command.reading_of_le x.address (by simp [Buffer.capacity])
        (by simp [Buffer.capacity]))
  | poll i => cases hi : s.completions[i]? <;> simp [intent, hi] at hmem
  | bringUp | shutDown | submit => simp [intent] at hmem
  | setClock | setTimeout | tick | handleEvent | readInto | wait | complete | selectClock |
    describePins | ownsPin => cases hmem

theorem measured_move {m : Move σ} (h : s.move m = some (reply, s')) :
    s.bus.Via Act.Measured s'.bus := by
  obtain ⟨as, hpath, has⟩ := (leads_move h).path
  refine ⟨as, hpath, fun a ha => ?_⟩
  cases a with
  | configure r c =>
    have hmem : .configured r c ∈ as.filterMap Act.entry :=
      List.mem_filterMap.2 ⟨.configure r c, ha, rfl⟩
    rw [has] at hmem
    obtain ⟨limit, call, rfl, hg, hmem⟩ := mem_enteredBy hmem
    exact measured_of_mem_intent h hg hmem
  | shift | handleEvent | checkTimeout | bringUp | shutDown | setClock | setTimeout | submit |
    poll => trivial

theorem measured_run {ms : List (Move σ)} {replies : List Reply}
    (h : s.run ms = some (replies, s')) : s.bus.Via Act.Measured s'.bus :=
  run_preserves (P := fun s' => s.bus.Via Act.Measured s'.bus) h
    (fun _ _ _ _ hs hmove => hs.trans (measured_move hmove)) (.refl s.bus)

/-- The bounds in every state that a run leads to, after or within a call, and after whatever the
hardware may go on to do to the transfer in flight; and what succeeds because of them. A request is
set up within a call only with what has been measured (`measured_move`). -/
theorem within_bounds {ms : List (Move σ)} {replies : List Reply} (platform : σ) (config : Config)
    (xs : List Expander) (h : (create platform config xs).run ms = some (replies, s)) {b : Bus σ}
    (hvia : s.bus.Via Act.Measured b) :
    (∀ r, (b.requests r).Bounded) ∧
    (∀ t, b.active = some t → ∀ actions,
      (t.advance actions).Bounded ∧ (t.advance actions).LosesNothing) ∧
    b.LosesNothing := by
  have hb : b.Bounded := ((measured_run h).trans hvia).preserves
    (fun _ _ _ hmeasured hb ha => hb.act hmeasured ha) (Bus.bounded_create platform config)
  refine ⟨hb.requests, fun t ht actions => ?_, b.losesNothing⟩
  have hafter := (hb.active t ht).advance actions
  exact ⟨hafter, hafter.losesNothing⟩

/-- A request is set up for a read after it has written more bytes than fit into a buffer. More
bytes are offered to it and asked for than there are. -/
theorem within_bounds_reused :
    ∃ s t, (create (Bench.create 0 0) Config.standard []).run
        [.call 0 (.setWriteFixed 1 0x20 (List.replicate 40 7)), .call 0 (.submit 1),
          .call 0 .handleEvent, .call 0 (.setRead 1 0x20 2 [9]), .call 0 (.submit 1)] =
        some ([.ok, .ok, .done, .ok, .ok], s) ∧
      s.bus.active = some t ∧ (s.bus.requests 1).Bounded ∧
      let t' := t.advance [.receive 1, .receive 2, .receive 3, .send, .send, .complete .ok]
      t'.received.bytes = [1, 2] ∧ t'.sent = 1 ∧ t'.Bounded ∧ t'.LosesNothing ∧
        s.bus.LosesNothing := by
  have hrun : ∃ s t, (create (Bench.create 0 0) Config.standard []).run
        [.call 0 (.setWriteFixed 1 0x20 (List.replicate 40 7)), .call 0 (.submit 1),
          .call 0 .handleEvent, .call 0 (.setRead 1 0x20 2 [9]), .call 0 (.submit 1)] =
        some ([.ok, .ok, .done, .ok, .ok], s) ∧
      s.bus.active = some t ∧
      let t' := t.advance [.receive 1, .receive 2, .receive 3, .send, .send, .complete .ok]
      t'.received.bytes = [1, 2] ∧ t'.sent = 1 := ⟨_, _, rfl, rfl, rfl, rfl⟩
  obtain ⟨s, t, hrun, ht, hreceived, hsent⟩ := hrun
  obtain ⟨hrequests, htransfers, hloses⟩ := within_bounds _ _ _ hrun (.refl s.bus)
  obtain ⟨hbounded, hgood⟩ := htransfers t ht _
  exact ⟨s, t, hrun, ht, hrequests 1, hreceived, hsent, hbounded, hgood, hloses⟩

end System

end SharedBus
