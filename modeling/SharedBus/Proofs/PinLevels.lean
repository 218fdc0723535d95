import SharedBus.Proofs.PinOutcomes
import SharedBus.Proofs.PortByte
import SharedBus.Proofs.Receiving

/-!
# Pin levels

The level that reading a pin gives is a bit of the byte that the transfer of this very read has
received, whatever its request was used for before. But a transfer may end well though nothing
was received. What is looked at then is the zero that the answer was to be copied over, so the
pin is said to be low.
-/

namespace SharedBus

theorem History.leaves_of_idles {added : History} (hadded : ∀ e ∈ added, e.Idles) (r : RequestId) :
    History.Leaves r added where
  retired e he := by
    rw [(hadded e he).2.2]
    exact nofun
  given job hjob := by
    obtain ⟨e, he, hgiven⟩ := List.mem_filterMap.1 hjob
    rw [Event.given?_eq_none (hadded e he).1] at hgiven
    cases hgiven

namespace Bus.Transacts

variable {σ : Type} {b b' : Bus σ} {r : RequestId} {c : Command} {t : Transfer} {status : Status}

/-- What has been transacted received what it took of the bytes offered to it. -/
theorem received_eq (h : b.Transacts r c t status b') (h' : b'.Coherent)
    (hroom : c.readLength ≤ Buffer.capacity) :
    t.received.bytes = Offer.bytes (History.offers b'.history) ∧
      t.received.bytes.length ≤ c.readLength := by
  obtain ⟨-, -, after, during, before, hhistory, -, -, hduring, hafter⟩ := h
  have hl := h'.lawful
  rw [hhistory] at hl ⊢
  have hnone : ∀ e ∈ after ++ .retired t status :: during, e.begun? = none := by
    intro e he
    rcases List.mem_append.1 he with he | he
    · exact (hafter e he).2.1
    · rcases List.mem_cons.1 he with rfl | he
      · rfl
      · exact (hduring e he).2.1
  obtain ⟨-, hreceived⟩ := hl.received_retired (fun e he => (hafter e he).2.1)
    (fun e he => (hduring e he).2.1) hroom
  refine ⟨hreceived, ?_⟩
  rw [hreceived]
  rw [← List.cons_append, ← List.append_assoc] at hl ⊢
  exact Offer.length_bytes_le (hl.fills hnone hroom)

/-- What the transfer has received is what its request has. -/
theorem request_received_eq (h : b.Transacts r c t status b') (h' : b'.Coherent)
    (hroom : c.readLength ≤ Buffer.capacity) :
    (b'.requests r).received.bytes = t.received.bytes := by
  obtain ⟨-, hlength⟩ := h.received_eq h' hroom
  obtain ⟨rfl, -, after, during, before, hhistory, -, -, -, hafter⟩ := h
  exact h'.received_of_retired hhistory (History.leaves_of_idles hafter _)
    (Nat.le_trans hlength hroom)

end Bus.Transacts

namespace System

variable {σ : Type} [Platform σ] {s s' : System σ} {i : Nat} {x : Expander} {pin : UInt16}
  {limit : Nat} {high : Bool}

/-- A level is given only when the transfer of the read has ended well. It is a bit of the byte
received, if there is one. -/
theorem level_of_readPin (hs : s.bus.Coherent) (hx : s.expanders[i]? = some x) (hfits : x.Fits)
    (h : s.perform limit (.readPin i pin) = some (.level high, s')) :
    ∃ y t, s'.expanders[i]? = some y ∧
      s.bus.Transacts x.readRequest (.read y.address 1 (.holding [y.latch])) t .ok s'.bus ∧
      t.received.bytes = Offer.bytes (History.offers s'.bus.history) ∧
      (t.received.bytes = [] ∧ high = false ∨
        ∃ v, t.received.bytes = [v] ∧ high = v.toNat.testBit (x.line pin)) := by
  have hown : x.owns pin = true := (granted_readPin hx h).symm
  obtain ⟨y, t, status, hy, ht, -, hreply⟩ := readPin_returns hs hx hown h
  by_cases hstatus : status = .ok
  · subst hstatus
    have hs' : s'.bus.Coherent := coherent_move (m := .call limit (.readPin i pin)) h hs
    have hroom : (Command.read y.address 1 (.holding [y.latch])).readLength ≤ Buffer.capacity :=
      Nat.succ_le_succ (Nat.zero_le _)
    rw [if_pos rfl, Reply.level.injEq, ht.request_received_eq hs' hroom,
      Expander.and_bit_ne_zero hfits hown] at hreply
    obtain ⟨hreceived, hlength⟩ := ht.received_eq hs' hroom
    refine ⟨y, t, hy, ht, hreceived, ?_⟩
    cases hbytes : t.received.bytes with
    | nil =>
      rw [hbytes] at hreply
      exact .inl ⟨rfl, hreply.trans (Nat.zero_testBit _)⟩
    | cons v rest =>
      rw [hbytes] at hreply hlength
      obtain rfl : rest = [] :=
        List.eq_nil_of_length_eq_zero (Nat.le_zero.1 (Nat.le_of_succ_le_succ hlength))
      exact .inr ⟨v, rfl, hreply⟩
  · rw [if_neg hstatus] at hreply
    cases hreply

/-- Whenever reading a pin gives a level after a run, the transfer of this read has ended well, and
the level is the bit of the pin in the byte that it took, unless it took none. Then the level is
low. -/
theorem level_of_received (platform : σ) (config : Config) {xs : List Expander}
    {ms : List (Move σ)} {replies : List Reply} {address : UInt8} {first count : UInt16}
    {w r : RequestId} (hx : xs[i]? = some (.attach address first count w r))
    (h : (create platform config xs).run ms = some (replies, s))
    (hread : s.perform limit (.readPin i pin) = some (.level high, s')) :
    ∃ y t, s'.expanders[i]? = some y ∧
      s.bus.Transacts r (.read address 1 (.holding [y.latch])) t .ok s'.bus ∧
      t.received.bytes = Offer.bytes (History.offers s'.bus.history) ∧
      (t.received.bytes = [] ∧ high = false ∨
        ∃ v, t.received.bytes = [v] ∧ high = v.toNat.testBit (pin.toNat - first.toNat)) := by
  have hs : s.bus.Coherent := coherent_run h (Bus.coherent_create platform config)
  obtain ⟨x, hx, hlatches⟩ := latches_run h hx (Expander.fits_attach ..)
  have hfits := (Expander.fits_attach address first count w r).congr hlatches.unlatched_eq
  obtain ⟨y, t, hy, ht, hreceived, hlevel⟩ := level_of_readPin hs hx hfits hread
  obtain ⟨z, hz, hlatched⟩ := latches_move (m := .call limit (.readPin i pin)) hread hx hfits
  obtain rfl : y = z := Option.some.inj (hy.symm.trans hz)
  have hrequest : x.readRequest = r :=
    Expander.apply_of_unlatched_eq (·.readRequest) (fun _ => rfl) hlatches.unlatched_eq
  have haddress : y.address = address := Expander.apply_of_unlatched_eq (·.address) (fun _ => rfl)
    (hlatched.unlatched_eq.trans hlatches.unlatched_eq)
  rw [hrequest, haddress] at ht
  rw [Expander.line_congr hlatches.unlatched_eq] at hlevel
  exact ⟨y, t, hy, ht, hreceived, hlevel⟩

def soleSystem (supply : List UInt8) (rounds : List Round) : System Bench :=
  create (((Bench.create 0 0).adjust (.supply supply)).adjust (.script 0x20 rounds))
    ⟨Config.standardMode, 0, .polled⟩ [.attach 0x20 16 8 0 1]

/-- The byte received before, with the bit at zero, is not looked at again. -/
theorem level_of_received_twice :
    ∃ s s' t, ∃ y : Expander,
      (soleSystem [0xFB, 0x04] []).run [.call 0 .bringUp, .call 1 (.readPin 0 18)] =
        some ([.done, .level false], s) ∧
      s.perform 1 (.readPin 0 18) = some (.level true, s') ∧
      s.bus.Transacts 1 (.read 0x20 1 (.holding [y.latch])) t .ok s'.bus ∧
      ∃ v, t.received.bytes = [v] ∧ v.toNat.testBit 2 = true := by
  have hfirst : ∃ s, (soleSystem [0xFB, 0x04] []).run [.call 0 .bringUp, .call 1 (.readPin 0 18)] =
      some ([.done, .level false], s) := ⟨_, rfl⟩
  have hboth : ∃ s', (soleSystem [0xFB, 0x04] []).run
      ([.call 0 .bringUp, .call 1 (.readPin 0 18)] ++ [.call 1 (.readPin 0 18)]) =
      some ([.done, .level false, .level true], s') := ⟨_, rfl⟩
  obtain ⟨s, hrun⟩ := hfirst
  obtain ⟨s', hboth⟩ := hboth
  have hread : s.perform 1 (.readPin 0 18) = some (.level true, s') :=
    move_of_run_concat hrun hboth
  obtain ⟨y, t, -, ht, -, ⟨-, hlow⟩ | ⟨v, hbytes, hbit⟩⟩ :=
    level_of_received (i := 0) _ _ rfl hrun hread
  · cases hlow
  · exact ⟨s, s', t, y, hrun, hread, ht, v, hbytes, hbit.symm⟩

/-- A byte is never received, and yet the pin is said to be low. -/
theorem level_of_nothing_received :
    ∃ s s', (soleSystem [] [[.complete .ok]]).run [.call 0 .bringUp] = some ([.done], s) ∧
      s.perform 1 (.readPin 0 18) = some (.level false, s') ∧
      (∃ t, s.bus.Transacts 1 (.read 0x20 1 (.holding [0x04])) t .ok s'.bus) ∧
      ∀ t, s.bus.Transacts 1 (.read 0x20 1 (.holding [0x04])) t .ok s'.bus →
        t.received.bytes = [] := by
  have hfirst : ∃ s, (soleSystem [] [[.complete .ok]]).run [.call 0 .bringUp] = some ([.done], s) ∧
      s.expanders[0]? = some (.attach 0x20 16 8 0 1) := ⟨_, rfl, rfl⟩
  have hboth : ∃ s' y, (soleSystem [] [[.complete .ok]]).run
        ([.call 0 .bringUp] ++ [.call 1 (.readPin 0 18)]) = some ([.done, .level false], s') ∧
      s'.expanders[0]? = some y ∧ y.address = 0x20 ∧ y.latch = 0x04 ∧
      History.offers s'.bus.history = [] := ⟨_, _, rfl, rfl, rfl, rfl, rfl⟩
  obtain ⟨s, hrun, hx⟩ := hfirst
  obtain ⟨s', y, hboth, hy, haddress, hlatch, hnone⟩ := hboth
  have hread : s.perform 1 (.readPin 0 18) = some (.level false, s') :=
    move_of_run_concat hrun hboth
  have hs : s.bus.Coherent := coherent_run hrun (Bus.coherent_create _ _)
  refine ⟨s, s', hrun, hread, ?_, fun t ht => ?_⟩
  · obtain ⟨z, t, hz, ht, -⟩ := level_of_readPin hs hx (Expander.fits_attach ..) hread
    obtain rfl : y = z := Option.some.inj (hy.symm.trans hz)
    rw [haddress, hlatch] at ht
    exact ⟨t, ht⟩
  · have hmove : s.move (.call 1 (.readPin 0 18)) = some (.level false, s') := hread
    rw [(ht.received_eq (coherent_move hmove hs) (Nat.succ_le_succ (Nat.zero_le _))).1, hnone]
    rfl

end System

end SharedBus
