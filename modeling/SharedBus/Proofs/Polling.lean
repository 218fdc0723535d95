import SharedBus.Bench
import SharedBus.Proofs.Run
import SharedBus.Proofs.Waiting

/-!
# Waiting on a polled bus

On a bench that is polled every tick services the transfer in flight: it uses up a
round of the script or, when there is none for the address, finishes the transfer. The
rounds left and the requests in front of the one waited for bound the ticks that a wait
can take, whatever the timeout and the clock do.
-/

namespace SharedBus

namespace Bench

theorem roundsLeft_congr {h h' : Bench} (hrounds : h.rounds = h'.rounds) :
    h.roundsLeft = h'.roundsLeft := by
  rw [roundsLeft, roundsLeft, hrounds]

/-- An address with rounds left has one less when a round is dropped. -/
theorem length_rounds_dropRound {h : Bench} {a : UInt8} (ha : h.rounds a ≠ []) :
    ((h.dropRound a).rounds a).length + 1 = (h.rounds a).length := by
  have hself : (h.dropRound a).rounds a = (h.rounds a).tail := if_pos rfl
  rw [hself, List.length_tail]
  exact Nat.sub_add_cancel (List.length_pos_iff.2 ha)

theorem rounds_dropRound_of_ne (h : Bench) {a : UInt8} {n : Nat} (hn : n < 256)
    (hne : n ≠ a.toNat) :
    (h.dropRound a).rounds (UInt8.ofNat n) = h.rounds (UInt8.ofNat n) := by
  apply if_neg
  rintro rfl
  apply hne
  rw [UInt8.toNat_ofNat', Nat.mod_eq_of_lt hn]

/-- The rounds of the addresses in `ns` are less by the one dropped, if it is one of theirs. -/
theorem length_flatMap_dropRound {h : Bench} {a : UInt8} (ha : h.rounds a ≠ []) {ns : List Nat}
    (hns : ns.Nodup) (hlt : ∀ n ∈ ns, n < 256) :
    (ns.flatMap fun n => (h.dropRound a).rounds (UInt8.ofNat n)).length +
      (if a.toNat ∈ ns then 1 else 0) = (ns.flatMap fun n => h.rounds (UInt8.ofNat n)).length := by
  induction ns with
  | nil => rfl
  | cons n ns ih =>
    obtain ⟨hn, hlt⟩ := List.forall_mem_cons.1 hlt
    obtain ⟨hnot, hns⟩ := List.nodup_cons.1 hns
    have ih := ih hns hlt
    rw [List.flatMap_cons, List.flatMap_cons, List.length_append, List.length_append]
    by_cases hna : n = a.toNat
    · subst n
      rw [if_neg hnot] at ih
      rw [if_pos List.mem_cons_self, UInt8.ofNat_toNat]
      have hdrop := length_rounds_dropRound ha
      omega
    · have hmem : a.toNat ∈ n :: ns ↔ a.toNat ∈ ns := by simp [Ne.symm hna]
      simp only [rounds_dropRound_of_ne h hn hna, hmem]
      omega

theorem roundsLeft_dropRound {h : Bench} {a : UInt8} (ha : h.rounds a ≠ []) :
    (h.dropRound a).roundsLeft + 1 = h.roundsLeft := by
  have hdrop := length_flatMap_dropRound ha List.nodup_range fun n hn => List.mem_range.1 hn
  rwa [if_pos (List.mem_range.2 a.toNat_lt)] at hdrop

/-! ### An event -/

theorem rounds_play (h : Bench) (t : Transfer) (round : Round) :
    (h.play t round).2.2.rounds = h.rounds := by
  induction round generalizing h t with
  | nil => rfl
  | cons i round ih =>
    have hkept : (h.carryOut t i).rounds = h.rounds := by cases i <;> rfl
    rw [← hkept]
    exact ih (h.carryOut t i) (t.advance (i.actions h.supply t))

theorem rounds_advance (h : Bench) (t : Transfer) :
    (Bench.advance t h).2.rounds = (h.dropRound t.command.address).rounds :=
  rounds_play (h.dropRound t.command.address) t (h.nextRound t.command.address)

theorem roundsLeft_advance {h : Bench} {t : Transfer} (ha : h.rounds t.command.address ≠ []) :
    (Bench.advance t h).2.roundsLeft + 1 = h.roundsLeft := by
  rw [roundsLeft_congr (rounds_advance h t), roundsLeft_dropRound ha]

theorem roundsLeft_advance_of_nil {h : Bench} {t : Transfer}
    (ha : h.rounds t.command.address = []) :
    (Bench.advance t h).2.roundsLeft = h.roundsLeft := by
  apply roundsLeft_congr
  rw [rounds_advance]
  funext a
  by_cases hne : a = t.command.address
  · have hself : (h.dropRound t.command.address).rounds a = (h.rounds a).tail := if_pos hne
    rw [hself, hne, ha, List.tail_nil]
  · exact if_neg hne

/-- To finish a transfer is to declare success and nothing else. -/
theorem declared_finish (supply : List UInt8) (t : Transfer) :
    Transfer.declared (Instruction.finish.actions supply t) = [.ok] := by
  have hsend (n : Nat) : (List.replicate n Action.send).filterMap Action.declared? = [] :=
    List.filterMap_replicate_of_none rfl
  have hreceive (bytes : List UInt8) :
      (bytes.map Action.receive).filterMap Action.declared? = [] := by
    rw [List.filterMap_map, List.filterMap_eq_nil_iff]
    exact fun _ _ => rfl
  rw [Transfer.declared, Instruction.actions, List.filterMap_append, List.filterMap_append, hsend,
    hreceive]
  rfl

theorem status_advance_of_nil {h : Bench} {t : Transfer} (ht : t.status = .pending)
    (ha : h.rounds t.command.address = []) :
    (t.advance (Bench.advance t h).1).status = .ok := by
  have hround : h.nextRound t.command.address = [.finish] := by rw [nextRound, ha]; rfl
  have hactions : (Bench.advance t h).1 =
      Instruction.finish.actions (h.dropRound t.command.address).supply t ++ [] := by
    change ((h.dropRound t.command.address).play t (h.nextRound t.command.address)).1 = _
    rw [hround]
    rfl
  rw [Transfer.status_advance_of_pending ht, hactions, List.append_nil, declared_finish]
  rfl

end Bench

namespace Bus

variable {b : Bus Bench} {t : Transfer} {r : RequestId}

namespace Coherent

/-- An event uses up a round or retires a request, if not both. -/
theorem handleEvent_progress (h : b.Coherent) (ht : b.active = some t) :
    ∃ k, b.handleEvent.queue.toList = b.queue.toList.drop k ∧
      b.handleEvent.platform.roundsLeft + 1 ≤ b.platform.roundsLeft + k := by
  have hplatform : b.handleEvent.platform.rounds = (Bench.advance t b.platform).2.rounds := by
    rw [b.handleEvent_of_active ht]
    split
    · rfl
    · rw [bench_startNext Bench.rounds fun _ _ _ => rfl, platform_retireActive]
      rfl
  have hrounds := Bench.roundsLeft_congr hplatform
  rw [h.toList_handleEvent ht, hrounds]
  by_cases ha : b.platform.rounds t.command.address = []
  · have hok : (t.advance (b.eventActions t)).status = .ok :=
      Bench.status_advance_of_nil (h.settled t ht) ha
    refine ⟨1, ?_, ?_⟩
    · rw [if_neg (by simp [hok]), List.drop_one]
    · exact Nat.le_of_eq (congrArg (· + 1) (Bench.roundsLeft_advance_of_nil ha))
  · have hless := Bench.roundsLeft_advance ha
    split
    · exact ⟨0, by rw [List.drop_zero], by omega⟩
    · exact ⟨1, by rw [List.drop_one], by omega⟩

theorem tick_progress (h : b.Coherent) (hpolled : b.config.delivery = .polled)
    (hqueue : b.queue.toList ≠ []) :
    ∃ k, b.tick.queue.toList = b.queue.toList.drop k ∧
      b.tick.platform.roundsLeft + 1 ≤ b.platform.roundsLeft + k := by
  obtain ⟨t, ht⟩ := h.exists_active hqueue
  obtain ⟨k, hk, hrounds⟩ := h.handleEvent_progress ht
  obtain ⟨l, hl⟩ := h.handleEvent.toList_checkTimeout
  have hkept := bench_checkTimeout Bench.roundsLeft (fun _ _ _ => rfl) b.handleEvent
  refine ⟨k + l, ?_, ?_⟩
  · rw [tick_of_polled hpolled, hl, hk, List.drop_drop]
  · rw [tick_of_polled hpolled, hkept]
    omega

/-- Every tick that finds a queue counts. -/
theorem ticks_progress (h : b.Coherent) (hpolled : b.config.delivery = .polled) (n : Nat) :
    ∃ k, (b.ticks n).queue.toList = b.queue.toList.drop k ∧
      (k < b.queue.toList.length →
        (b.ticks n).platform.roundsLeft + n ≤ b.platform.roundsLeft + k) := by
  induction n generalizing b with
  | zero => exact ⟨0, by rw [List.drop_zero]; rfl, fun _ => Nat.le_refl _⟩
  | succ n ih =>
    have hpolled' : b.tick.config.delivery = .polled := by rw [config_tick, hpolled]
    obtain ⟨l, hl, hmore⟩ := ih h.tick hpolled'
    by_cases hqueue : b.queue.toList = []
    · obtain ⟨k, hk⟩ := h.toList_tick
      refine ⟨k + l, ?_, fun hlt => ?_⟩
      · rw [Bus.ticks, hl, hk, List.drop_drop]
      · rw [hqueue] at hlt
        cases hlt
    · obtain ⟨k, hk, hrounds⟩ := h.tick_progress hpolled hqueue
      refine ⟨k + l, ?_, fun hlt => ?_⟩
      · rw [Bus.ticks, hl, hk, List.drop_drop]
      · rw [hk, List.length_drop] at hmore
        have hmore := hmore (by omega)
        rw [Bus.ticks]
        omega

/-- The request waited for is found idle within as many ticks. -/
theorem isBusy_ticks_polled (h : b.Coherent) (hpolled : b.config.delivery = .polled) {p : Nat}
    (hr : b.queue.toList[p]? = some r) :
    (b.ticks (b.platform.roundsLeft + p + 1)).isBusy r = false := by
  obtain ⟨k, hk, hrounds⟩ := h.ticks_progress hpolled (b.platform.roundsLeft + p + 1)
  obtain ⟨hp, -⟩ := List.getElem?_eq_some_iff.1 hr
  have hgone : r ∉ (b.ticks (b.platform.roundsLeft + p + 1)).queue.toList := by
    rw [hk, mem_drop_iff h.nodup hr]
    intro hle
    have hrounds := hrounds (Nat.lt_of_le_of_lt hle hp)
    omega
  rw [← h.isBusy_ticks_iff (List.mem_of_getElem? hr)] at hgone
  exact Bool.eq_false_iff.2 hgone

end Coherent

end Bus

namespace System

/-- On a polled bench a wait for the request in place `p` of the queue returns within as many ticks
as there are rounds left and requests up to it. -/
theorem wait_returns_polled {bench : Bench} {config : Config} {xs : List Expander}
    {ms : List (Move Bench)} {replies : List Reply} {s : System Bench} {r : RequestId} {p : Nat}
    (h : (create bench config xs).run ms = some (replies, s))
    (hpolled : s.bus.config.delivery = .polled) (hr : s.bus.queue.toList[p]? = some r) :
    ∃ n ≤ s.bus.platform.roundsLeft + p + 1, ∃ status, status ≠ .pending ∧
      ∀ limit, n ≤ limit → s.bus.wait r limit = some (status, s.bus.ticks n) := by
  have hs : s.bus.Coherent := coherent_run h (Bus.coherent_create bench config)
  obtain ⟨n, hn, hstatus, hwait⟩ := Bus.exists_wait (hs.isBusy_ticks_polled hpolled hr)
  exact ⟨n, hn, _, hstatus, hwait⟩

def sluggishBench : Bench :=
  { Bench.create 0 0 with rounds := fun a => if a = 0 then [[], []] else [] }

theorem roundsLeft_sluggishBench : sluggishBench.roundsLeft = 2 := by decide +kernel

theorem wait_returns_polled_sluggish :
    ∃ replies s n status, (create sluggishBench ⟨Config.standardMode, 0, .polled⟩ []).run
        [.call 0 .bringUp, .call 0 (.submit 1), .call 0 (.submit 2)] = some (replies, s) ∧
      s.bus.platform.roundsLeft = 2 ∧ s.bus.queue.toList = [1, 2] ∧ n ≤ 4 ∧
      s.bus.wait 2 4 = some (status, s.bus.ticks n) ∧ status ≠ .pending := by
  have hrun : ∃ replies s, (create sluggishBench ⟨Config.standardMode, 0, .polled⟩ []).run
        [.call 0 .bringUp, .call 0 (.submit 1), .call 0 (.submit 2)] = some (replies, s) ∧
      s.bus.platform.rounds = sluggishBench.rounds ∧ s.bus.queue.toList = [1, 2] ∧
      s.bus.config.delivery = .polled := ⟨_, _, rfl, rfl, rfl, rfl⟩
  obtain ⟨replies, s, hrun, hrounds, hqueue, hpolled⟩ := hrun
  have hrounds := (Bench.roundsLeft_congr hrounds).trans roundsLeft_sluggishBench
  obtain ⟨n, hn, status, hstatus, hwait⟩ := wait_returns_polled hrun hpolled (p := 1) (r := 2)
    (by rw [hqueue]; rfl)
  rw [hrounds] at hn
  exact ⟨replies, s, n, status, hrun, hrounds, hqueue, hn, hwait 4 hn, hstatus⟩

end System

end SharedBus
