import SharedBus.Proofs.Clock
import SharedBus.Proofs.Transcript

/-!
# Resets

The platform is closed for each transfer that is given up and for each shutdown. It is reset
for each transfer that is given up and each time the bus is brought up, and a reset may lose
the clock it ran at. So the next thing that the platform is told is the clock in force.
-/

namespace SharedBus

def Event.clock? : Event → Option Nat
  | .clockSet hz => some hz
  | _ => none

def Event.isControl : Event → Bool
  | .reset | .clockSet _ | .closed | .broughtUp | .shutDown | .recovered => true
  | .begun _ | .serviced .. | .configured .. | .accepted _ | .retired .. | .polled .. => false

def Move.makes {σ : Type} (c : Call) : Move σ → Bool
  | .call _ c' => c' == c
  | .shift _ => false

namespace History

/-- The platform was closed for each recovery and each shutdown, and reset for each time the bus
was brought up and each recovery. -/
structure Balanced (h : History) : Prop where
  closed_eq : h.count .closed = h.count .recovered + h.count .shutDown
  reset_eq : h.count .reset = h.count .broughtUp + h.count .recovered

/-- The next thing that the platform was told after a reset was to run at `hz`. -/
def ResetsTo (hz : Nat) (h : History) : Prop :=
  ∀ later earlier, h = later ++ .reset :: earlier → ∃ rest, later = rest ++ [.clockSet hz]

theorem findSome?_clock_filter (h : History) :
    (h.filter Event.isControl).findSome? Event.clock? = h.findSome? Event.clock? := by
  induction h with
  | nil => rfl
  | cons e h ih =>
    cases e with
    | clockSet hz => rfl
    | reset | closed | begun | serviced | broughtUp | shutDown | configured | accepted | retired |
      recovered | polled => exact ih

variable {added h : History} {hz : Nat}

theorem Balanced.append (ha : Balanced added) (hh : Balanced h) : Balanced (added ++ h) := by
  constructor
  · rw [List.count_append, List.count_append, List.count_append, ha.closed_eq, hh.closed_eq]
    exact Nat.add_add_add_comm ..
  · rw [List.count_append, List.count_append, List.count_append, ha.reset_eq, hh.reset_eq]
    exact Nat.add_add_add_comm ..

theorem ResetsTo.of_not_mem (hh : .reset ∉ h) : ResetsTo hz h := by
  rintro later earlier rfl
  exact absurd (List.mem_append_right _ List.mem_cons_self) hh

theorem ResetsTo.append (ha : ResetsTo hz added) (hh : ResetsTo hz h) :
    ResetsTo hz (added ++ h) := by
  intro later earlier hsplit
  rcases List.append_eq_append_iff.1 hsplit with
    ⟨between, rfl, hbetween⟩ | ⟨between, hbetween, hsplit'⟩
  · obtain ⟨rest, rfl⟩ := hh between earlier hbetween
    exact ⟨added ++ rest, (List.append_assoc ..).symm⟩
  · cases between with
    | nil =>
      obtain ⟨rest, hfollowed⟩ := hh [] earlier hsplit'.symm
      exact absurd hfollowed (by simp)
    | cons e between =>
      obtain ⟨rfl, -⟩ := List.cons.inj hsplit'
      exact ha later between hbetween

theorem ResetsTo.clockSet (hh : .reset ∉ h) : ResetsTo hz (.clockSet hz :: .reset :: h) := by
  intro later earlier hsplit
  rcases later with _ | ⟨e, _ | ⟨e', later⟩⟩
  · cases hsplit
  · obtain ⟨rfl, -⟩ := List.cons.inj hsplit
    exact ⟨[], rfl⟩
  · obtain ⟨-, hsplit⟩ := List.cons.inj (List.cons.inj hsplit).2
    exact absurd (hsplit ▸ List.mem_append_right _ List.mem_cons_self) hh

theorem ResetsTo.exists_clock (hh : ResetsTo hz h) (hreset : .reset ∈ h) :
    .clockSet hz ∈ h := by
  obtain ⟨later, earlier, rfl⟩ := List.append_of_mem hreset
  obtain ⟨rest, rfl⟩ := hh later earlier rfl
  simp

end History

namespace Bus

variable {σ : Type} [Platform σ] {b b' : Bus σ} {a : Act σ}

/-! ### What an act adds -/

def recoveriesBy (b : Bus σ) : Act σ → Nat
  | .checkTimeout => b.overdue?.toList.length
  | _ => 0

def controls (b : Bus σ) : Act σ → History
  | .checkTimeout => match b.overdue? with
      | none => []
      | some _ => [.recovered, .clockSet b.config.clock, .reset, .closed]
  | .bringUp => [.clockSet b.config.clock, .reset, .broughtUp]
  | .shutDown => [.shutDown, .closed]
  | .setClock hz => [.clockSet hz]
  | .shift _ | .handleEvent | .setTimeout _ | .configure .. | .submit _ | .poll .. => []

theorem filter_isControl_entries (b : Bus σ) (a : Act σ) :
    (b.entries a).filter Event.isControl = b.controls a := by
  have hbeginning (rs : List RequestId) : (b.beginning rs).filter Event.isControl = [] := by
    refine List.filter_eq_nil_iff.2 fun e he => ?_
    obtain ⟨r, -, rfl⟩ := mem_beginning he
    exact Bool.false_ne_true
  cases a with
  | handleEvent =>
    cases ht : b.active with
    | none => simp [entries, controls, ht]
    | some t =>
      simp only [entries, controls, ht]
      split <;> simp [hbeginning, Event.isControl]
  | checkTimeout =>
    cases ho : b.overdue? <;>
      simp [entries, controls, ho, hbeginning, Event.isControl, List.filter_cons]
  | submit r => simp [entries, controls, hbeginning, Event.isControl]
  | shift | bringUp | shutDown | setClock | setTimeout | configure | poll => rfl

theorem count_entries (b : Bus σ) (a : Act σ) {e : Event} (he : e.isControl = true) :
    (b.entries a).count e = (b.controls a).count e := by
  rw [← filter_isControl_entries, List.count_filter he]

/-- A recovery adds one of each. -/
theorem balanced_controls (b : Bus σ) (a : Act σ) : (b.controls a).Balanced := by
  cases a with
  | checkTimeout => cases ho : b.overdue? <;> constructor <;> simp [controls, ho]
  | shift | handleEvent | bringUp | shutDown | setClock | setTimeout | configure | submit | poll =>
    constructor <;> simp [controls]

theorem balanced_entries (b : Bus σ) (a : Act σ) : (b.entries a).Balanced := by
  have hcontrols := b.balanced_controls a
  constructor
  · rw [b.count_entries a rfl, hcontrols.closed_eq, b.count_entries a rfl, b.count_entries a rfl]
  · rw [b.count_entries a rfl, hcontrols.reset_eq, b.count_entries a rfl, b.count_entries a rfl]

theorem count_recovered_entries (b : Bus σ) (a : Act σ) :
    (b.entries a).count .recovered = b.recoveriesBy a := by
  rw [b.count_entries a rfl]
  cases a with
  | checkTimeout => cases ho : b.overdue? <;> simp [controls, recoveriesBy, ho]
  | shift | handleEvent | bringUp | shutDown | setClock | setTimeout | configure | submit | poll =>
    simp [controls, recoveriesBy]

theorem resetsTo_entries (b : Bus σ) (a : Act σ) : (b.entries a).ResetsTo b.config.clock := by
  have hbeginning (rs : List RequestId) : (b.beginning rs).ResetsTo b.config.clock :=
    .of_not_mem (not_mem_beginning rfl rs)
  cases a with
  | handleEvent =>
    cases ht : b.active with
    | none => exact .of_not_mem (by simp [entries, ht])
    | some t =>
      simp only [entries, ht]
      split
      · exact .of_not_mem (by simp)
      · exact (hbeginning _).append (.of_not_mem (by simp))
  | checkTimeout =>
    cases ho : b.overdue? with
    | none => exact .of_not_mem (by simp [entries, ho])
    | some t =>
      have hreset : History.ResetsTo b.config.clock
          [.clockSet b.config.clock, .reset, .closed, .retired t .timeout] := .clockSet (by simp)
      have hrecovered : History.ResetsTo b.config.clock [.recovered] := .of_not_mem (by simp)
      simp only [entries, ho]
      exact hrecovered.append ((hbeginning _).append hreset)
  | bringUp => exact .clockSet (by simp)
  | submit r => exact (hbeginning _).append (.of_not_mem (by simp))
  | shift | shutDown | setClock | setTimeout | configure | poll =>
    exact .of_not_mem (by simp [entries])

theorem findSome?_clock_entries (b : Bus σ) (a : Act σ) :
    ((b.entries a).findSome? Event.clock?).getD b.config.clock = a.clock?.getD b.config.clock := by
  rw [← History.findSome?_clock_filter, filter_isControl_entries]
  cases a with
  | checkTimeout =>
    cases ho : b.overdue? <;> simp [controls, ho, List.findSome?_cons, Event.clock?, Act.clock?]
  | shift | handleEvent | bringUp | shutDown | setClock | setTimeout | configure | submit | poll =>
    rfl

theorem recoveries_handleEvent (b : Bus σ) : b.handleEvent.recoveries = b.recoveries := by
  cases ht : b.active with
  | none => rw [b.handleEvent_of_free ht]
  | some t =>
    rw [b.handleEvent_of_active ht]
    split
    · rfl
    · have hstarted := ((b.serviced t).retireActive none).apply_startNext recoveries
        fun _ _ _ _ => rfl
      exact hstarted.trans ((b.serviced t).apply_retireActive recoveries (fun _ _ _ _ _ _ => rfl) _)

theorem recoveries_act (ha : b.act a = .ok b') :
    b'.recoveries = b.recoveries + UInt32.ofNat (b.recoveriesBy a) := by
  cases a with
  | handleEvent =>
    cases ha
    rw [recoveries_handleEvent]
    exact (UInt32.add_zero _).symm
  | checkTimeout =>
    cases ha
    rw [recoveriesBy]
    cases ho : b.overdue? with
    | none => rcases checkTimeout_of_in_time ho with he | he <;> simp [he, readClock]
    | some t =>
      rw [checkTimeout_of_overdue ho, recoveries_recover]
      rfl
  | submit r =>
    obtain ⟨-, rfl⟩ := act_submit ha
    have hstarted := (b.accept r).apply_startNext recoveries fun _ _ _ _ => rfl
    exact hstarted.trans (UInt32.add_zero _).symm
  | shutDown =>
    obtain ⟨-, rfl⟩ := act_shutDown ha
    exact (UInt32.add_zero _).symm
  | configure r c =>
    obtain ⟨-, rfl⟩ := act_configure ha
    exact (UInt32.add_zero _).symm
  | shift | bringUp | setClock | setTimeout | poll =>
    cases ha
    exact (UInt32.add_zero _).symm

/-! ### The accounts -/

/-- The history of a bus that was created with the clock `configured` accounts for its clock and
its count of recoveries. -/
structure Accounted (configured : Nat) (b : Bus σ) : Prop where
  balanced : b.history.Balanced
  recoveries_eq : b.recoveries = UInt32.ofNat (b.history.count .recovered)
  clock_eq : b.config.clock = (b.history.findSome? Event.clock?).getD configured
  given : .reset ∈ b.history → ∃ hz, .clockSet hz ∈ b.history

omit [Platform σ] in
theorem accounted_create (platform : σ) (config : Config) :
    (create platform config).Accounted config.clock where
  balanced := ⟨rfl, rfl⟩
  recoveries_eq := rfl
  clock_eq := rfl
  given := fun h => absurd h List.not_mem_nil

theorem Accounted.act {configured : Nat} (h : b.Accounted configured) (hb : b.Coherent)
    (ha : b.act a = .ok b') : b'.Accounted configured := by
  have hhistory := hb.history_act ha
  constructor
  · rw [hhistory]
    exact (b.balanced_entries a).append h.balanced
  · rw [recoveries_act ha, h.recoveries_eq, hhistory, List.count_append, count_recovered_entries,
      Nat.add_comm, UInt32.ofNat_add]
  · rw [hhistory, List.findSome?_append, Option.getD_or, ← h.clock_eq, findSome?_clock_entries,
      clock_act ha]
  · rw [hhistory]
    intro hreset
    rcases List.mem_append.1 hreset with hadded | hearlier
    · exact ⟨_, List.mem_append_left _ ((b.resetsTo_entries a).exists_clock hadded)⟩
    · obtain ⟨hz, hclock⟩ := h.given hearlier
      exact ⟨hz, List.mem_append_right _ hclock⟩

omit [Platform σ] in
/-- Once the platform was reset or given a clock, the clock in force is the one given last. -/
theorem Accounted.clock_given {configured : Nat} (h : b.Accounted configured)
    (hgiven : .reset ∈ b.history ∨ ∃ hz, .clockSet hz ∈ b.history) :
    b.history.findSome? Event.clock? = some b.config.clock := by
  obtain ⟨hz, hmem⟩ := hgiven.elim h.given id
  have hsome : (b.history.findSome? Event.clock?).isSome = true :=
    List.findSome?_isSome_iff.2 ⟨_, hmem, rfl⟩
  obtain ⟨last, hlast⟩ := Option.isSome_iff_exists.1 hsome
  rw [h.clock_eq, hlast, Option.getD_some]

/-- As long as no one sets the clock, it is what the platform is told after each reset. -/
theorem Steady.resetsTo (h : Steady b b') (hb : b.Coherent) :
    ∃ added, b'.history = added ++ b.history ∧ added.ResetsTo b.config.clock := by
  obtain ⟨as, hpath, has⟩ := h
  induction hpath with
  | nil b => exact ⟨[], rfl, .of_not_mem List.not_mem_nil⟩
  | @cons b b₁ b₂ a as head tail ih =>
    obtain ⟨ha, has⟩ := List.forall_mem_cons.1 has
    have hclock : b₁.config.clock = b.config.clock := by
      rw [clock_act head, ha, Option.getD_none]
    obtain ⟨added, hhistory, hadded⟩ := ih (hb.act head) has
    rw [hclock] at hadded
    refine ⟨added ++ b.entries a, ?_, hadded.append (b.resetsTo_entries a)⟩
    rw [hhistory, hb.history_act head, List.append_assoc]

end Bus

namespace System

variable {σ : Type} [Platform σ] {s s' : System σ} {reply : Reply}

/-- Within a move the platform is told the clock that was in force before it after each reset. -/
theorem resets_move {m : Move σ} (h : s.move m = some (reply, s')) (hs : s.bus.Coherent) :
    ∃ added, s'.bus.history = added ++ s.bus.history ∧
      added.ResetsTo s.bus.config.clock := by
  cases m with
  | shift platform =>
    cases h
    exact ⟨[], rfl, .of_not_mem List.not_mem_nil⟩
  | call limit c =>
    cases hc : c.clock? s.expanders with
    | none => exact (steady_perform h hc).resetsTo hs
    | some hz =>
      rw [setClock_perform h hc]
      exact ⟨[.clockSet hz], rfl, .of_not_mem (by simp)⟩

/-! ### What callers bring about -/

/-- A move adds of what callers bring about what it has entered. -/
theorem count_move {m : Move σ} (h : s.move m = some (reply, s')) {e : Event}
    (he : e.byCaller = true) :
    s'.bus.history.count e = (s.enteredBy m reply).count e + s.bus.history.count e := by
  obtain ⟨as, hpath, has⟩ := (leads_move h).path
  obtain ⟨added, hhistory, hadded⟩ := hpath.grows
  rw [hhistory, List.count_append, ← List.count_filter he, hadded, has, List.count_reverse]

omit [Platform σ] in
theorem count_intent (s : System σ) (c : Call) :
    (s.intent c).count .broughtUp = (if c = .bringUp then 1 else 0) ∧
      (s.intent c).count .shutDown = if c = .shutDown then 1 else 0 := by
  cases c with
  | poll i => cases hi : s.completions[i]? <;> simp [intent, hi]
  | writePin i | readPin i => cases hx : s.expanders[i]? <;> simp [intent, hx]
  | _ => simp [intent]

theorem count_enteredBy {m : Move σ} (h : s.move m = some (reply, s')) :
    (s.enteredBy m reply).count .broughtUp = (if m.makes .bringUp then 1 else 0) ∧
      (s.enteredBy m reply).count .shutDown =
        if m.makes .shutDown && reply == .ok then 1 else 0 := by
  cases m with
  | shift platform => exact ⟨rfl, rfl⟩
  | call limit c =>
    obtain ⟨hup, hdown⟩ := s.count_intent c
    have hcount (e : Event) : (s.enteredBy (Move.call (σ := σ) limit c) reply).count e =
        if reply.granted then (s.intent c).count e else 0 := by
      cases hg : reply.granted <;> simp [enteredBy, entered, hg]
    rw [hcount, hcount, hup, hdown]
    cases c with
    | bringUp =>
      cases h
      exact ⟨rfl, rfl⟩
    | shutDown =>
      have hattempt : s.attempt s.bus.shutDown = (reply, s') := Option.some.inj h
      cases hs : s.bus.shutDown <;> rw [hs] at hattempt <;> cases hattempt <;> exact ⟨rfl, rfl⟩
    | _ => simp [Move.makes]

theorem count_run {ms : List (Move σ)} {replies : List Reply}
    (h : s.run ms = some (replies, s')) :
    s'.bus.history.count .broughtUp =
        ms.countP (Move.makes .bringUp) + s.bus.history.count .broughtUp ∧
      s'.bus.history.count .shutDown =
        (ms.zip replies).countP (fun x => x.1.makes .shutDown && x.2 == .ok) +
          s.bus.history.count .shutDown := by
  induction ms generalizing s replies with
  | nil =>
    cases h
    simp
  | cons m ms ih =>
    obtain ⟨reply, s₁, rest, hmove, hrun, rfl⟩ := run_cons_eq_some.1 h
    obtain ⟨hup, hdown⟩ := ih hrun
    obtain ⟨hup', hdown'⟩ := count_enteredBy hmove
    rw [hup, hdown, count_move hmove rfl, count_move hmove rfl, hup', hdown', List.zip_cons_cons,
      List.countP_cons, List.countP_cons]
    exact ⟨(Nat.add_assoc ..).symm, (Nat.add_assoc ..).symm⟩

/-- After every run the platform has been closed and reset as often as told, and the clock given to
it last is the one in force. In the next move, whatever it is, each reset is followed at once by
that clock, and what counts as a recovery is what a timeout check gives up. -/
theorem resets_accounted {platform : σ} {config : Config} {xs : List Expander}
    {ms : List (Move σ)} {replies : List Reply}
    (h : (create platform config xs).run ms = some (replies, s)) :
    let past := s.bus.history
    let clock := clockInForce xs config.clock ms
    past.count .closed = past.count .recovered +
        (ms.zip replies).countP (fun x => x.1.makes .shutDown && x.2 == .ok) ∧
      past.count .reset = ms.countP (Move.makes .bringUp) + past.count .recovered ∧
      s.bus.recoveries.toNat = past.count .recovered % UInt32.size ∧
      s.bus.config.clock = clock ∧
      (.reset ∈ past ∨ (∃ hz, .clockSet hz ∈ past) →
        past.findSome? Event.clock? = some clock) ∧
      (∀ m reply s', s.move m = some (reply, s') →
        ∃ added, s'.bus.history = added ++ past ∧ added.ResetsTo clock) ∧
      ∀ as b a b', s.bus.Path as b → b.act a = .ok b' →
        b'.history.count .recovered = b.history.count .recovered + b.recoveriesBy a ∧
        ((∀ p, a ≠ .shift p) → b.Records b') := by
  intro past clock
  have hcreate : (create platform config xs).bus.Coherent := Bus.coherent_create platform config
  have hs : s.bus.Coherent := coherent_run h hcreate
  have haccounts : s.bus.Accounted config.clock :=
    run_keeps h hcreate (fun _ _ _ hb haccounts ha => haccounts.act hb ha)
      (Bus.accounted_create platform config)
  have hclock : s.bus.config.clock = clock := clock_run h
  obtain ⟨hup, hdown⟩ := count_run h
  refine ⟨?_, ?_, ?_, hclock, fun hgiven => ?_, fun m reply s' hmove => ?_,
    fun as b a b' hpath hact => ⟨?_, Bus.records_act hact⟩⟩
  · rw [haccounts.balanced.closed_eq, hdown]
    rfl
  · rw [haccounts.balanced.reset_eq, hup]
    rfl
  · rw [haccounts.recoveries_eq, UInt32.toNat_ofNat']
  · rw [haccounts.clock_given hgiven, hclock]
  · rw [← hclock]
    exact resets_move hmove hs
  · rw [(hpath.coherent hs).history_act hact, List.count_append, Bus.count_recovered_entries,
      Nat.add_comm]

/-- The rate set after the bus was brought up is given again once the write has timed out. -/
theorem resets_accounted_late :
    ∃ replies s, (create (Bench.create 0 20) ⟨Config.standardMode, 10, .interrupt⟩ []).run
        [.call 0 .bringUp, .call 0 (.setClock 400000), .call 0 (.write 1 0x48 [1]),
          .call 0 .tick, .call 0 .shutDown] = some (replies, s) ∧
      s.bus.history.count .closed = 2 ∧ s.bus.history.count .reset = 2 ∧
      s.bus.recoveries.toNat = 1 ∧ s.bus.history.findSome? Event.clock? = some 400000 := by
  have hrun : ∃ s, (create (Bench.create 0 20) ⟨Config.standardMode, 10, .interrupt⟩ []).run
        [.call 0 .bringUp, .call 0 (.setClock 400000), .call 0 (.write 1 0x48 [1]),
          .call 0 .tick, .call 0 .shutDown] = some ([.done, .done, .ok, .done, .ok], s) ∧
      s.bus.history.count .recovered = 1 := ⟨_, rfl, rfl⟩
  obtain ⟨s, hrun, hrecovered⟩ := hrun
  obtain ⟨hclosed, hreset, hrecoveries, -, hgiven, -⟩ := resets_accounted hrun
  rw [hrecovered] at hclosed hreset hrecoveries
  have hmem : .reset ∈ s.bus.history := List.count_pos_iff.1 (by rw [hreset]; decide)
  exact ⟨_, s, hrun, hclosed, hreset, hrecoveries, hgiven (.inl hmem)⟩

end System

end SharedBus
