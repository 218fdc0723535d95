import SharedBus.Proofs.CallActs

/-!
# The clock in force

A bus runs at the clock that a caller set last, or else at the one configured. Each call
either sets the clock and does nothing else to the bus, or is a path of acts that leave the
clock alone.
-/

namespace SharedBus

def Act.config {σ : Type} (c : Config) : Act σ → Config
  | .setClock hz => { c with clock := hz }
  | .setTimeout limit => { c with timeout := limit }
  | .shift _ | .handleEvent | .checkTimeout | .bringUp | .shutDown | .configure .. | .submit _ |
    .poll .. => c

section Moves

variable {σ : Type}

def Move.clock? (xs : List Expander) : Move σ → Option Nat
  | .call _ c => c.clock? xs
  | .shift _ => none

/-- The clock after these moves: the one set last, or else the one configured. -/
def clockInForce (xs : List Expander) (configured : Nat) (ms : List (Move σ)) : Nat :=
  (ms.reverse.findSome? (Move.clock? xs)).getD configured

theorem clockInForce_cons (xs : List Expander) (configured : Nat) (m : Move σ)
    (ms : List (Move σ)) : clockInForce xs configured (m :: ms) =
      clockInForce xs ((m.clock? xs).getD configured) ms := by
  rw [clockInForce, List.reverse_cons, List.findSome?_append, List.findSome?_singleton,
    Option.getD_or, clockInForce]

/-- Only the number of devices matters. -/
theorem Move.clock?_map (xs : List Expander) (f : Expander → Expander) (m : Move σ) :
    m.clock? (xs.map f) = m.clock? xs := by
  cases m with
  | shift platform => rfl
  | call limit c => cases c <;> simp [Move.clock?, Call.clock?, Function.comp_def]

theorem clockInForce_map (xs : List Expander) (f : Expander → Expander) (configured : Nat)
    (ms : List (Move σ)) : clockInForce (xs.map f) configured ms =
      clockInForce xs configured ms := by
  rw [clockInForce, funext (Move.clock?_map xs f), clockInForce]

end Moves

namespace Bus

variable {σ : Type} [Platform σ] {b b' : Bus σ} {a : Act σ}

theorem config_act (ha : b.act a = .ok b') : b'.config = a.config b.config := by
  cases a with
  | handleEvent =>
    cases ha
    exact config_handleEvent b
  | checkTimeout =>
    cases ha
    exact config_checkTimeout b
  | submit r =>
    obtain ⟨-, rfl⟩ := act_submit ha
    exact config_startNext _
  | shutDown =>
    obtain ⟨-, rfl⟩ := act_shutDown ha
    rfl
  | configure r c =>
    obtain ⟨-, rfl⟩ := act_configure ha
    rfl
  | shift | bringUp | setClock | setTimeout | poll =>
    cases ha
    rfl

theorem clock_act (ha : b.act a = .ok b') :
    b'.config.clock = a.clock?.getD b.config.clock := by
  rw [config_act ha]
  cases a <;> rfl

def Steady (b b' : Bus σ) : Prop := ∃ as, Path b as b' ∧ ∀ a ∈ as, a.clock? = none

/-- As long as no one sets the clock, it stays. -/
theorem Steady.clock_eq (h : Steady b b') : b'.config.clock = b.config.clock := by
  obtain ⟨as, hpath, has⟩ := h
  induction hpath with
  | nil b => rfl
  | cons head tail ih =>
    obtain ⟨ha, has⟩ := List.forall_mem_cons.1 has
    rw [ih has, clock_act head, ha, Option.getD_none]

end Bus

namespace System

variable {σ : Type} [Platform σ] {s s' : System σ} {reply : Reply}

theorem steady_perform {limit : Nat} {c : Call} (h : s.perform limit c = some (reply, s'))
    (hc : c.clock? s.expanders = none) : s.bus.Steady s'.bus := by
  refine (via_perform h).mono fun a ha => ?_
  cases a with
  | setClock hz => cases hc.symm.trans ha
  | shift | handleEvent | checkTimeout | bringUp | shutDown | setTimeout | configure | submit |
    poll => rfl

theorem setClock_perform {limit : Nat} {c : Call} {hz : Nat}
    (h : s.perform limit c = some (reply, s')) (hc : c.clock? s.expanders = some hz) :
    s'.bus = s.bus.setClock hz := by
  cases c with
  | setClock hz' =>
    obtain rfl := Option.some.inj hc
    cases h
    rfl
  | selectClock i =>
    cases hx : s.expanders[i]? with
    | none => simp [Call.clock?, hx] at hc
    | some x =>
      obtain rfl : Config.standardMode = hz := by simpa [Call.clock?, hx] using hc
      simp only [perform, hx] at h
      cases h
      rfl
  | _ => cases hc

theorem clock_move {m : Move σ} (h : s.move m = some (reply, s')) :
    s'.bus.config.clock = (m.clock? s.expanders).getD s.bus.config.clock := by
  cases m with
  | shift platform =>
    cases h
    rfl
  | call limit c =>
    cases hc : c.clock? s.expanders with
    | none =>
      rw [Move.clock?, hc, (steady_perform h hc).clock_eq]
      rfl
    | some hz =>
      rw [Move.clock?, hc, setClock_perform h hc]
      rfl

/-- The bus runs at the clock in force. -/
theorem clock_run {ms : List (Move σ)} {replies : List Reply}
    (h : s.run ms = some (replies, s')) :
    s'.bus.config.clock = clockInForce s.expanders s.bus.config.clock ms := by
  induction ms generalizing s replies with
  | nil =>
    cases h
    rfl
  | cons m ms ih =>
    obtain ⟨reply, s₁, rest, hmove, hrun, rfl⟩ := run_cons_eq_some.1 h
    have hdevices := (leads_move hmove).devices
    rw [ih hrun, clock_move hmove, clockInForce_cons,
      ← clockInForce_map s₁.expanders Expander.unlatched, hdevices, clockInForce_map]

end System

end SharedBus
