import SharedBus.Proofs.Transcript

/-!
# The acts a call may make

To wait is to serve the bus, and a request is placed by waiting, configuring and submitting.
The other acts are made on demand only: a call brings the bus up or down, or sets its clock or
its timeout, if it was made to do that. No call changes the platform from outside.
-/

namespace SharedBus

def Act.clock? {σ : Type} : Act σ → Option Nat
  | .setClock hz => some hz
  | _ => none

def Call.clock? (xs : List Expander) : Call → Option Nat
  | .setClock hz => some hz
  | .selectClock i => xs[i]?.map fun _ => Config.standardMode
  | .bringUp | .shutDown | .setTimeout _ | .tick | .handleEvent | .submit _ | .write .. |
    .writeFixed .. | .read .. | .setWrite .. | .setWriteFixed .. | .setRead .. | .readInto .. |
    .wait _ | .complete _ | .poll _ | .describePins _ | .ownsPin .. | .writePin .. |
    .readPin .. => none

/-- The act serves the bus or has to do with one request. -/
def Act.routine {σ : Type} : Act σ → Bool
  | .handleEvent | .checkTimeout | .configure .. | .submit _ | .poll .. => true
  | .shift _ | .bringUp | .shutDown | .setClock _ | .setTimeout _ => false

def Call.mayMake {σ : Type} (xs : List Expander) (c : Call) : Act σ → Prop
  | .shift _ => False
  | .bringUp => c = .bringUp
  | .shutDown => c = .shutDown
  | .setClock hz => c.clock? xs = some hz
  | .setTimeout limit => c = .setTimeout limit
  | .handleEvent | .checkTimeout | .configure .. | .submit _ | .poll .. => True

theorem Call.mayMake_of_routine {σ : Type} {a : Act σ} (ha : a.routine = true)
    (xs : List Expander) (c : Call) : c.mayMake xs a := by
  cases a with
  | handleEvent | checkTimeout | configure | submit | poll => trivial
  | shift | bringUp | shutDown | setClock | setTimeout => cases ha

namespace Bus

variable {σ : Type} [Platform σ] {b b' : Bus σ} {P Q : Act σ → Prop}

def Via (P : Act σ → Prop) (b b' : Bus σ) : Prop := ∃ as, Path b as b' ∧ ∀ a ∈ as, P a

namespace Via

theorem refl (b : Bus σ) : Via P b b := ⟨[], .nil b, by simp⟩

theorem single {a : Act σ} (ha : b.act a = .ok b') (hP : P a) : Via P b b' :=
  ⟨[a], .single ha, by simpa using hP⟩

theorem trans {b₁ b₂ b₃ : Bus σ} (h : Via P b₁ b₂) (h' : Via P b₂ b₃) : Via P b₁ b₃ := by
  obtain ⟨as, hpath, has⟩ := h
  obtain ⟨as', hpath', has'⟩ := h'
  exact ⟨as ++ as', hpath.trans hpath', List.forall_mem_append.2 ⟨has, has'⟩⟩

theorem mono (h : Via P b b') (hPQ : ∀ a, P a → Q a) : Via Q b b' := by
  obtain ⟨as, hpath, has⟩ := h
  exact ⟨as, hpath, fun a ha => hPQ a (has a ha)⟩

/-- What these acts keep is kept all the way. -/
theorem preserves {I : Bus σ → Prop} (h : Via P b b')
    (hstep : ∀ b₁ b₂ a, P a → I b₁ → b₁.act a = .ok b₂ → I b₂) (hb : I b) : I b' := by
  obtain ⟨as, hpath, has⟩ := h
  induction hpath with
  | nil b => exact hb
  | cons head tail ih =>
    obtain ⟨ha, has⟩ := List.forall_mem_cons.1 has
    exact ih (hstep _ _ _ ha hb head) has

theorem tick (hevent : P .handleEvent) (hcheck : P .checkTimeout) (b : Bus σ) :
    Via P b b.tick := by
  have hserved : Via P b b.handleEvent := .single rfl hevent
  have hchecked (b : Bus σ) : Via P b b.checkTimeout := .single rfl hcheck
  unfold Bus.tick
  split
  · exact hserved.trans (hchecked _)
  · exact hchecked b

theorem records (h : Via P b b') (hP : ∀ p, ¬ P (.shift p)) : Records b b' := by
  refine h.preserves (I := Records b) (fun b₁ b₂ a ha hpast hact => ?_) (.of_eq rfl rfl)
  refine hpast.trans (records_act hact fun p hp => ?_)
  subst a
  exact hP p ha

end Via

/-! ### Calls on a bus -/

abbrev Routinely (b b' : Bus σ) : Prop := Via (fun a => a.routine = true) b b'

theorem Routinely.records (h : Routinely b b') : Records b b' :=
  Via.records h (by simp [Act.routine])

theorem routinely_tick (b : Bus σ) : Routinely b b.tick :=
  Via.tick (P := fun a => a.routine = true) rfl rfl b

theorem routinely_ticks (b : Bus σ) (n : Nat) : Routinely b (b.ticks n) := by
  induction n generalizing b with
  | zero => exact .refl b
  | succ n ih => exact b.routinely_tick.trans (ih b.tick)

theorem routinely_wait {r : RequestId} {limit : Nat} {status : Status}
    (h : b.wait r limit = some (status, b')) : Routinely b b' := by
  obtain ⟨k, -, -, -, rfl, -⟩ := wait_eq_some_iff.1 h
  exact b.routinely_ticks k

theorem routinely_placed {r : RequestId} (h : (b.requests r).status ≠ .pending) (c : Command) :
    Routinely b (b.placed r c) :=
  ⟨_, (place_of_idle h c).2, by simp [Act.routine]⟩

theorem routinely_request {r : RequestId} {limit : Nat} {command : Except Error Command}
    {result : Except Error Unit} (h : b.request limit r command = some (result, b')) :
    Routinely b b' := by
  cases hw : b.wait r limit with
  | none =>
    rw [request_of_no_wait hw] at h
    cases h
  | some x =>
    obtain ⟨status, b₁⟩ := x
    have hwaited := routinely_wait hw
    cases command with
    | error e =>
      rw [request_error hw] at h
      cases h
      exact hwaited
    | ok c =>
      rw [request_ok hw] at h
      cases h
      exact hwaited.trans (routinely_placed (path_wait hw).2.1 c)

end Bus

namespace Expander

variable {σ : Type} [Platform σ] {x x' : Expander} {b b' : Bus σ} {limit : Nat} {pin : UInt16}

theorem routinely_writePin {level : Bool} {result : Except Error Unit}
    (h : x.writePin limit pin level b = some (result, x', b')) : b.Routinely b' := by
  unfold writePin at h
  split at h
  · cases h
    exact .refl b
  · obtain ⟨⟨outcome, b₁⟩, hwrite, hreturn⟩ := Option.bind_eq_some_iff.1 h
    cases hreturn
    exact Bus.routinely_request hwrite

theorem routinely_readPin {result : Except Error Bool}
    (h : x.readPin limit pin b = some (result, x', b')) : b.Routinely b' := by
  unfold readPin at h
  split at h
  · cases h
    exact .refl b
  · obtain ⟨⟨outcome, b₁⟩, hread, hrest⟩ := Option.bind_eq_some_iff.1 h
    have hplaced := Bus.routinely_request hread
    cases outcome with
    | error e =>
      cases hrest
      exact hplaced
    | ok u =>
      obtain ⟨⟨status, b₂⟩, hwait, hreturn⟩ := Option.bind_eq_some_iff.1 hrest
      have hwaited := hplaced.trans (Bus.routinely_wait hwait)
      cases hs : status.toExcept <;> simp only [hs, pure] at hreturn <;> cases hreturn <;>
        exact hwaited

end Expander

/-! ### Calls on a system -/

namespace System

variable {σ : Type} [Platform σ] {s s' : System σ} {reply : Reply} {P : Act σ → Prop}

theorem via_attempt {a : Act σ} (hP : P a) (h : s.attempt (s.bus.act a) = (reply, s')) :
    s.bus.Via P s'.bus := by
  cases ha : s.bus.act a with
  | error e =>
    rw [ha] at h
    cases h
    exact .refl s.bus
  | ok b =>
    rw [ha] at h
    cases h
    exact .single ha hP

theorem routinely_setUp {r : RequestId} {command : Except Error Command}
    (h : s.attempt (command >>= s.bus.configure r) = (reply, s')) :
    s.bus.Routinely s'.bus := by
  cases command with
  | error e =>
    cases h
    exact .refl s.bus
  | ok c => exact via_attempt (a := .configure r c) rfl h

theorem routinely_request {limit : Nat} {r : RequestId} {command : Except Error Command}
    (h : (s.bus.request limit r command).map (fun (result, b) =>
      (Reply.ofResult result, s.withBus b)) = some (reply, s')) : s.bus.Routinely s'.bus := by
  obtain ⟨⟨result, b⟩, hrequest, hreply⟩ := Option.map_eq_some_iff.1 h
  cases hreply
  exact Bus.routinely_request hrequest

/-- What a call to a device does to the bus is what the device does to it. -/
theorem routinely_device {i : Nat} {α : Type} {f : α → Reply}
    {result : Expander → Option (α × Expander × Bus σ)}
    (hresult : ∀ x a x' b, result x = some (a, x', b) → s.bus.Routinely b)
    (h : (match s.expanders[i]? with
      | none => some (.absent, s)
      | some x => (result x).map fun (a, x, b) =>
        (f a, { s with bus := b, expanders := s.expanders.set i x })) = some (reply, s')) :
    s.bus.Routinely s'.bus := by
  cases hx : s.expanders[i]? with
  | none =>
    simp only [hx] at h
    cases h
    exact .refl s.bus
  | some x =>
    simp only [hx] at h
    obtain ⟨⟨a, x', b⟩, hsome, hreply⟩ := Option.map_eq_some_iff.1 h
    cases hreply
    exact hresult x a x' b hsome

theorem routinely_poll {i : Nat} (h : s.poll i = (reply, s')) : s.bus.Routinely s'.bus := by
  unfold poll at h
  split at h
  · cases h
    exact .refl s.bus
  · cases h
    exact .refl s.bus
  · rename_i r hr
    have hpolled : s.bus.Routinely (s.bus.poll r i).2 := .single (a := .poll r i) rfl rfl
    dsimp only at h
    split at h <;> cases h <;> exact hpolled

/-- A call is made up of the acts that it may make. -/
theorem via_perform {limit : Nat} {c : Call} (h : s.perform limit c = some (reply, s')) :
    s.bus.Via (c.mayMake s.expanders) s'.bus := by
  have hroutine (hs : s.bus.Routinely s'.bus) : s.bus.Via (c.mayMake s.expanders) s'.bus :=
    hs.mono fun a ha => Call.mayMake_of_routine ha s.expanders c
  cases c with
  | bringUp =>
    cases h
    exact .single (a := .bringUp) rfl rfl
  | shutDown => exact via_attempt (a := .shutDown) rfl (Option.some.inj h)
  | setClock hz =>
    cases h
    exact .single (a := .setClock hz) rfl rfl
  | setTimeout t =>
    cases h
    exact .single (a := .setTimeout t) rfl rfl
  | tick =>
    cases h
    exact hroutine s.bus.routinely_tick
  | handleEvent =>
    cases h
    exact .single (a := .handleEvent) rfl trivial
  | submit r => exact via_attempt (a := .submit r) trivial (Option.some.inj h)
  | write | writeFixed | read => exact hroutine (routinely_request h)
  | setWrite | setRead => exact hroutine (routinely_setUp (Option.some.inj h))
  | setWriteFixed r address data =>
    exact via_attempt (a := .configure r (.writeFixed address data)) trivial (Option.some.inj h)
  | wait r =>
    obtain ⟨⟨status, b⟩, hwait, hreply⟩ := Option.map_eq_some_iff.1 h
    cases hreply
    exact hroutine (Bus.routinely_wait hwait)
  | poll i => exact hroutine (routinely_poll (Option.some.inj h))
  | selectClock i =>
    cases hx : s.expanders[i]? with
    | none =>
      simp only [perform, hx] at h
      cases h
      exact .refl s.bus
    | some x =>
      simp only [perform, hx] at h
      cases h
      have hmay : (Call.selectClock i).mayMake s.expanders
          (.setClock Config.standardMode : Act σ) := by simp [Call.mayMake, Call.clock?, hx]
      exact .single rfl hmay
  | ownsPin i pin =>
    cases hx : s.expanders[i]? <;> simp only [perform, hx] at h <;> cases h <;> exact .refl s.bus
  | writePin =>
    exact hroutine (routinely_device (fun _ _ _ _ hwrite => Expander.routinely_writePin hwrite) h)
  | readPin =>
    exact hroutine (routinely_device (fun _ _ _ _ hread => Expander.routinely_readPin hread) h)
  | readInto | complete | describePins =>
    cases h
    exact .refl s.bus

end System

end SharedBus
