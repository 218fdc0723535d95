import SharedBus.Proofs.TwoClocks
import SharedBus.Session

/-!
# Runs by two clocks

Two systems are abreast when their buses are and nothing else differs. If a call on the first one
returns, and the clock has been exact until then, the call returns on the second one with the
same reply and leaves the systems abreast. So does a whole list of steps, in which the bench may
be adjusted between the calls, for each clock in its own way.
-/

namespace SharedBus

namespace Bus

variable {σ : Type} [Platform σ] {K : ClockChange σ} {b b' : Bus σ}

inductive Follows (K : ClockChange σ) : Except Error (Bus σ) → Except Error (Bus σ) → Prop
  | refused (e : Error) : Follows K (.error e) (.error e)
  | granted {b b' : Bus σ} (h : K.Exact b.platform → Abreast K b b') : Follows K (.ok b) (.ok b')

namespace Abreast

theorem shutDown (h : Abreast K b b') : Follows K b.shutDown b'.shutDown := by
  have hqueued : b'.queued = b.queued := congrArg Queue.size h.queue_eq
  by_cases hq : b.queued = 0
  · rw [shutDown_of_empty hq, shutDown_of_empty (hqueued.trans hq)]
    exact .granted fun _ => h.closePlatform.note rfl
  · rw [shutDown_of_queued hq, shutDown_of_queued (hqueued ▸ hq), hqueued]
    exact .refused _

theorem submit (h : Abreast K b b') (r : RequestId) :
    Follows K (b.submit r) (b'.submit r) := by
  have hrequest := congrFun h.requests_eq r
  by_cases hr : (b.requests r).status = .pending
  · have hr' : (b'.requests r).status = .pending := by rwa [hrequest]
    rw [submit_of_pending hr, submit_of_pending hr']
    exact .refused .pending
  · have hr' : (b'.requests r).status ≠ .pending := by rwa [hrequest]
    rw [submit_of_idle hr, submit_of_idle hr']
    exact .granted (h.accept r).startNext

theorem configure (h : Abreast K b b') (r : RequestId) (c : Command) :
    Follows K (b.configure r c) (b'.configure r c) := by
  have hrequest := congrFun h.requests_eq r
  by_cases hr : (b.requests r).status = .pending
  · have hr' : (b'.requests r).status = .pending := by rwa [hrequest]
    rw [configure_of_pending hr, configure_of_pending hr']
    exact .refused .pending
  · have hr' : (b'.requests r).status ≠ .pending := by rwa [hrequest]
    rw [configure_of_idle hr, configure_of_idle hr', hrequest]
    exact .granted fun _ => (h.setRequest r _).note rfl

theorem setUp (h : Abreast K b b') (r : RequestId) (command : Except Error Command) :
    Follows K (command >>= b.configure r) (command >>= b'.configure r) := by
  cases command with
  | error e => exact .refused e
  | ok c => exact h.configure r c

theorem request (h : Abreast K b b') {limit : Nat} {r : RequestId}
    {command : Except Error Command} {result : Except Error Unit} {b₁ : Bus σ}
    (hb : b.request limit r command = some (result, b₁)) (he : K.Exact b₁.platform) :
    ∃ b₁', b'.request limit r command = some (result, b₁') ∧ Abreast K b₁ b₁' := by
  cases hw : b.wait r limit with
  | none =>
    rw [request_of_no_wait hw] at hb
    cases hb
  | some x =>
    obtain ⟨status, b₂⟩ := x
    cases command with
    | error e =>
      rw [request_error hw] at hb
      cases hb
      obtain ⟨b₂', hw', hwaited⟩ := h.wait hw he
      exact ⟨b₂', request_error hw' e, hwaited⟩
    | ok c =>
      rw [request_ok hw] at hb
      cases hb
      have hidle := (path_wait hw).2.1
      obtain ⟨b₂', hw', hwaited⟩ := h.wait hw ((routinely_placed hidle c).records.exact he)
      exact ⟨_, request_ok hw' c, hwaited.placed he⟩

end Abreast

end Bus

/-! ### Devices -/

namespace Expander

variable {σ : Type} [Platform σ] {K : ClockChange σ} {b b' b₁ : Bus σ} {x x' : Expander}
  {limit : Nat} {pin : UInt16}

theorem abreast_writePin (h : b.Abreast K b') {level : Bool} {result : Except Error Unit}
    (hb : x.writePin limit pin level b = some (result, x', b₁)) (he : K.Exact b₁.platform) :
    ∃ b₁', x.writePin limit pin level b' = some (result, x', b₁') ∧ b₁.Abreast K b₁' := by
  unfold writePin at hb ⊢
  split at hb
  · cases hb
    exact ⟨b', rfl, h⟩
  · obtain ⟨⟨outcome, b₂⟩, hwrite, hreturn⟩ := Option.bind_eq_some_iff.1 hb
    cases hreturn
    obtain ⟨b₂', hwrite', hwritten⟩ := h.request hwrite he
    exact ⟨b₂', Option.bind_eq_some_iff.2 ⟨_, hwrite', rfl⟩, hwritten⟩

/-- The level is read off what the request received, which is the same by both clocks. -/
theorem abreast_readPin (h : b.Abreast K b') {result : Except Error Bool}
    (hb : x.readPin limit pin b = some (result, x', b₁)) (he : K.Exact b₁.platform) :
    ∃ b₁', x.readPin limit pin b' = some (result, x', b₁') ∧ b₁.Abreast K b₁' := by
  unfold readPin at hb ⊢
  split at hb
  · cases hb
    exact ⟨b', rfl, h⟩
  · obtain ⟨⟨outcome, b₂⟩, hread, hrest⟩ := Option.bind_eq_some_iff.1 hb
    cases outcome with
    | error e =>
      cases hrest
      obtain ⟨b₂', hread', hplaced⟩ := h.request hread he
      exact ⟨b₂', Option.bind_eq_some_iff.2 ⟨_, hread', rfl⟩, hplaced⟩
    | ok u =>
      obtain ⟨⟨status, b₃⟩, hwait, hreturn⟩ := Option.bind_eq_some_iff.1 hrest
      have hend : b₁ = b₃ := by
        cases hs : status.toExcept <;> simp only [hs, pure] at hreturn <;> cases hreturn <;> rfl
      subst hend
      obtain ⟨b₂', hread', hplaced⟩ := h.request hread ((Bus.routinely_wait hwait).records.exact he)
      obtain ⟨b₁', hwait', hwaited⟩ := hplaced.wait hwait he
      refine ⟨b₁', Option.bind_eq_some_iff.2 ⟨_, hread', ?_⟩, hwaited⟩
      refine Option.bind_eq_some_iff.2 ⟨_, hwait', ?_⟩
      cases hs : status.toExcept <;> simp only [hs, pure] at hreturn ⊢ <;> cases hreturn
      · rfl
      · rw [hwaited.requests_eq]

end Expander

/-! ### Calls on a system -/

namespace System

section Calls

variable {σ : Type} [Platform σ] {K : ClockChange σ} {s s' : System σ} {reply : Reply}

structure Abreast (K : ClockChange σ) (s s' : System σ) : Prop where
  bus : s.bus.Abreast K s'.bus
  expanders_eq : s'.expanders = s.expanders
  completions_eq : s'.completions = s.completions

/-- If the first call returns, so does the second one, with the same reply, and the systems are
abreast. -/
def Follows (K : ClockChange σ) (x x' : Option (Reply × System σ)) : Prop :=
  ∀ reply s, x = some (reply, s) → K.Exact s.bus.platform →
    ∃ s', x' = some (reply, s') ∧ s.Abreast K s'

theorem Abreast.withBus (h : s.Abreast K s') {b b' : Bus σ} (hb : b.Abreast K b') :
    (s.withBus b).Abreast K (s'.withBus b') := ⟨hb, h.expanders_eq, h.completions_eq⟩

theorem follows_some (h : K.Exact s.bus.platform → s.Abreast K s') :
    Follows K (some (reply, s)) (some (reply, s')) := by
  rintro _ _ heq he
  cases heq
  exact ⟨s', rfl, h he⟩

theorem follows_attempt (h : s.Abreast K s') {result result' : Except Error (Bus σ)}
    (hresult : Bus.Follows K result result') :
    Follows K (some (s.attempt result)) (some (s'.attempt result')) := by
  cases hresult with
  | refused e => exact follows_some fun _ => h
  | granted hb => exact follows_some fun he => h.withBus (hb he)

theorem follows_request (h : s.Abreast K s') (limit : Nat) (r : RequestId)
    (command : Except Error Command) :
    Follows K
      ((s.bus.request limit r command).map fun (result, b) => (.ofResult result, s.withBus b))
      ((s'.bus.request limit r command).map fun (result, b) =>
        (.ofResult result, s'.withBus b)) := by
  intro reply t ht he
  obtain ⟨⟨result, b⟩, hb, hreply⟩ := Option.map_eq_some_iff.1 ht
  cases hreply
  obtain ⟨b', hb', hplaced⟩ := h.bus.request hb he
  exact ⟨s'.withBus b', Option.map_eq_some_iff.2 ⟨_, hb', rfl⟩, h.withBus hplaced⟩

/-- What a device does by both clocks alike, a call to it does. -/
theorem follows_device (h : s.Abreast K s') (i : Nat) {α : Type} {f : α → Reply}
    {act : Expander → Bus σ → Option (α × Expander × Bus σ)}
    (hact : ∀ x a x' b, act x s.bus = some (a, x', b) → K.Exact b.platform →
      ∃ b', act x s'.bus = some (a, x', b') ∧ b.Abreast K b') :
    Follows K
      (match s.expanders[i]? with
        | none => some (.absent, s)
        | some x => (act x s.bus).map fun (a, x, b) =>
          (f a, { s with bus := b, expanders := s.expanders.set i x }))
      (match s'.expanders[i]? with
        | none => some (.absent, s')
        | some x => (act x s'.bus).map fun (a, x, b) =>
          (f a, { s' with bus := b, expanders := s'.expanders.set i x })) := by
  rw [h.expanders_eq]
  cases hx : s.expanders[i]? with
  | none => exact follows_some fun _ => h
  | some x =>
    intro reply t ht he
    obtain ⟨⟨a, x', b⟩, hb, hreply⟩ := Option.map_eq_some_iff.1 ht
    cases hreply
    obtain ⟨b', hb', hacted⟩ := hact x a x' b hb he
    exact ⟨_, Option.map_eq_some_iff.2 ⟨_, hb', rfl⟩, hacted, rfl, h.completions_eq⟩

theorem follows_poll (h : s.Abreast K s') (m : Nat) :
    Follows K (some (s.poll m)) (some (s'.poll m)) := by
  have hpoll (r : RequestId) := h.bus.poll r m
  cases hm : s.completions[m]? with
  | none =>
    simp only [poll, h.completions_eq, hm]
    exact follows_some fun _ => h
  | some c =>
    obtain ⟨r, resolved⟩ := c
    cases resolved with
    | true =>
      simp only [poll, h.completions_eq, hm]
      exact follows_some fun _ => h
    | false =>
      simp only [poll, h.completions_eq, hm, (hpoll r).1]
      cases (s.bus.poll r m).1 with
      | none => exact follows_some fun _ => h.withBus (hpoll r).2
      | some status => exact follows_some fun _ => ⟨(hpoll r).2, h.expanders_eq, rfl⟩

/-- A call that returns by the first clock returns by the second, with the same reply. -/
theorem follows_perform (h : s.Abreast K s') (limit : Nat) (c : Call)
    (hc : ∀ l, c = .setTimeout l → K.Tolerates l) :
    Follows K (s.perform limit c) (s'.perform limit c) := by
  cases c with
  | bringUp => exact follows_some fun _ => h.withBus h.bus.bringUp
  | shutDown => exact follows_attempt h h.bus.shutDown
  | setClock hz => exact follows_some fun _ => h.withBus (h.bus.setClock hz)
  | setTimeout l => exact follows_some fun _ => h.withBus (h.bus.setTimeout (hc l rfl))
  | tick => exact follows_some fun he => h.withBus (h.bus.tick he)
  | handleEvent => exact follows_some fun he => h.withBus (h.bus.handleEvent he)
  | submit r => exact follows_attempt h (h.bus.submit r)
  | write | writeFixed | read => exact follows_request h limit _ _
  | setWrite | setRead => exact follows_attempt h (h.bus.setUp ..)
  | setWriteFixed => exact follows_attempt h (h.bus.configure ..)
  | readInto r out =>
    have hread : s'.readInto r out = s.readInto r out := by
      rw [readInto, readInto, h.bus.requests_eq]
    rw [perform, perform, hread]
    exact follows_some fun _ => h
  | wait r =>
    intro reply t ht he
    obtain ⟨⟨status, b⟩, hb, hreply⟩ := Option.map_eq_some_iff.1 ht
    cases hreply
    obtain ⟨b', hb', hwaited⟩ := h.bus.wait hb he
    exact ⟨s'.withBus b', Option.map_eq_some_iff.2 ⟨_, hb', rfl⟩, h.withBus hwaited⟩
  | complete r =>
    rw [perform, perform, h.completions_eq]
    exact follows_some fun _ => ⟨h.bus, h.expanders_eq, rfl⟩
  | poll m => exact follows_poll h m
  | selectClock i =>
    simp only [perform, h.expanders_eq]
    cases s.expanders[i]? with
    | none => exact follows_some fun _ => h
    | some x => exact follows_some fun _ => h.withBus (h.bus.setClock _)
  | describePins => exact follows_some fun _ => h
  | ownsPin i pin =>
    simp only [perform, h.expanders_eq]
    cases s.expanders[i]? <;> exact follows_some fun _ => h
  | writePin i pin level =>
    exact follows_device h i fun _ _ _ _ hb he => Expander.abreast_writePin h.bus hb he
  | readPin i pin =>
    exact follows_device h i fun _ _ _ _ hb he => Expander.abreast_readPin h.bus hb he

end Calls

end System

/-! ### Steps on the bench -/

def Step.move (limit : Nat) (h : Bench) : Step → Move Bench
  | .call c => .call limit c
  | .adjust a => .shift (h.adjust a)

inductive Step.Matches (K : ClockChange Bench) : Step → Step → Prop
  | call (c : Call) : Matches K (.call c) (.call c)
  | adjust {a a' : Bench.Adjustment} (ha : ∀ {h h' : Bench}, K.Alike h h' → K.Exact (h.adjust a) →
      K.Alike (h.adjust a) (h'.adjust a')) : Matches K (.adjust a) (.adjust a')

namespace System

variable {K : ClockChange Bench} {limit : Nat} {s s' t : System Bench} {step : Step}
  {steps steps' : List Step} {reply : Reply} {replies : List Reply}

def takeStep (limit : Nat) (s : System Bench) (step : Step) : Option (Reply × System Bench) :=
  s.move (step.move limit s.bus.platform)

def follow (limit : Nat) (s : System Bench) : List Step → Option (List Reply × System Bench)
  | [] => some ([], s)
  | step :: steps => do
    let (reply, s) ← s.takeStep limit step
    let (replies, s) ← s.follow limit steps
    return (reply :: replies, s)

theorem follow_cons_eq_some : s.follow limit (step :: steps) = some (replies, t) ↔
    ∃ reply s₁ rest, s.takeStep limit step = some (reply, s₁) ∧
      s₁.follow limit steps = some (rest, t) ∧ replies = reply :: rest := by
  constructor
  · intro h
    obtain ⟨⟨reply, s₁⟩, hstep, h⟩ := Option.bind_eq_some_iff.1 h
    obtain ⟨⟨rest, s₂⟩, hrest, h⟩ := Option.bind_eq_some_iff.1 h
    cases h
    exact ⟨reply, s₁, rest, hstep, hrest, rfl⟩
  · rintro ⟨reply, s₁, rest, hstep, hrest, rfl⟩
    simp only [follow, hstep, hrest, Option.bind_eq_bind, Option.bind_some, pure]

/-- What each of the steps keeps is kept by all of them. -/
theorem follow_preserves {I : System Bench → Prop} (h : s.follow limit steps = some (replies, t))
    (hstep : ∀ step ∈ steps, ∀ s₁ reply s₂, I s₁ → s₁.takeStep limit step = some (reply, s₂) → I s₂)
    (hs : I s) : I t := by
  induction steps generalizing s replies with
  | nil =>
    cases h
    exact hs
  | cons step steps ih =>
    obtain ⟨reply, s₁, rest, hfirst, hrest, -⟩ := follow_cons_eq_some.1 h
    obtain ⟨hhead, htail⟩ := List.forall_mem_cons.1 hstep
    exact ih hrest htail (hhead _ _ _ hs hfirst)

def Throughout (P : Bench → Prop) (limit : Nat) (s : System Bench) (steps : List Step) : Prop :=
  ∀ front replies t, front <+: steps → s.follow limit front = some (replies, t) → P t.bus.platform

theorem Throughout.cons {P : Bench → Prop} (h : s.Throughout P limit (step :: steps))
    (hstep : s.takeStep limit step = some (reply, s')) :
    P s'.bus.platform ∧ s'.Throughout P limit steps := by
  have hrest : s'.Throughout P limit steps := fun front replies t hfront ht =>
    h (step :: front) (reply :: replies) t ((List.prefix_cons_inj step).2 hfront)
      (follow_cons_eq_some.2 ⟨reply, s', replies, hstep, ht, rfl⟩)
  exact ⟨hrest [] [] s' List.nil_prefix rfl, hrest⟩

theorem follows_takeStep (limit : Nat) (h : s.Abreast K s') {step' : Step}
    (hstep : step.Matches K step')
    (htolerates : ∀ l, step = .call (.setTimeout l) → K.Tolerates l) :
    Follows K (s.takeStep limit step) (s'.takeStep limit step') := by
  cases hstep with
  | call c => exact follows_perform h limit c fun l hl => htolerates l (congrArg Step.call hl)
  | adjust ha =>
    exact follows_some fun he => h.withBus { h.bus with platform := ha h.bus.platform he }

/-- Steps that have been followed by an exact clock can be followed by the other clock. They are
answered the same, and the systems are abreast at the end. -/
theorem abreast_follow (h : s.Abreast K s') (hsteps : List.Forall₂ (Step.Matches K) steps steps')
    (htolerates : ∀ l, .call (.setTimeout l) ∈ steps → K.Tolerates l)
    (hexact : s.Throughout K.Exact limit steps) (ht : s.follow limit steps = some (replies, t)) :
    ∃ t', s'.follow limit steps' = some (replies, t') ∧ t.Abreast K t' := by
  induction hsteps generalizing s s' replies with
  | nil =>
    cases ht
    exact ⟨s', rfl, h⟩
  | @cons step step' steps steps' hstep hsteps ih =>
    obtain ⟨reply, s₁, rest, hfirst, hrest, rfl⟩ := follow_cons_eq_some.1 ht
    obtain ⟨he, hexact⟩ := hexact.cons hfirst
    obtain ⟨s₁', hfirst', habreast⟩ := follows_takeStep limit h hstep
      (fun l hl => htolerates l (hl ▸ List.mem_cons_self)) reply s₁ hfirst he
    obtain ⟨t', hrest', hend⟩ :=
      ih habreast (fun l hl => htolerates l (List.mem_cons_of_mem _ hl)) hexact hrest
    exact ⟨t', follow_cons_eq_some.2 ⟨reply, s₁', rest, hfirst', hrest', rfl⟩, hend⟩

end System

end SharedBus
