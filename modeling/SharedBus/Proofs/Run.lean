import SharedBus.Proofs.Calls

/-!
# Runs of a system

A run makes moves one after the other: calls, each with a limit on the ticks it may
spend waiting, and changes of the platform from outside. A run has a result when
every call returns.
-/

namespace SharedBus

inductive Move (σ : Type) where
  | call (limit : Nat) (call : Call)
  | shift (platform : σ)

structure Turn (σ : Type) where
  before : System σ
  move : Move σ
  reply : Reply
  after : System σ

namespace System

variable {σ : Type} {s s' : System σ}

def enteredBy (s : System σ) (m : Move σ) (reply : Reply) : List Event :=
  match m with
  | .call _ c => s.entered c reply
  | .shift _ => []

theorem mem_enteredBy {m : Move σ} {reply : Reply} {e : Event} (h : e ∈ s.enteredBy m reply) :
    ∃ limit c, m = .call limit c ∧ reply.granted = true ∧ e ∈ s.intent c := by
  cases m with
  | shift platform => cases h
  | call limit c =>
    cases hg : reply.granted with
    | false => simp [enteredBy, entered, hg] at h
    | true => exact ⟨limit, c, rfl, rfl, by simpa [enteredBy, entered, hg] using h⟩

variable [Platform σ]

def move (s : System σ) : Move σ → Option (Reply × System σ)
  | .call limit c => s.perform limit c
  | .shift platform => some (.done, s.withBus { s.bus with platform := platform })

def run (s : System σ) : List (Move σ) → Option (List Reply × System σ)
  | [] => some ([], s)
  | m :: ms => do
    let (reply, s) ← s.move m
    let (replies, s) ← s.run ms
    return (reply :: replies, s)

/-- The moves of a run with what came of them, up to the first call that does not return. -/
def turns (s : System σ) : List (Move σ) → List (Turn σ)
  | [] => []
  | m :: ms => match s.move m with
    | none => []
    | some (reply, s') => ⟨s, m, reply, s'⟩ :: s'.turns ms

theorem turns_cons {m : Move σ} {reply : Reply} (h : s.move m = some (reply, s'))
    (ms : List (Move σ)) : s.turns (m :: ms) = ⟨s, m, reply, s'⟩ :: s'.turns ms := by
  rw [turns, h]

/-- What `f` picks out of the turns of a run, one turn at a time. -/
theorem filterMap_turns_cons {α : Type} (f : Turn σ → Option α) {m : Move σ} {reply : Reply}
    (h : s.move m = some (reply, s')) (ms : List (Move σ)) :
    (s.turns (m :: ms)).filterMap f =
      (f ⟨s, m, reply, s'⟩).toList ++ (s'.turns ms).filterMap f := by
  rw [turns_cons h]
  cases hf : f ⟨s, m, reply, s'⟩ with
  | none => rw [List.filterMap_cons_none hf, Option.toList_none, List.nil_append]
  | some x => rw [List.filterMap_cons_some hf, Option.toList_some, List.singleton_append]

theorem run_cons_eq_some {m : Move σ} {ms : List (Move σ)} {replies : List Reply} :
    s.run (m :: ms) = some (replies, s') ↔
      ∃ reply s₁ rest, s.move m = some (reply, s₁) ∧ s₁.run ms = some (rest, s') ∧
        replies = reply :: rest := by
  constructor
  · intro h
    obtain ⟨⟨reply, s₁⟩, hmove, h⟩ := Option.bind_eq_some_iff.1 h
    obtain ⟨⟨rest, s₂⟩, hrun, h⟩ := Option.bind_eq_some_iff.1 h
    cases h
    exact ⟨reply, s₁, rest, hmove, hrun, rfl⟩
  · rintro ⟨reply, s₁, rest, hmove, hrun, rfl⟩
    simp only [run, hmove, Option.bind_eq_bind, Option.bind_some, hrun, pure]

theorem run_append_eq_some {ms ms' : List (Move σ)} {replies : List Reply} :
    s.run (ms ++ ms') = some (replies, s') ↔
      ∃ first s₁ rest, s.run ms = some (first, s₁) ∧ s₁.run ms' = some (rest, s') ∧
        replies = first ++ rest := by
  induction ms generalizing s replies with
  | nil =>
    constructor
    · intro h
      exact ⟨[], s, replies, rfl, h, rfl⟩
    · rintro ⟨first, s₁, rest, hrun, hrest, rfl⟩
      cases hrun
      exact hrest
  | cons m ms ih =>
    rw [List.cons_append, run_cons_eq_some]
    constructor
    · rintro ⟨reply, s₁, later, hmove, hrun, rfl⟩
      obtain ⟨first, s₂, rest, hfirst, hrest, rfl⟩ := ih.1 hrun
      exact ⟨reply :: first, s₂, rest, run_cons_eq_some.2 ⟨reply, s₁, first, hmove, hfirst, rfl⟩,
        hrest, rfl⟩
    · rintro ⟨first, s₂, rest, hfirst, hrest, rfl⟩
      obtain ⟨reply, s₁, later, hmove, hrun, rfl⟩ := run_cons_eq_some.1 hfirst
      exact ⟨reply, s₁, later ++ rest, hmove, ih.2 ⟨later, s₂, rest, hrun, hrest, rfl⟩, rfl⟩

/-- The last move of a run is made where the moves before it lead to. -/
theorem move_of_run_concat {s₁ : System σ} {ms : List (Move σ)} {m : Move σ}
    {replies : List Reply} {reply : Reply} (h : s.run ms = some (replies, s₁))
    (hlast : s.run (ms ++ [m]) = some (replies ++ [reply], s')) : s₁.move m = some (reply, s') := by
  obtain ⟨first, s₂, rest, hrun, hrest, hreplies⟩ := run_append_eq_some.1 hlast
  obtain ⟨rfl, rfl⟩ := Prod.mk.inj (Option.some.inj (h.symm.trans hrun))
  obtain ⟨reply', s₃, none, hmove, hend, rfl⟩ := run_cons_eq_some.1 hrest
  cases hend
  obtain rfl : reply = reply' := List.head_eq_of_cons_eq (List.append_cancel_left hreplies)
  exact hmove

theorem leads_move {m : Move σ} {reply : Reply} (h : s.move m = some (reply, s')) :
    s.Leads (s.enteredBy m reply) s' := by
  cases m with
  | call limit c => exact leads_perform h
  | shift platform =>
    cases h
    exact leads_withBus (.single (a := .shift platform) rfl) rfl

/-- What callers bring about on a move is what the move has entered. -/
theorem history_move {m : Move σ} {reply : Reply} (h : s.move m = some (reply, s')) :
    ∃ added, s'.bus.history = added ++ s.bus.history ∧
      ∀ e ∈ added, e.byCaller = true → e ∈ s.enteredBy m reply := by
  obtain ⟨as, hpath, has⟩ := (leads_move h).path
  obtain ⟨added, hhistory, hadded⟩ := hpath.grows
  refine ⟨added, hhistory, fun e he hcaller => ?_⟩
  have hmem : e ∈ added.filter Event.byCaller := List.mem_filter.2 ⟨he, hcaller⟩
  rwa [hadded, has, List.mem_reverse] at hmem

/-- What every move keeps is kept by every run. -/
theorem run_preserves {P : System σ → Prop} {ms : List (Move σ)} {replies : List Reply}
    (h : s.run ms = some (replies, s'))
    (hstep : ∀ s₁ s₂ m reply, P s₁ → s₁.move m = some (reply, s₂) → P s₂) (hs : P s) : P s' := by
  induction ms generalizing s replies with
  | nil =>
    cases h
    exact hs
  | cons m ms ih =>
    obtain ⟨reply, s₁, rest, hmove, hrun, -⟩ := run_cons_eq_some.1 h
    exact ih hrun (hstep _ _ _ _ hs hmove)

theorem history_run {ms : List (Move σ)} {replies : List Reply}
    (h : s.run ms = some (replies, s')) : ∃ added, s'.bus.history = added ++ s.bus.history := by
  refine run_preserves (P := fun s' => ∃ added, s'.bus.history = added ++ s.bus.history) h
    (fun s₁ s₂ m reply hs₁ hmove => ?_) ⟨[], rfl⟩
  obtain ⟨earlier, hearlier⟩ := hs₁
  obtain ⟨added, hadded, -⟩ := history_move hmove
  exact ⟨added ++ earlier, by rw [hadded, hearlier, List.append_assoc]⟩

theorem keeps_run {ms : List (Move σ)} {replies : List Reply} (h : s.run ms = some (replies, s')) :
    s.Keeps s' :=
  run_preserves (P := s.Keeps) h (fun _ _ _ _ hs hmove => hs.trans (leads_move hmove).toKeeps)
    (.refl s)

theorem coherent_move {m : Move σ} {reply : Reply} (h : s.move m = some (reply, s'))
    (hs : s.bus.Coherent) : s'.bus.Coherent := by
  obtain ⟨as, hpath, -⟩ := (leads_move h).path
  exact hpath.coherent hs

theorem coherent_run {ms : List (Move σ)} {replies : List Reply}
    (h : s.run ms = some (replies, s')) (hs : s.bus.Coherent) : s'.bus.Coherent :=
  run_preserves (P := fun s => s.bus.Coherent) h
    (fun _ _ _ _ hs₁ hmove => coherent_move hmove hs₁) hs

/-- A run is a path of acts on the bus. -/
theorem path_run {ms : List (Move σ)} {replies : List Reply} (h : s.run ms = some (replies, s')) :
    ∃ as, s.bus.Path as s'.bus := by
  refine run_preserves (P := fun s' => ∃ as, s.bus.Path as s'.bus) h
    (fun s₁ s₂ m reply hs₁ hmove => ?_) ⟨[], .nil _⟩
  obtain ⟨as, hpath⟩ := hs₁
  obtain ⟨as', hpath', -⟩ := (leads_move hmove).path
  exact ⟨as ++ as', hpath.trans hpath'⟩

/-- What every act keeps of a coherent bus is kept by every run. -/
theorem run_keeps {P : Bus σ → Prop} {ms : List (Move σ)} {replies : List Reply}
    (h : s.run ms = some (replies, s')) (hs : s.bus.Coherent)
    (hstep : ∀ b b' a, b.Coherent → P b → b.act a = .ok b' → P b') (hP : P s.bus) : P s'.bus := by
  obtain ⟨as, hpath⟩ := path_run h
  exact hpath.keeps hs hstep hP

end System

end SharedBus
