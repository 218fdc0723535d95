import SharedBus.Proofs.Accord

/-!
# Acts on a bus

Whatever is done to a bus is a path of acts: the platform changes by itself, a
hardware event or a timeout check is handled, or a caller brings the bus up or down,
sets it up, or configures, submits or polls a request. Coherence is kept along every
path, and the history grows by it: of the events added, those that callers bring
about are exactly those that the acts enter. Of a poll only the first half is an
act, since to look at the outcome leaves the bus as it is.
-/

namespace SharedBus

inductive Act (σ : Type) where
  /-- Time passes, lines move, the bench is set up anew. -/
  | shift (platform : σ)
  | handleEvent
  | checkTimeout
  | bringUp
  | shutDown
  | setClock (hz : Nat)
  | setTimeout (limit : Ticks)
  | configure (r : RequestId) (c : Command)
  | submit (r : RequestId)
  | poll (r : RequestId) (l : ListenerId)

def Act.entry {σ : Type} : Act σ → Option Event
  | .shift _ | .handleEvent | .checkTimeout | .setClock _ | .setTimeout _ => none
  | .bringUp => some .broughtUp
  | .shutDown => some .shutDown
  | .configure r c => some (.configured r c)
  | .submit r => some (.accepted r)
  | .poll r l => some (.polled r l)

def Event.byCaller : Event → Bool
  | .broughtUp | .shutDown | .configured .. | .accepted _ | .polled .. => true
  | .reset | .clockSet _ | .closed | .begun _ | .serviced .. | .retired .. | .recovered => false

namespace Bus

variable {σ : Type} [Platform σ] {b b' : Bus σ}

def act (b : Bus σ) : Act σ → Except Error (Bus σ)
  | .shift platform => .ok { b with platform := platform }
  | .handleEvent => .ok b.handleEvent
  | .checkTimeout => .ok b.checkTimeout
  | .bringUp => .ok b.bringUp
  | .shutDown => b.shutDown
  | .setClock hz => .ok (b.setClock hz)
  | .setTimeout limit => .ok (b.setTimeout limit)
  | .configure r c => b.configure r c
  | .submit r => b.submit r
  | .poll r l => .ok (b.poll r l).2

inductive Path : Bus σ → List (Act σ) → Bus σ → Prop
  | nil (b : Bus σ) : Path b [] b
  | cons {b b₁ b₂ : Bus σ} {a : Act σ} {as : List (Act σ)} (head : b.act a = .ok b₁)
      (tail : Path b₁ as b₂) : Path b (a :: as) b₂

theorem Path.single {a : Act σ} (h : b.act a = .ok b') : Path b [a] b' := .cons h (.nil b')

theorem Path.trans {b₁ b₂ b₃ : Bus σ} {as as' : List (Act σ)} (h : Path b₁ as b₂)
    (h' : Path b₂ as' b₃) : Path b₁ (as ++ as') b₃ := by
  induction h with
  | nil => exact h'
  | cons head tail ih => exact .cons head (ih h')

/-- What every act keeps is kept along every path. -/
theorem Path.preserves {as : List (Act σ)} {P : Bus σ → Prop} (h : Path b as b')
    (hstep : ∀ b₁ b₂ a, P b₁ → b₁.act a = .ok b₂ → P b₂) (hb : P b) : P b' := by
  induction h with
  | nil => exact hb
  | cons head tail ih => exact ih (hstep _ _ _ hb head)

/-! ### Acts that may be turned down -/

theorem act_shutDown (h : b.act .shutDown = .ok b') :
    b.queued = 0 ∧ b' = b.closePlatform.note .shutDown := by
  by_cases hq : b.queued = 0
  · have hb := (shutDown_of_empty hq).symm.trans h
    exact ⟨hq, (Except.ok.inj hb).symm⟩
  · have hb := (shutDown_of_queued hq).symm.trans h
    cases hb

theorem act_configure {r : RequestId} {c : Command} (h : b.act (.configure r c) = .ok b') :
    (b.requests r).status ≠ .pending ∧
      b' = (b.setRequest r ((b.requests r).configured c)).note (.configured r c) := by
  by_cases hr : (b.requests r).status = .pending
  · have hb := (configure_of_pending hr c).symm.trans h
    cases hb
  · have hb := (configure_of_idle hr c).symm.trans h
    exact ⟨hr, (Except.ok.inj hb).symm⟩

theorem act_submit {r : RequestId} (h : b.act (.submit r) = .ok b') :
    (b.requests r).status ≠ .pending ∧ b' = (b.accept r).startNext := by
  by_cases hr : (b.requests r).status = .pending
  · have hb := (submit_of_pending hr).symm.trans h
    cases hb
  · have hb := (submit_of_idle hr).symm.trans h
    exact ⟨hr, (Except.ok.inj hb).symm⟩

theorem Coherent.act (h : b.Coherent) {a : Act σ} (hb : b.act a = .ok b') : b'.Coherent := by
  cases a with
  | shift platform =>
    cases hb
    exact h.shift platform
  | handleEvent =>
    cases hb
    exact h.handleEvent
  | checkTimeout =>
    cases hb
    exact h.checkTimeout
  | bringUp =>
    cases hb
    exact h.bringUp
  | shutDown =>
    obtain ⟨hq, rfl⟩ := act_shutDown hb
    exact h.shutDown hq
  | setClock hz =>
    cases hb
    exact h.setClock hz
  | setTimeout limit =>
    cases hb
    exact h.setTimeout limit
  | configure r c =>
    obtain ⟨hr, rfl⟩ := act_configure hb
    exact h.configure hr c
  | submit r =>
    obtain ⟨hr, rfl⟩ := act_submit hb
    exact h.submit hr
  | poll r l =>
    cases hb
    exact h.poll r l

theorem Path.coherent {as : List (Act σ)} (h : Path b as b') (hb : b.Coherent) : b'.Coherent :=
  h.preserves (fun _ _ _ h₁ ha => h₁.act ha) hb

/-- What every act keeps of a coherent bus is kept along every path. -/
theorem Path.keeps {as : List (Act σ)} {P : Bus σ → Prop} (h : Path b as b') (hb : b.Coherent)
    (hstep : ∀ b₁ b₂ a, b₁.Coherent → P b₁ → b₁.act a = .ok b₂ → P b₂) (hP : P b) : P b' := by
  have hboth := h.preserves (P := fun b => b.Coherent ∧ P b)
    (fun _ _ _ h₁ ha => ⟨h₁.1.act ha, hstep _ _ _ h₁.1 h₁.2 ha⟩) ⟨hb, hP⟩
  exact hboth.2

/-! ### How the history grows -/

/-- `b'` has a longer history than `b`, and `es` is what callers brought about since. -/
def Grows (b : Bus σ) (es : List Event) (b' : Bus σ) : Prop :=
  ∃ added, b'.history = added ++ b.history ∧ added.filter Event.byCaller = es

omit [Platform σ] in
theorem Grows.trans {b₁ b₂ b₃ : Bus σ} {es es' : List Event} (h : Grows b₁ es b₂)
    (h' : Grows b₂ es' b₃) : Grows b₁ (es' ++ es) b₃ := by
  obtain ⟨added, hhistory, hfilter⟩ := h
  obtain ⟨added', hhistory', hfilter'⟩ := h'
  refine ⟨added' ++ added, ?_, ?_⟩
  · rw [hhistory', hhistory, List.append_assoc]
  · rw [List.filter_append, hfilter, hfilter']

omit [Platform σ] in
theorem Grows.of_history_eq (h : b'.history = b.history) : Grows b [] b' := ⟨[], h, rfl⟩

omit [Platform σ] in
theorem Grows.of_service (added : List Event) (h : b'.history = added ++ b.history)
    (hadded : added.filter Event.byCaller = []) : Grows b [] b' := ⟨added, h, hadded⟩

theorem grows_startNext (b : Bus σ) : Grows b [] b.startNext := by
  rcases b.startNext_cases with he | ⟨r, hfree, hhead⟩
  · exact .of_history_eq (by rw [he])
  · rw [b.startNext_of_waiting hfree hhead]
    exact .of_service [_] rfl rfl

omit [Platform σ] in
theorem grows_retireActive (b : Bus σ) (status : Option Status) :
    Grows b [] (b.retireActive status) := by
  cases ht : b.active with
  | none => exact .of_history_eq (by rw [b.retireActive_of_free ht])
  | some t =>
    rw [b.retireActive_of_active ht]
    exact .of_service [_] rfl rfl

theorem grows_handleEvent (b : Bus σ) : Grows b [] b.handleEvent := by
  cases ht : b.active with
  | none => exact .of_history_eq (by rw [b.handleEvent_of_free ht])
  | some t =>
    have hserviced : Grows b [] (b.serviced t) := .of_service [_] rfl rfl
    rw [b.handleEvent_of_active ht]
    split
    · exact hserviced
    · exact (hserviced.trans (grows_retireActive _ _)).trans (grows_startNext _)

theorem grows_recover (b : Bus σ) : Grows b [] b.recover := by
  have hretired := b.grows_retireActive (some .timeout)
  have hreset : Grows (b.retireActive (some .timeout)) [] b.reclaimed :=
    .of_service [_, _, _] rfl rfl
  have hstarted := (hretired.trans hreset).trans (grows_startNext _)
  have hnoted : Grows b.reclaimed.startNext [] b.recover := .of_service [_] rfl rfl
  exact hstarted.trans hnoted

theorem grows_checkTimeout (b : Bus σ) : Grows b [] b.checkTimeout := by
  rcases b.checkTimeout_cases with ⟨-, he⟩ | ⟨-, he, -⟩ | ⟨t, -, -, -, he⟩
  · exact .of_history_eq (by rw [he])
  · rw [he]
    exact .of_history_eq rfl
  · have hread : Grows b [] b.readClock.2 := .of_history_eq rfl
    rw [he]
    exact hread.trans (grows_recover _)

theorem grows_act {a : Act σ} (h : b.act a = .ok b') : Grows b a.entry.toList b' := by
  cases a with
  | shift platform =>
    cases h
    exact .of_history_eq rfl
  | handleEvent =>
    cases h
    exact b.grows_handleEvent
  | checkTimeout =>
    cases h
    exact b.grows_checkTimeout
  | bringUp =>
    cases h
    exact ⟨[.clockSet b.config.clock, .reset, .broughtUp], rfl, rfl⟩
  | shutDown =>
    obtain ⟨-, rfl⟩ := act_shutDown h
    exact ⟨[.shutDown, .closed], rfl, rfl⟩
  | setClock hz =>
    cases h
    exact ⟨[.clockSet hz], rfl, rfl⟩
  | setTimeout limit =>
    cases h
    exact .of_history_eq rfl
  | configure r c =>
    obtain ⟨-, rfl⟩ := act_configure h
    exact ⟨[.configured r c], rfl, rfl⟩
  | submit r =>
    obtain ⟨-, rfl⟩ := act_submit h
    have haccepted : Grows b [.accepted r] (b.accept r) := ⟨[.accepted r], rfl, rfl⟩
    exact haccepted.trans (grows_startNext _)
  | poll r l =>
    cases h
    exact ⟨[.polled r l], rfl, rfl⟩

/-- The newest entry comes first, as in the history. -/
theorem Path.grows {as : List (Act σ)} (h : Path b as b') :
    Grows b (as.filterMap Act.entry).reverse b' := by
  induction h with
  | nil => exact .of_history_eq rfl
  | @cons b b₁ b₂ a as head tail ih =>
    have hgrows := (grows_act head).trans ih
    cases he : a.entry with
    | none =>
      rw [he] at hgrows
      rw [List.filterMap_cons_none he]
      simpa using hgrows
    | some e =>
      rw [he] at hgrows
      rw [List.filterMap_cons_some he, List.reverse_cons]
      exact hgrows

end Bus

end SharedBus
