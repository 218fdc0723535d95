import SharedBus.Proofs.CallActs
import SharedBus.Proofs.Interleaving
import SharedBus.Proofs.Waking

/-!
# Waits with service in between

While a wait spins the interrupt may come, between two of its ticks and between a look at the
status and the tick that follows it. A wait that is a single move is the one in which nothing of
this happens. Whatever comes in between, a wait for a pending request ends only when the request
has been retired, by a tick or by a handler, and returns what was written then. Nothing is set up,
submitted or polled meanwhile, so what is kept on every path of acts is kept by such a wait.
-/

namespace SharedBus

/-- The queue is served, or the platform changes by itself. -/
def Act.serves {σ : Type} : Act σ → Bool
  | .shift _ | .handleEvent | .checkTimeout => true
  | .bringUp | .shutDown | .setClock _ | .setTimeout _ | .configure .. | .submit _ | .poll .. =>
    false

theorem Act.entry_of_serves {σ : Type} {a : Act σ} (ha : a.serves = true) : a.entry = none := by
  cases a with
  | shift | handleEvent | checkTimeout => rfl
  | bringUp | shutDown | setClock | setTimeout | configure | submit | poll => cases ha

namespace Bus

variable {σ : Type} [Platform σ] {b b' : Bus σ} {r : RequestId} {status : Status}

abbrev Served (b b' : Bus σ) : Prop := Via (fun a => a.serves = true) b b'

/-- A wait for `r` that starts from the first bus returns the status and leaves the second bus. -/
inductive Awaits (r : RequestId) : Bus σ → Status → Bus σ → Prop
  | done {b : Bus σ} (hr : b.isBusy r = false) : Awaits r b (b.requests r).status b
  | tick {b b' : Bus σ} {status : Status} (hr : b.isBusy r = true) (before after : List (Service σ))
      (rest : Awaits r ((b.serveAll before).tick.serveAll after) status b') : Awaits r b status b'

theorem served_tick (b : Bus σ) : b.Served b.tick :=
  Via.tick (P := fun a => a.serves = true) rfl rfl b

theorem served_serve (b : Bus σ) (x : Service σ) : b.Served (b.serve x) := by
  cases x with
  | event => exact .single (a := .handleEvent) rfl rfl
  | tick => exact b.served_tick
  | shift platform => exact .single (a := .shift platform) rfl rfl

theorem served_serveAll (b : Bus σ) (service : List (Service σ)) :
    b.Served (b.serveAll service) := by
  induction service generalizing b with
  | nil => exact .refl b
  | cons x service ih => exact (b.served_serve x).trans (ih (b.serve x))

theorem awaits_of_wait {limit : Nat} (h : b.wait r limit = some (status, b')) :
    Awaits r b status b' := by
  induction limit generalizing b with
  | zero =>
    cases hr : b.isBusy r with
    | true => simp [wait, hr] at h
    | false =>
      rw [wait_of_not_busy hr] at h
      cases h
      exact .done hr
  | succ n ih =>
    cases hr : b.isBusy r with
    | true =>
      rw [wait_succ_of_busy hr] at h
      exact .tick hr [] [] (ih h)
    | false =>
      rw [wait_of_not_busy hr] at h
      cases h
      exact .done hr

namespace Awaits

theorem served (h : Awaits r b status b') : b.Served b' := by
  induction h with
  | done => exact .refl _
  | @tick b _ _ _ before after _ ih =>
    have hticked : b.Served (b.serveAll before).tick :=
      (b.served_serveAll before).trans (served_tick _)
    exact hticked.trans ((served_serveAll _ after).trans ih)

theorem status_eq (h : Awaits r b status b') :
    status = (b'.requests r).status ∧ status ≠ .pending := by
  induction h with
  | done hr => exact ⟨rfl, Status.isPending_eq_false.1 hr⟩
  | tick _ _ _ _ ih => exact ih

/-- What is returned has been written by a retirement since. -/
theorem retired (h : Awaits r b status b') (hb : b.Coherent)
    (hr : (b.requests r).status = .pending) :
    ∃ later t earlier, b'.history = later ++ .retired t status :: (earlier ++ b.history) ∧
      t.request = r ∧ (later ++ .retired t status :: earlier).filter Event.byCaller = [] := by
  obtain ⟨as, hpath, has⟩ := h.served
  obtain ⟨added, hadded, hquiet⟩ := hpath.grows
  obtain ⟨hstatus, hterminal⟩ := h.status_eq
  have hb' : b'.Coherent := hpath.coherent hb
  have hentered : as.filterMap Act.entry = [] :=
    List.filterMap_eq_nil_iff.2 fun a ha => Act.entry_of_serves (has a ha)
  rw [hentered, List.reverse_nil] at hquiet
  have hretired : ∃ e ∈ added, e.retired? = some r := by
    apply Classical.byContradiction
    intro hnone
    have hpending := History.pending_append (hb.status_eq_outcome r ▸ hr)
      fun e he hretired => hnone ⟨e, he, hretired⟩
    rw [← hadded, ← hb'.status_eq_outcome, ← hstatus] at hpending
    exact hterminal hpending
  obtain ⟨e, hmem, he⟩ := hretired
  obtain ⟨t, written, rfl, ht⟩ := Event.retired?_eq_some_iff.1 he
  obtain ⟨later, earlier, rfl⟩ := List.append_of_mem hmem
  rw [List.append_assoc, List.cons_append] at hadded
  have hlater : .accepted r ∉ later := by
    intro haccepted
    have hcaller : .accepted r ∈ (later ++ .retired t written :: earlier).filter Event.byCaller :=
      List.mem_filter.2 ⟨List.mem_append_left _ haccepted, rfl⟩
    rw [hquiet] at hcaller
    cases hcaller
  obtain rfl : written = status :=
    (hb'.status_of_retired hadded ht hlater).1.symm.trans hstatus.symm
  exact ⟨later, t, earlier, hadded, ht, hquiet⟩

end Awaits

/-- With events delivered by interrupt and no timeout the ticks of a wait do nothing. A handler
that runs between two of them ends it. -/
example : ∃ b b', (Bus.create (Bench.create 0 0) Config.standard).place 1
      (Command.copying 0x20 [1, 2]) = .ok b ∧ b.wait 1 3 = none ∧ Awaits 1 b .ok b' :=
  ⟨_, _, rfl, rfl, .tick rfl [] [.event] (.done rfl)⟩

end Bus

namespace System

variable {σ : Type} [Platform σ] {s : System σ}

/-- Every wait of a run is one of these. Whatever comes between the ticks, a request that was pending
has been retired since with the status that is returned, and nothing but service has been done to
the bus. -/
theorem served_wait_returns {platform : σ} {config : Config} {xs : List Expander}
    {ms : List (Move σ)} {replies : List Reply}
    (h : (create platform config xs).run ms = some (replies, s)) (r : RequestId) :
    (∀ limit status b, s.bus.wait r limit = some (status, b) → s.bus.Awaits r status b) ∧
      ∀ status b, s.bus.Awaits r status b →
        status = (b.requests r).status ∧ status ≠ .pending ∧ s.bus.Served b ∧
        ((s.bus.requests r).status = .pending →
          ∃ later t earlier, b.history = later ++ .retired t status :: (earlier ++ s.bus.history) ∧
            t.request = r ∧
            (later ++ .retired t status :: earlier).filter Event.byCaller = []) := by
  have hs : s.bus.Coherent := coherent_run h (Bus.coherent_create platform config)
  refine ⟨fun limit status b hwait => Bus.awaits_of_wait hwait, fun status b hawaits => ?_⟩
  obtain ⟨hstatus, hterminal⟩ := hawaits.status_eq
  exact ⟨hstatus, hterminal, hawaits.served, hawaits.retired hs⟩

end System

end SharedBus
