import SharedBus.Proofs.Waking

/-!
# Polls in two halves

A poll registers its listener first and looks for an outcome afterwards, and in between anything
may happen: events are handled, other requests are polled, in whole or in part. From the moment
it is registered each retirement of the request wakes the listener, until another one takes its
place. So no retirement is missed. What comes before the look is found by it, unless the request
was submitted again, and what comes after it wakes the listener once more.
-/

namespace SharedBus

namespace History

variable {r : RequestId} {m : ListenerId}

def timesRetired (r : RequestId) : History → Nat
  | [] => 0
  | e :: h => timesRetired r h + if e.retired? = some r then 1 else 0

theorem timesRetired_eq_zero_iff {h : History} :
    timesRetired r h = 0 ↔ ∀ e ∈ h, e.retired? ≠ some r := by
  induction h with
  | nil => simp [timesRetired]
  | cons e h ih =>
    rw [timesRetired, Nat.add_eq_zero_iff, ih, List.forall_mem_cons, and_comm]
    simp

/-- While nobody else polls, each retirement counts for the last to have polled. -/
theorem wakings_append_of_alone {added h : History} (hadded : ∀ l, .polled r l ∈ added → l = m)
    (hm : poller r h = some m) :
    wakings r m (added ++ h) = wakings r m h + timesRetired r added := by
  induction added with
  | nil => rfl
  | cons e added ih =>
    have hrest : ∀ l, .polled r l ∈ added → l = m :=
      fun l hl => hadded l (List.mem_cons_of_mem _ hl)
    have hpoller : poller r (added ++ h) = some m := poller_append_of_alone hrest hm
    rw [List.cons_append, wakings, ih hrest, timesRetired, ← Nat.add_assoc]
    simp only [hpoller, and_true]

end History

namespace Bus

variable {σ : Type} {b b' : Bus σ} {r : RequestId} {m : ListenerId}

structure Attends (b : Bus σ) (m : ListenerId) (r : RequestId) : Prop where
  poller_eq : History.poller r b.history = some m
  polled_only : ∀ r', .polled r' m ∈ b.history → r' = r

/-- Where these acts poll `r` it is for `m`, and where they poll for `m` it is `r`. -/
def Exclusive (r : RequestId) (m : ListenerId) (as : List (Act σ)) : Prop :=
  ∀ r' l, .poll r' l ∈ as → (r' = r ↔ l = m)

theorem attends_listen (hm : ∀ r', .polled r' m ∈ b.history → r' = r) :
    (b.listen r m).Attends m r where
  poller_eq := if_pos rfl
  polled_only r' hmem := by
    rw [history_listen, List.mem_cons] at hmem
    rcases hmem with he | hmem
    · cases he
      rfl
    · exact hm r' hmem

theorem Coherent.listen (h : b.Coherent) (r : RequestId) (m : ListenerId) :
    (b.listen r m).Coherent := h.poll r m

/-- Who looks after a retirement finds what it has written, unless `r` was submitted again. -/
theorem Coherent.outcome?_of_retired (h : b.Coherent) {later earlier : History} {t : Transfer}
    {status : Status} (hhistory : b.history = later ++ .retired t status :: earlier)
    (ht : t.request = r) (hlater : .accepted r ∉ later) : b.outcome? r = some status := by
  obtain ⟨hstatus, hterminal⟩ := h.status_of_retired hhistory ht hlater
  rw [outcome?_of_idle (hstatus ▸ hterminal), hstatus]

theorem Coherent.outcome?_of_unretired (h : b.Coherent) (hb' : b'.Coherent) {since : History}
    (hhistory : b'.history = since ++ b.history) (hr : b.outcome? r = none)
    (hsince : History.timesRetired r since = 0) : b'.outcome? r = none := by
  rw [outcome?_eq_none_iff, h.status_eq_outcome] at hr
  rw [outcome?_eq_none_iff, hb'.status_eq_outcome, hhistory]
  exact History.pending_append hr (History.timesRetired_eq_zero_iff.1 hsince)

variable [Platform σ]

/-- On a path on which nobody else polls, each retirement wakes the listener once. -/
theorem Attends.wakes_path (hm : b.Attends m r) (h : b.Coherent) {as : List (Act σ)}
    (hpath : b.Path as b') (has : Exclusive r m as) :
    b'.Attends m r ∧ ∃ since, b'.history = since ++ b.history ∧
      b'.wakes m = b.wakes m + History.timesRetired r since := by
  obtain ⟨since, hsince, hpolled⟩ := hpath.history_polled
  have halone : ∀ l, .polled r l ∈ since → l = m :=
    fun l hl => (has r l (hpolled r l hl)).1 rfl
  have honly : ∀ r', .polled r' m ∈ b'.history → r' = r := by
    intro r' hmem
    rw [hsince, List.mem_append] at hmem
    rcases hmem with hmem | hmem
    · exact (has r' m (hpolled r' m hmem)).2 rfl
    · exact hm.polled_only r' hmem
  have hpoller : History.poller r b'.history = some m := by
    rw [hsince]
    exact History.poller_append_of_alone halone hm.poller_eq
  refine ⟨⟨hpoller, honly⟩, since, hsince, ?_⟩
  rw [(hpath.coherent h).wakes_eq_wakings honly, hsince,
    History.wakings_append_of_alone halone hm.poller_eq, ← h.wakes_eq_wakings hm.polled_only]

end Bus

namespace System

variable {σ : Type} [Platform σ] {s : System σ} {r : RequestId} {m : Nat}

/-- The completion at `m` registers in `s` and looks in `b`. Each retirement in between has woken
it. If the last one was not followed by a submission, the look finds the status it has written, and
if there was none, a request that was pending still is. Each retirement from then on wakes the
completion as well. -/
theorem no_retirement_missed {platform : σ} {config : Config} {xs : List Expander}
    {ms : List (Move σ)} {replies : List Reply}
    (h : (create platform config xs).run ms = some (replies, s))
    (hm : s.completions[m]?.map Completion.request = some r) {as : List (Act σ)} {b : Bus σ}
    (hpath : (s.bus.listen r m).Path as b) (has : Bus.Exclusive r m as) :
    ∃ since, b.history = since ++ (s.bus.listen r m).history ∧
      b.wakes m = s.bus.wakes m + History.timesRetired r since ∧
      (∀ later t status earlier, since = later ++ .retired t status :: earlier → t.request = r →
        .accepted r ∉ later → b.outcome? r = some status) ∧
      (History.timesRetired r since = 0 → s.bus.outcome? r = none → b.outcome? r = none) ∧
      ∀ as' b', b.Path as' b' → Bus.Exclusive r m as' →
        ∃ after, b'.history = after ++ b.history ∧
          b'.wakes m = b.wakes m + History.timesRetired r after := by
  have hcreated := Bus.coherent_create platform config
  have hs : s.bus.Coherent := coherent_run h hcreated
  have hears : s.Hears := hears_run h (hears_create platform config xs)
  have honly : ∀ r', .polled r' m ∈ s.bus.history → r' = r := fun _ hmem =>
    hears.eq_of_polled hm hmem
  have hregistered : (s.bus.listen r m).Coherent := hs.listen r m
  have hb : b.Coherent := hpath.coherent hregistered
  obtain ⟨hattends, since, hsince, hwoken⟩ :=
    (Bus.attends_listen honly).wakes_path hregistered hpath has
  refine ⟨since, hsince, hwoken, ?_, fun hnone hpending => ?_, fun as' b' hpath' has' => ?_⟩
  · rintro later t status earlier rfl ht hlater
    rw [List.append_assoc, List.cons_append] at hsince
    exact hb.outcome?_of_retired hsince ht hlater
  · have hlooked := s.bus.outcome?_listen r r m
    exact hregistered.outcome?_of_unretired hb hsince (hlooked.trans hpending) hnone
  · exact (hattends.wakes_path hb hpath' has').2

/-- The order matters: who looks first and registers after the retirement is not woken by it. -/
example : ∃ b, (Bus.create (Bench.create 0 0) Config.standard).place 1
      (Command.copying 0x20 [1]) = .ok b ∧ b.outcome? 1 = none ∧
      (b.listen 1 0).handleEvent.wakes 0 = 1 ∧ (b.handleEvent.listen 1 0).wakes 0 = 0 :=
  ⟨_, rfl, rfl, rfl, rfl⟩

end System

end SharedBus
