import SharedBus.Proofs.Waiting

/-!
# The queue as a list

Whoever follows the links of a queue from its head meets the requests of a list, each once.
Pushing appends to the list, popping takes its first request off and clearing empties it, for
any sequence of these operations that pushes no request which is in the list at the time. The
links are kept in the requests themselves, so every operation also has to leave the others
unlinked: a request that has been popped or cleared away can be pushed again at once.

A bus does no more to its queue than such a sequence, since only requests that are not pending
can be armed and every request in the queue is.
-/

namespace SharedBus

namespace Queue

variable {q q' rest : Queue} {xs : List RequestId} {r : RequestId}

/-! ### What is seen of a queue -/

inductive Walk (next : RequestId → Option RequestId) : Option RequestId → List RequestId → Prop
  | stop : Walk next none []
  | step {r : RequestId} {rs : List RequestId} (more : Walk next (next r) rs) :
      Walk next (some r) (r :: rs)

/-- Requests are popped until none is left. There is always a size to count down from. -/
inductive Clears : Queue → Queue → Prop
  | done {q : Queue} (hpop : q.popFront? = none) : Clears q q
  | pop {q rest q' : Queue} {r : RequestId} (hpop : q.popFront? = some (r, rest))
      (hsize : q.size = rest.size + 1) (more : Clears rest q') : Clears q q'

/-- The queue stands for the list, and so does what comes of the next operation. -/
structure Represents (q : Queue) (xs : List RequestId) : Prop where
  walk : Walk q.next q.head xs
  nodup : xs.Nodup
  size_eq : q.size = xs.length
  tail_eq : q.tail = xs.getLast?
  last : ∀ r, q.tail = some r → q.next r = none
  head_eq_none_iff : q.head = none ↔ xs = []
  tail_eq_none_iff : q.tail = none ↔ xs = []
  unlinked : ∀ r, r ∉ xs → q.next r = none
  popFront?_eq : q.popFront? = xs.head?.map fun r => (r, q.popFront)
  size_popFront : xs ≠ [] → q.size = q.popFront.size + 1
  clears : q.Clears q.clear
  clear_eq : q.clear = empty

namespace Chains

theorem next_eq_head? {front : List RequestId} (h : q.Chains (front ++ r :: xs)) :
    q.next r = xs.head? := by
  rw [h.next_eq, successor_append_cons h.nodup]

/-- The walk from any place in the list goes through what is left of it. -/
theorem walk_from (front : List RequestId) (h : q.Chains (front ++ xs)) :
    Walk q.next xs.head? xs := by
  induction xs generalizing front with
  | nil => exact .stop
  | cons r xs ih =>
    refine .step ?_
    rw [h.next_eq_head?]
    refine ih (front ++ [r]) ?_
    rwa [List.append_assoc, List.singleton_append]

theorem next_last (h : q.Chains xs) (hr : q.tail = some r) : q.next r = none := by
  rw [h.tail_eq] at hr
  obtain ⟨front, rfl⟩ := List.getLast?_eq_some_iff.1 hr
  rw [h.next_eq_head?, List.head?_nil]

theorem popFront?_eq (h : q.Chains xs) :
    q.popFront? = xs.head?.map fun r => (r, q.popFront) := by
  cases xs with
  | nil => rw [h.popFront?_nil, List.head?_nil, Option.map_none]
  | cons r xs =>
    obtain ⟨rest, hpop, -⟩ := h.popFront?_cons
    rw [Queue.popFront, hpop, List.head?_cons, Option.map_some]

theorem size_popFront (h : q.Chains (r :: xs)) : q.size = q.popFront.size + 1 := by
  rw [h.size_eq, h.popFront.size_eq, List.tail_cons, List.length_cons]

/-- Every pop takes one request off the list, so that the loop ends with the list. -/
theorem clears_drop (h : q.Chains xs) : q.Clears (q.drop xs.length) := by
  induction xs generalizing q with
  | nil => exact .done h.popFront?_nil
  | cons r xs ih =>
    have hrest : q.popFront.Chains xs := h.popFront
    have hpop : q.popFront? = some (r, q.popFront) := h.popFront?_eq
    rw [List.length_cons, Queue.drop, hpop]
    exact .pop hpop h.size_popFront (ih hrest)

theorem eq_empty (h : q.Chains []) : q = empty := by
  obtain ⟨head, tail, size, next⟩ := q
  obtain rfl : head = none := h.head_eq
  obtain rfl : tail = none := h.tail_eq
  obtain rfl : size = 0 := h.size_eq
  obtain rfl : next = fun _ => none := funext h.next_eq
  rfl

theorem represents (h : q.Chains xs) : q.Represents xs where
  walk := h.head_eq ▸ h.walk_from []
  nodup := h.nodup
  size_eq := h.size_eq
  tail_eq := h.tail_eq
  last _ hr := h.next_last hr
  head_eq_none_iff := by rw [h.head_eq, List.head?_eq_none_iff]
  tail_eq_none_iff := by rw [h.tail_eq, List.getLast?_eq_none_iff]
  unlinked _ hr := h.next_eq_none hr
  popFront?_eq := h.popFront?_eq
  size_popFront hne := by
    obtain ⟨r, ys, rfl⟩ := List.exists_cons_of_ne_nil hne
    exact h.size_popFront
  clears := by
    rw [Queue.clear, h.size_eq]
    exact h.clears_drop
  clear_eq := h.clear.eq_empty

end Chains

/-! ### Sequences of operations -/

inductive Op where
  | pushBack (r : RequestId)
  | popFront
  | clear
  deriving DecidableEq, Repr

namespace Op

def onQueue (q : Queue) : Op → Queue
  | .pushBack r => q.pushBack r
  | .popFront => q.popFront
  | .clear => q.clear

def onList (xs : List RequestId) : Op → List RequestId
  | .pushBack r => xs ++ [r]
  | .popFront => xs.tail
  | .clear => []

def Allowed (xs : List RequestId) : Op → Prop
  | .pushBack r => r ∉ xs
  | .popFront | .clear => True

instance (xs : List RequestId) : (op : Op) → Decidable (op.Allowed xs)
  | .pushBack r => inferInstanceAs (Decidable (r ∉ xs))
  | .popFront | .clear => inferInstanceAs (Decidable True)

end Op

def Admissible (xs : List RequestId) : List Op → Prop
  | [] => True
  | op :: ops => op.Allowed xs ∧ Admissible (op.onList xs) ops

instance Admissible.decidable : (xs : List RequestId) → (ops : List Op) →
    Decidable (Admissible xs ops)
  | _, [] => inferInstanceAs (Decidable True)
  | xs, op :: ops =>
    have := decidable (op.onList xs) ops
    inferInstanceAs (Decidable (op.Allowed xs ∧ Admissible (op.onList xs) ops))

def after (q : Queue) (ops : List Op) : Queue := ops.foldl Op.onQueue q

def listed (xs : List RequestId) (ops : List Op) : List RequestId := ops.foldl Op.onList xs

theorem admissible_append {ops ops' : List Op} :
    Admissible xs (ops ++ ops') ↔ Admissible xs ops ∧ Admissible (listed xs ops) ops' := by
  induction ops generalizing xs with
  | nil => exact (iff_of_eq (true_and _)).symm
  | cons op ops ih => exact (and_congr_right' ih).trans and_assoc.symm

namespace Chains

theorem onQueue (h : q.Chains xs) {op : Op} (hop : op.Allowed xs) :
    (op.onQueue q).Chains (op.onList xs) := by
  cases op with
  | pushBack r => exact h.pushBack hop
  | popFront => exact h.popFront
  | clear => exact h.clear

theorem after (h : q.Chains xs) {ops : List Op} (hops : Admissible xs ops) :
    (q.after ops).Chains (listed xs ops) := by
  induction ops generalizing q xs with
  | nil => exact h
  | cons op ops ih => exact ih (h.onQueue hops.1) hops.2

end Chains

end Queue

/-! ### The queue of a bus -/

namespace Bus

variable {σ : Type} {b b' : Bus σ} {r : RequestId}

theorem queue_retireActive {t : Transfer} (ht : b.active = some t) (status : Option Status) :
    (b.retireActive status).queue = b.queue.popFront := by
  rw [b.retireActive_of_active ht]

/-- Only a request that is not pending can be armed, and every one in the queue is. -/
theorem Coherent.not_mem_of_arm (h : b.Coherent) (ha : b.arm r = .ok b') :
    r ∉ b.queue.toList := by
  by_cases hr : (b.requests r).status = .pending
  · rw [arm_of_pending hr] at ha
    cases ha
  · rw [h.toList_eq]
    exact h.not_mem_waiting hr

/-- The queue is what operations have made of the empty one, each allowed when it was made. To
queue a request that can be armed is allowed next. -/
def Builds (b : Bus σ) : Prop :=
  ∃ ops, Queue.Admissible [] ops ∧ b.queue = Queue.empty.after ops ∧
    ∀ r b', b.arm r = .ok b' → Queue.Admissible [] (ops ++ [.pushBack r])

variable [Platform σ]

theorem queue_reclaimed {t : Transfer} (ht : b.active = some t) :
    b.reclaimed.queue = b.queue.popFront :=
  queue_retireActive ht (some .timeout)

namespace Coherent

/-- An act does nothing to the queue or makes one operation on it that is allowed. -/
theorem queue_act (h : b.Coherent) {a : Act σ} (ha : b.act a = .ok b') :
    ∃ ops, Queue.Admissible b.queue.toList ops ∧ b'.queue = b.queue.after ops := by
  cases a with
  | shift | setClock | setTimeout | poll =>
    cases ha
    exact ⟨[], trivial, rfl⟩
  | handleEvent =>
    cases ha
    cases ht : b.active with
    | none =>
      rw [b.handleEvent_of_free ht]
      exact ⟨[], trivial, rfl⟩
    | some t =>
      rw [b.handleEvent_of_active ht]
      split
      · exact ⟨[], trivial, rfl⟩
      · rw [queue_startNext]
        exact ⟨[.popFront], ⟨trivial, trivial⟩, queue_retireActive rfl none⟩
  | checkTimeout =>
    cases ha
    rcases b.checkTimeout_cases with ⟨-, he⟩ | ⟨-, he, -⟩ | ⟨t, -, ht, -, he⟩
    · rw [he]
      exact ⟨[], trivial, rfl⟩
    · rw [he]
      exact ⟨[], trivial, rfl⟩
    · have hstarted : b.readClock.2.recover.queue = b.readClock.2.reclaimed.queue :=
        queue_startNext _
      rw [he, hstarted]
      exact ⟨[.popFront], ⟨trivial, trivial⟩, queue_reclaimed (b := b.readClock.2) ht⟩
  | bringUp =>
    cases ha
    exact ⟨[.clear], ⟨trivial, trivial⟩, rfl⟩
  | shutDown =>
    obtain ⟨-, rfl⟩ := act_shutDown ha
    exact ⟨[], trivial, rfl⟩
  | configure r c =>
    obtain ⟨-, rfl⟩ := act_configure ha
    exact ⟨[], trivial, rfl⟩
  | submit r =>
    obtain ⟨hr, rfl⟩ := act_submit ha
    have hout := h.not_mem_waiting hr
    refine ⟨[.pushBack r], ⟨h.toList_eq ▸ hout, trivial⟩, ?_⟩
    rw [queue_startNext]
    change (b.queue.link r none).pushBack r = b.queue.pushBack r
    rw [h.chains.link_none hout]

omit [Platform σ] in
theorem builds (h : b.Coherent) (ops : List Queue.Op) (hops : Queue.Admissible [] ops)
    (hqueue : b.queue = Queue.empty.after ops) : b.Builds := by
  refine ⟨ops, hops, hqueue, fun r b' ha => Queue.admissible_append.2 ⟨hops, ?_, trivial⟩⟩
  have hlisted := (Queue.chains_empty.after hops).toList_eq
  rw [← hlisted, ← hqueue]
  exact h.not_mem_of_arm ha

theorem builds_act (h : b.Coherent) (hb : b.Builds) {a : Act σ} (ha : b.act a = .ok b') :
    b'.Builds := by
  obtain ⟨ops, hops, hqueue, -⟩ := hb
  obtain ⟨more, hmore, hafter⟩ := h.queue_act ha
  rw [hqueue, (Queue.chains_empty.after hops).toList_eq] at hmore
  refine (h.act ha).builds (ops ++ more) (Queue.admissible_append.2 ⟨hops, hmore⟩) ?_
  rw [hafter, hqueue, Queue.after, Queue.after, Queue.after, List.foldl_append]

end Coherent

end Bus

namespace System

variable {σ : Type} [Platform σ] {s : System σ} {ms : List (Move σ)} {replies : List Reply}

theorem builds_run (platform : σ) (config : Config) (xs : List Expander)
    (h : (create platform config xs).run ms = some (replies, s)) {as : List (Act σ)} {b : Bus σ}
    (hpath : s.bus.Path as b) : b.Builds := by
  have hcreated := Bus.coherent_create platform config
  obtain ⟨as₀, hpath₀⟩ := path_run h
  exact (hpath₀.trans hpath).keeps hcreated (fun _ _ _ hb hbuilds ha => hb.builds_act hbuilds ha)
    (hcreated.builds [] trivial rfl)

/-- A queue stands for a list through any sequence of operations that pushes no request which is
in the list. A bus makes no others, so that its queue stands for one in every state that a run
leads to, after or within a call. -/
theorem queues_as_listed :
    (∀ ops, Queue.Admissible [] ops →
      (Queue.empty.after ops).Represents (Queue.listed [] ops)) ∧
    ∀ (platform : σ) (config : Config) (xs : List Expander) (ms : List (Move σ))
      (replies : List Reply) (s : System σ),
      (create platform config xs).run ms = some (replies, s) →
      ∀ (as : List (Act σ)) (b : Bus σ), s.bus.Path as b →
        b.Builds ∧ b.queue.Represents b.queue.toList := by
  refine ⟨fun ops hops => (Queue.chains_empty.after hops).represents,
    fun platform config xs ms replies s h as b hpath => ⟨builds_run platform config xs h hpath, ?_⟩⟩
  have hb := hpath.coherent (coherent_run h (Bus.coherent_create platform config))
  rw [hb.toList_eq]
  exact hb.chains.represents

/-- The same requests are pushed again after they have been popped and after they have been cleared
away, and popping goes on past the end. -/
theorem queues_as_listed_reused :
    (Queue.empty.after [.pushBack 1, .pushBack 2, .popFront, .pushBack 1, .clear, .pushBack 1,
      .popFront, .popFront, .pushBack 2, .pushBack 1]).Represents [2, 1] ∧
    ∃ s, (create (Bench.create 0 1) Config.standard []).run
        [.call 0 (.submit 1), .call 0 (.submit 2), .call 0 .handleEvent, .call 0 (.submit 1),
          .call 0 .bringUp, .call 0 (.submit 3)] = some ([.ok, .ok, .done, .ok, .done, .ok], s) ∧
      s.bus.Builds ∧ s.bus.queue.Represents [3] := by
  have hrun : ∃ s, (create (Bench.create 0 1) Config.standard []).run
        [.call 0 (.submit 1), .call 0 (.submit 2), .call 0 .handleEvent, .call 0 (.submit 1),
          .call 0 .bringUp, .call 0 (.submit 3)] = some ([.ok, .ok, .done, .ok, .done, .ok], s) ∧
      s.bus.queue.toList = [3] := ⟨_, rfl, rfl⟩
  obtain ⟨s, hrun, hqueue⟩ := hrun
  obtain ⟨hlists, hbuilds⟩ := queues_as_listed (σ := Bench)
  have hbus := hbuilds _ _ _ _ _ _ hrun [] s.bus (.nil s.bus)
  exact ⟨hlists _ (by decide), s, hrun, hqueue ▸ hbus⟩

end System

end SharedBus
