import SharedBus.Queue

/-!
# The chain as a list

A queue chains the requests of a list when its ends are the ends of the list, its
size is the length, and every request points at the one behind it in the list:
those outside the list, and the last one, point nowhere. Pushing appends to the
list, popping takes its first request off, and clearing empties it.
-/

namespace SharedBus.Queue

def successor : List RequestId → RequestId → Option RequestId
  | [], _ => none
  | x :: xs, r => if r = x then xs.head? else successor xs r

theorem successor_of_not_mem {xs : List RequestId} {r : RequestId} (h : r ∉ xs) :
    successor xs r = none := by
  induction xs with
  | nil => rfl
  | cons x xs ih =>
    rw [List.mem_cons, not_or] at h
    rw [successor, if_neg h.1, ih h.2]

theorem successor_append {front xs : List RequestId} {r : RequestId} (h : r ∉ front) :
    successor (front ++ xs) r = successor xs r := by
  induction front with
  | nil => rfl
  | cons x front ih =>
    rw [List.mem_cons, not_or] at h
    rw [List.cons_append, successor, if_neg h.1, ih h.2]

/-- Appending `r` changes where the last request and `r` itself point. -/
theorem successor_append_singleton {xs : List RequestId} {r : RequestId} (hxs : xs.Nodup)
    (hr : r ∉ xs) (s : RequestId) :
    successor (xs ++ [r]) s = if xs.getLast? = some s then some r else successor xs s := by
  induction xs with
  | nil => simp [successor]
  | cons x xs ih =>
    rw [List.nodup_cons] at hxs
    rw [List.mem_cons, not_or] at hr
    by_cases hs : s = x
    · subst s
      cases xs with
      | nil => simp [successor]
      | cons y ys =>
        have hlast : (x :: y :: ys).getLast? ≠ some x := by
          intro h
          rw [List.getLast?_cons_cons] at h
          exact hxs.1 (List.mem_of_getLast? h)
        rw [if_neg hlast]
        simp [successor]
    · have hstep := ih hxs.2 hr.2
      rw [List.cons_append, successor, if_neg hs, hstep, successor, if_neg hs]
      cases xs with
      | nil => simp [successor, Ne.symm hs]
      | cons y ys => rw [List.getLast?_cons_cons]

/-- `q` links up exactly the requests in `xs`, in this order. -/
structure Chains (q : Queue) (xs : List RequestId) : Prop where
  head_eq : q.head = xs.head?
  tail_eq : q.tail = xs.getLast?
  size_eq : q.size = xs.length
  next_eq : ∀ r, q.next r = successor xs r
  nodup : xs.Nodup

theorem successor_append_cons {front xs : List RequestId} {r : RequestId}
    (h : (front ++ r :: xs).Nodup) : successor (front ++ r :: xs) r = xs.head? := by
  have hr : r ∉ front := fun hmem =>
    (List.nodup_append.1 h).2.2 r hmem r List.mem_cons_self rfl
  rw [successor_append hr, successor, if_pos rfl]

theorem follow_successor {front xs : List RequestId} (h : (front ++ xs).Nodup) :
    follow (successor (front ++ xs)) xs.length xs.head? = xs := by
  induction xs generalizing front with
  | nil => rfl
  | cons x xs ih =>
    have hshift : front ++ x :: xs = (front ++ [x]) ++ xs := by
      rw [List.append_assoc, List.singleton_append]
    rw [List.length_cons, List.head?_cons, follow, successor_append_cons h, hshift,
      ih (hshift ▸ h)]

theorem chains_empty : empty.Chains [] :=
  ⟨rfl, rfl, rfl, fun _ => rfl, List.nodup_nil⟩

namespace Chains

variable {q : Queue} {xs : List RequestId} {r : RequestId}

theorem toList_eq (h : q.Chains xs) : q.toList = xs := by
  have hnext : q.next = successor xs := funext h.next_eq
  rw [toList, h.head_eq, h.size_eq, hnext]
  exact @follow_successor [] xs h.nodup

theorem next_eq_none (h : q.Chains xs) (hr : r ∉ xs) : q.next r = none := by
  rw [h.next_eq, successor_of_not_mem hr]

/-- A request outside the chain points nowhere already. -/
theorem link_none (h : q.Chains xs) (hr : r ∉ xs) : q.link r none = q := by
  have hnext : (fun s => if s = r then none else q.next s) = q.next := by
    funext s
    by_cases hs : s = r
    · rw [if_pos hs, hs, h.next_eq_none hr]
    · rw [if_neg hs]
  rw [link, hnext]

theorem pushBack (h : q.Chains xs) (hr : r ∉ xs) : (q.pushBack r).Chains (xs ++ [r]) := by
  have hnodup : (xs ++ [r]).Nodup := by
    rw [List.nodup_append]
    refine ⟨h.nodup, by simp, ?_⟩
    intro x hx y hy
    rw [List.mem_singleton.1 hy]
    rintro rfl
    exact hr hx
  have hlast : (xs ++ [r]).getLast? = some r := List.getLast?_concat
  have hnext (s : RequestId) := successor_append_singleton h.nodup hr s
  rw [Queue.pushBack, h.link_none hr]
  cases htail : xs.getLast? with
  | none =>
    obtain rfl := List.getLast?_eq_none_iff.1 htail
    simp only [h.tail_eq, htail]
    refine ⟨rfl, hlast.symm, by rw [h.size_eq]; rfl, fun s => ?_, hnodup⟩
    rw [hnext s, htail, if_neg (by simp)]
    exact h.next_eq s
  | some last =>
    simp only [h.tail_eq, htail]
    have hhead : (xs ++ [r]).head? = xs.head? := by
      cases xs with
      | nil => simp at htail
      | cons x xs => rfl
    refine ⟨h.head_eq.trans hhead.symm, hlast.symm, ?_, fun s => ?_, hnodup⟩
    · simp [link, h.size_eq]
    · rw [hnext s, htail]
      by_cases hs : s = last
      · simp [link, hs]
      · simp [link, hs, Ne.symm hs, h.next_eq s]

theorem popFront?_cons (h : q.Chains (r :: xs)) :
    ∃ rest, q.popFront? = some (r, rest) ∧ rest.Chains xs := by
  obtain ⟨hr, hxs⟩ := List.nodup_cons.1 h.nodup
  have hnext : q.next r = xs.head? := by rw [h.next_eq, successor, if_pos rfl]
  have hhead : q.head = some r := h.head_eq
  refine ⟨_, by rw [popFront?, hhead], hnext, ?_, ?_, fun s => ?_, hxs⟩
  · cases xs with
    | nil => simp [hnext]
    | cons y ys => simp [hnext, h.tail_eq, List.getLast?_cons_cons]
  · simp [h.size_eq]
  · by_cases hs : s = r
    · simp [link, hs, successor_of_not_mem hr]
    · simp [link, hs, h.next_eq s, successor]

theorem popFront?_nil (h : q.Chains []) : q.popFront? = none := by
  rw [popFront?, h.head_eq, List.head?_nil]

theorem popFront (h : q.Chains xs) : q.popFront.Chains xs.tail := by
  cases xs with
  | nil =>
    rw [Queue.popFront, h.popFront?_nil]
    exact h
  | cons x xs =>
    obtain ⟨rest, hpop, hrest⟩ := h.popFront?_cons
    rw [Queue.popFront, hpop]
    exact hrest

theorem drop (h : q.Chains xs) (n : Nat) : (q.drop n).Chains (xs.drop n) := by
  induction n generalizing q xs with
  | zero => exact h
  | succ n ih =>
    cases xs with
    | nil =>
      rw [Queue.drop, h.popFront?_nil]
      exact h
    | cons x xs =>
      obtain ⟨rest, hpop, hrest⟩ := h.popFront?_cons
      rw [Queue.drop, hpop]
      exact ih hrest

theorem clear (h : q.Chains xs) : q.clear.Chains [] := by
  have hdrop := h.drop q.size
  rw [h.size_eq, List.drop_length] at hdrop
  rwa [Queue.clear, h.size_eq]

end Chains

end SharedBus.Queue
