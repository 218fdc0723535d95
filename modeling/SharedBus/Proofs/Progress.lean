import SharedBus.Proofs.ServiceOrder

/-!
# The progress of a transfer

However many events a transfer takes, what the hardware does to it adds up to one list
of actions. The transfer in flight is the one begun last with these actions performed
on it, and the answers of all events are the answers to them.
-/

namespace SharedBus

namespace Transfer

/-- The clock has no part in what the hardware is answered. -/
theorem answers_stamp (t : Transfer) (now : Ticks) (actions : List Action) :
    (t.stamp now).answers actions = t.answers actions := by
  induction actions generalizing t with
  | nil => rfl
  | cons a actions ih => rw [answers, answers, perform_stamp, ih]

/-- Each answer is given to one action, on the transfer as the actions before have left it. -/
theorem answers_eq_append {t : Transfer} {actions : List Action} {front rest : List Answer}
    {answer : Answer} (h : t.answers actions = front ++ answer :: rest) :
    ∃ before a after, actions = before ++ a :: after ∧ front = t.answers before ∧
      answer = ((t.advance before).perform a).1 ∧
      rest = (t.advance (before ++ [a])).answers after := by
  induction actions generalizing t front with
  | nil => cases front <;> cases h
  | cons a actions ih =>
    cases front with
    | nil =>
      obtain ⟨rfl, rfl⟩ := List.cons.inj h
      exact ⟨[], a, actions, rfl, rfl, rfl, rfl⟩
    | cons x front =>
      obtain ⟨rfl, hrest⟩ := List.cons.inj h
      obtain ⟨before, a', after, rfl, rfl, hanswer, hafter⟩ := ih hrest
      exact ⟨a :: before, a', after, rfl, rfl, hanswer, hafter⟩

end Transfer

namespace History

/-- All that the hardware has done to the transfer begun last, in order. -/
def actions : History → List Action
  | [] => []
  | .begun _ :: _ => []
  | .serviced _ performed _ :: h => actions h ++ performed
  | _ :: h => actions h

def answers : History → List Answer
  | [] => []
  | .begun _ :: _ => []
  | .serviced t performed _ :: h => answers h ++ t.answers performed
  | _ :: h => answers h

variable {t : Transfer} {since h : History}

/-- Since `t` was begun, its events amount to the actions performed on it. -/
theorem Lawful.progress (hl : Lawful (since ++ .begun t :: h))
    (hsince : ∀ e ∈ since, e.begun? = none) :
    answers (since ++ .begun t :: h) = t.answers (actions (since ++ .begun t :: h)) ∧
      ∀ u, (ledger (since ++ .begun t :: h)).flight = some u →
        u = t.advance (actions (since ++ .begun t :: h)) := by
  induction since with
  | nil =>
    refine ⟨rfl, fun u hu => ?_⟩
    exact (Option.some.inj hu).symm
  | cons e since ih =>
    obtain ⟨he, hsince⟩ := List.forall_mem_cons.1 hsince
    obtain ⟨hanswers, hflight⟩ := ih hl.2 hsince
    cases e with
    | begun => cases he
    | serviced u performed u' =>
      obtain ⟨hu, -, rfl⟩ := hl.1
      have hprogress := hflight _ hu
      refine ⟨?_, fun v hv => ?_⟩
      · change answers (since ++ .begun t :: h) ++ u.answers performed =
          t.answers (actions (since ++ .begun t :: h) ++ performed)
        rw [Transfer.answers_append, ← hprogress, Transfer.answers_stamp, hanswers]
      · obtain rfl : (u.advance performed).stamp 0 = v := Option.some.inj hv
        change _ = t.advance (actions (since ++ .begun t :: h) ++ performed)
        rw [Transfer.advance_append, ← hprogress, Transfer.stamp_advance]
    | retired | broughtUp => exact ⟨hanswers, fun u hu => by cases hu⟩
    | reset | clockSet | closed | shutDown | configured | accepted | recovered | polled =>
      exact ⟨hanswers, hflight⟩

/-- A transfer that has left the bus is not serviced any more. -/
theorem Lawful.answers_append (hl : Lawful (since ++ h)) (hfree : (ledger h).flight = none)
    (hsince : ∀ e ∈ since, e.begun? = none) :
    (ledger (since ++ h)).flight = none ∧ actions (since ++ h) = actions h ∧
      answers (since ++ h) = answers h := by
  induction since with
  | nil => exact ⟨hfree, rfl, rfl⟩
  | cons e since ih =>
    obtain ⟨he, hsince⟩ := List.forall_mem_cons.1 hsince
    obtain ⟨hflight, hsame⟩ := ih hl.2 hsince
    cases e with
    | begun => cases he
    | serviced u performed u' =>
      obtain ⟨hu, -⟩ := hl.1
      cases hflight.symm.trans hu
    | retired | broughtUp => exact ⟨rfl, hsame⟩
    | reset | clockSet | closed | shutDown | configured | accepted | recovered | polled =>
      exact ⟨hflight, hsame⟩

end History

end SharedBus
