import Mathlib.Data.List.Infix
import SharedBus.Proofs.Polling
import SharedBus.Proofs.Timeless

/-!
# Translation in time

A run can be moved to a later time: the clock starts so much later, and wherever it is set it is
set so much later. As long as neither clock is stopped at its end, the later run is answered the
same and ends as the earlier one does, with the time and the stamps later by as much. What the bus
does depends on the time that has passed, not on the hour, even when the clock is moved back.
-/

namespace SharedBus

namespace Ticks

/-- A clock that is later by `d` has not come past the last instant. Nothing is asked when it is not
later at all. -/
def Room (d t : Ticks) : Prop := d = 0 ∨ t + d ≤ last

variable {d t a : Ticks}

/-- There is room after an addition if and only if neither clock was stopped by it. -/
theorem room_after_iff (hd : d ≠ 0) : Room d (t.after a) ↔ t + a ≤ last ∧ t + d + a ≤ last := by
  have hsums (d t a latest : Nat) (hd : d ≠ 0) :
      min (t + a) latest + d ≤ latest ↔ t + a ≤ latest ∧ t + d + a ≤ latest := by omega
  rw [Room, or_iff_right hd]
  exact hsums d t a last hd

theorem Room.of_after (h : Room d (t.after a)) : Room d t := by
  by_cases hd : d = 0
  · exact .inl hd
  · obtain ⟨-, hlater⟩ := (room_after_iff hd).1 h
    exact .inr (Nat.le_of_add_right_le hlater)

theorem after_add (h : Room d (t.after a)) : (t + d).after a = t.after a + d := by
  by_cases hd : d = 0
  · rw [hd, Nat.add_zero, Nat.add_zero]
  · obtain ⟨hfirst, hlater⟩ := (room_after_iff hd).1 h
    rw [after_eq_add hfirst, after_eq_add hlater, Nat.add_right_comm]

/-- What lies between two instants does not change when both are moved. -/
theorem since_add_add (now start d : Ticks) : (now + d).since (start + d) = now.since start :=
  Nat.add_sub_add_right now d start

end Ticks

def Instruction.moves (t : Ticks) : Instruction → Ticks
  | .spend d => t.after d
  | .send _ | .receive _ | .complete _ | .finish => t

def Ticks.through (t : Ticks) (round : Round) : Ticks := round.foldl Instruction.moves t

namespace Ticks

variable {d t : Ticks} {round : Round}

theorem Room.of_through (h : Room d (t.through round)) : Room d t := by
  induction round generalizing t with
  | nil => exact h
  | cons i round ih =>
    have hrest : Room d (i.moves t) := ih h
    cases i with
    | spend => exact hrest.of_after
    | send | receive | complete | finish => exact hrest

theorem through_add (h : Room d (t.through round)) :
    (t + d).through round = t.through round + d := by
  induction round generalizing t with
  | nil => rfl
  | cons i round ih =>
    have hmoved : i.moves (t + d) = i.moves t + d := by
      cases i with
      | spend => exact after_add (Room.of_through h)
      | send | receive | complete | finish => rfl
    have hrest := ih h
    rwa [← hmoved] at hrest

end Ticks

namespace Bench

/-- A round changes the clock and the supply, and nothing else. -/
theorem play_eq (h : Bench) (t : Transfer) (round : Round) : (h.play t round).2.2 =
    { h with time := h.time.through round, supply := (h.play t round).2.2.supply } := by
  induction round generalizing h t with
  | nil => rfl
  | cons i round ih =>
    have hrest := ih (h.carryOut t i) (t.advance (i.actions h.supply t))
    cases i <;> exact hrest

section Advance

variable (h : Bench) (t : Transfer)

theorem time_advance :
    (Bench.advance t h).2.time = h.time.through (h.nextRound t.command.address) :=
  congrArg Bench.time (play_eq ..)

theorem step_advance : (Bench.advance t h).2.step = h.step := by
  have hplay := (h.dropRound t.command.address).play_eq t (h.nextRound t.command.address)
  have hstep := congrArg Bench.step hplay
  exact hstep

theorem startCost_advance : (Bench.advance t h).2.startCost = h.startCost := by
  have hplay := (h.dropRound t.command.address).play_eq t (h.nextRound t.command.address)
  have hcost := congrArg Bench.startCost hplay
  exact hcost

end Advance

/-- Two benches of which the second one shows a time later by `d`. The stamps that are recorded are
later by `d` as well, and nothing else differs. -/
structure Later (d : Ticks) (h h' : Bench) : Prop
    extends h.Matches (fun now now' => now' = now + d) h' where
  time_eq : h'.time = h.time + d
  step_eq : h'.step = h.step
  startCost_eq : h'.startCost = h.startCost
  rounds_eq : h'.rounds = h.rounds

namespace Later

variable {d : Ticks} {h h' : Bench}

theorem record (hh : h.Later d h') {c c' : PlatformCall}
    (hc : c.Matches (fun now now' => now' = now + d) c') : (h.record c).Later d (h'.record c') :=
  { hh with toMatches := hh.toMatches.record hc }

theorem spend (hh : h.Later d h') (a : Ticks) (hroom : Ticks.Room d (h.spend a).time) :
    (h.spend a).Later d (h'.spend a) :=
  { hh with
    toMatches := hh.toMatches.setClocks ..
    time_eq := by rw [Bench.spend, hh.time_eq, Ticks.after_add hroom, Bench.spend] }

theorem start (hh : h.Later d h') (t : Transfer)
    (hroom : Ticks.Room d (Platform.start t h).time) :
    (Platform.start t h).Later d (Platform.start t h') := by
  have hcost : Platform.start t h' = (h'.record (.start t)).spend h.startCost := by
    rw [← hh.startCost_eq]
    rfl
  rw [hcost]
  exact (hh.record (.start t)).spend h.startCost hroom

theorem now (hh : h.Later d h') (hroom : Ticks.Room d (Platform.now h).2.time) :
    (Platform.now h).2.Later d (Platform.now h').2 := by
  have hstep : (Platform.now h').2 = h'.spend h.step := by
    rw [← hh.step_eq]
    rfl
  rw [hstep]
  exact hh.spend h.step hroom

theorem advance (hh : h.Later d h') {t t' : Transfer}
    (ht : t.Matches (fun now now' => now' = now + d) t')
    (hroom : Ticks.Room d (Bench.advance t h).2.time) :
    (Bench.advance t h).2.Later d (Bench.advance t' h').2 := by
  have haddress : t'.command.address = t.command.address := by
    obtain ⟨now, rfl, -⟩ := ht
    rfl
  have hsameRound : h'.nextRound t'.command.address = h.nextRound t.command.address := by
    rw [nextRound, nextRound, hh.rounds_eq, haddress]
  refine ⟨(hh.toMatches.advance ht).2, ?_, ?_, ?_, ?_⟩
  · rw [time_advance] at hroom
    rw [time_advance, time_advance, hsameRound, hh.time_eq, Ticks.through_add hroom]
  · rw [step_advance, step_advance, hh.step_eq]
  · rw [startCost_advance, startCost_advance, hh.startCost_eq]
  · rw [rounds_advance, rounds_advance, haddress, dropRound, dropRound, hh.rounds_eq]

end Later

def Adjustment.later (d : Ticks) : Adjustment → Adjustment
  | .setTime time => .setTime (time + d)
  | .script address rounds => .script address rounds
  | .supply bytes => .supply bytes
  | .spend a => .spend a
  | .setStep step => .setStep step
  | .setStartCost cost => .setStartCost cost

theorem Adjustment.untimed_later (d : Ticks) (a : Adjustment) : a.Untimed (a.later d) := by
  cases a with
  | script address rounds => exact .script address (.refl rounds)
  | supply bytes => exact .supply bytes
  | spend a => exact .spend a a
  | setTime time => exact .setTime time _
  | setStep step => exact .setStep step step
  | setStartCost cost => exact .setStartCost cost cost

theorem Later.adjust {d : Ticks} {h h' : Bench} (hh : h.Later d h') (a : Adjustment)
    (hroom : Ticks.Room d (h.adjust a).time) : (h.adjust a).Later d (h'.adjust (a.later d)) := by
  have hmatches := hh.toMatches.adjust (a.untimed_later d)
  cases a with
  | script address rounds =>
    exact { hh with
      toMatches := hmatches
      rounds_eq := by rw [Adjustment.later, Bench.adjust, hh.rounds_eq]; rfl }
  | supply bytes => exact { hh with toMatches := hmatches }
  | spend a => exact hh.spend a hroom
  | setTime time => exact { hh with toMatches := hmatches, time_eq := rfl }
  | setStep step => exact { hh with toMatches := hmatches, step_eq := rfl }
  | setStartCost cost => exact { hh with toMatches := hmatches, startCost_eq := rfl }

/-- The time never goes back but by an adjustment, so there was room before if there is now. -/
theorem room_of_undergoes {d : Ticks} {h h' : Bench} {es : History} (hpast : Undergoes h es h')
    (hroom : Ticks.Room d h'.time) : Ticks.Room d h.time := by
  induction hpast with
  | nil => exact hroom
  | reset _ ih | clockSet _ _ ih | closed _ ih | note _ _ ih => exact ih hroom
  | begun _ t ih => exact ih (Ticks.Room.of_after hroom)
  | reading _ ih => exact ih (Ticks.Room.of_after hroom)
  | @serviced h₁ _ _ t ih =>
    have htime := h₁.time_advance t
    exact ih (Ticks.Room.of_through (htime ▸ hroom))

/-- A clock later by `d`, as long as it is not stopped at its end. Every timeout will do. -/
def delayed (d : Ticks) : ClockChange Bench where
  Alike := Later d
  Reads now now' := now' = now + d
  Tolerates _ := True
  Exact h := Ticks.Room d h.time
  exact_of_undergoes := room_of_undergoes
  reset hh := hh.record .reset
  setClock hz hh := hh.record (.setClock hz)
  close hh := hh.record .close
  start t hh hroom := hh.start t hroom
  actions_eq hh ht := (hh.toMatches.advance ht).1
  advance hh ht hroom := hh.advance ht hroom
  reads hh _ := hh.time_eq
  now hh hroom := hh.now hroom
  late_iff {limit start start' now now'} _ _ hstart hnow := by
    rw [hstart, hnow, Ticks.since_add_add]

end Bench

def Step.later (d : Ticks) : Step → Step
  | .call c => .call c
  | .adjust a => .adjust (a.later d)

theorem Step.matches_later (d : Ticks) (step : Step) :
    step.Matches (Bench.delayed d) (step.later d) := by
  cases step with
  | call c => exact .call c
  | adjust a => exact .adjust fun hh hroom => hh.adjust a hroom

namespace System

/-- What happens depends on the time that passes, not on the instant. A run that starts later by
`d`, and in which the clock is set to instants later by `d`, is answered the same. It ends abreast
of the first one, with the time and the stamps later by `d`. There is room for that throughout if
no addition to either clock is cut short. -/
theorem translated_in_time (limit : Nat) (d : Ticks) {bench bench' : Bench}
    (hbench : bench.Later d bench') (config : Config) (xs : List Expander) {steps : List Step}
    (hroom : (create bench config xs).Throughout (fun h => Ticks.Room d h.time) limit steps)
    {replies : List Reply} {t : System Bench}
    (ht : (create bench config xs).follow limit steps = some (replies, t)) :
    ∃ t', (create bench' config xs).follow limit (steps.map (Step.later d)) = some (replies, t') ∧
      t.Abreast (Bench.delayed d) t' := by
  have hfresh : (create bench config xs).Abreast (Bench.delayed d) (create bench' config xs) :=
    ⟨.create hbench trivial, rfl, rfl⟩
  have hsteps : List.Forall₂ (Step.Matches (Bench.delayed d)) steps (steps.map (Step.later d)) :=
    List.forall₂_map_right_iff.2 (List.forall₂_same.2 fun step _ => step.matches_later d)
  exact abreast_follow hfresh hsteps (fun _ _ => trivial) hroom ht

def rewoundSteps : List Step :=
  [.call (.write 1 0x20 [1]), .adjust (.setTime 60), .call (.wait 1)]

theorem translated_in_time_rewound :
    ∃ t t',
      (create (Bench.create 100 50) ⟨100000, 10, .interrupt⟩ []).follow 20 rewoundSteps =
        some ([.ok, .done, .status .timeout], t) ∧
      (create (Bench.create 1100 50) ⟨100000, 10, .interrupt⟩ []).follow 20
        (rewoundSteps.map (Step.later 1000)) = some ([.ok, .done, .status .timeout], t') ∧
      t.Abreast (Bench.delayed 1000) t' := by
  have hbench : (Bench.create 100 50).Later 1000 (Bench.create 1100 50) :=
    ⟨⟨rfl, fun _ => .refl [], .nil⟩, rfl, rfl, rfl, rfl⟩
  have hclock : rewoundSteps.inits.all (fun front =>
      ((create (Bench.create 100 50) ⟨100000, 10, .interrupt⟩ []).follow 20 front).all fun x =>
        x.2.bus.platform.time + 1000 ≤ Ticks.last) = true := by decide
  have hroom : (create (Bench.create 100 50) ⟨100000, 10, .interrupt⟩ []).Throughout
      (fun h => Ticks.Room 1000 h.time) 20 rewoundSteps := by
    intro front replies t hfront ht
    have hall := List.all_eq_true.1 hclock front ((List.mem_inits _ _).2 hfront)
    rw [ht, Option.all_some, decide_eq_true_eq] at hall
    exact .inr hall
  have hreplies : ((create (Bench.create 100 50) ⟨100000, 10, .interrupt⟩ []).follow 20
      rewoundSteps).map Prod.fst = some [.ok, .done, .status .timeout] := rfl
  obtain ⟨⟨replies, t⟩, ht, rfl⟩ := Option.map_eq_some_iff.1 hreplies
  obtain ⟨t', ht', habreast⟩ :=
    translated_in_time 20 1000 hbench ⟨100000, 10, .interrupt⟩ [] hroom ht
  exact ⟨t, t', ht, ht', habreast⟩

end System

end SharedBus
