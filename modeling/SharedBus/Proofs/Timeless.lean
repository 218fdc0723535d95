import SharedBus.Proofs.Resets
import SharedBus.Proofs.TwoRuns

/-!
# Time without influence

Two benches match when they differ in their clocks alone: in the time they show, in how far a
reading or the beginning of a transfer moves it and in the time spent on an event. As long as
there is no timeout the bus does not compare what it reads, so two runs that differ in the clock
alone are answered the same and end abreast, without a recovery.
-/

namespace SharedBus

inductive Instruction.Untimed : Instruction → Instruction → Prop
  | same (i : Instruction) : Untimed i i
  | spend (d d' : Ticks) : Untimed (.spend d) (.spend d')

abbrev Untimed : List Round → List Round → Prop :=
  List.Forall₂ (List.Forall₂ Instruction.Untimed)

inductive Bench.Adjustment.Untimed : Bench.Adjustment → Bench.Adjustment → Prop
  | script (address : UInt8) {rounds rounds' : List Round} (h : SharedBus.Untimed rounds rounds') :
      Untimed (.script address rounds) (.script address rounds')
  | supply (bytes : List UInt8) : Untimed (.supply bytes) (.supply bytes)
  | spend (d d' : Ticks) : Untimed (.spend d) (.spend d')
  | setTime (time time' : Ticks) : Untimed (.setTime time) (.setTime time')
  | setStep (step step' : Ticks) : Untimed (.setStep step) (.setStep step')
  | setStartCost (cost cost' : Ticks) : Untimed (.setStartCost cost) (.setStartCost cost')

/-- The same call, or adjustments that are the same but for the clock. -/
inductive Step.Untimed : Step → Step → Prop
  | call (c : Call) : Untimed (.call c) (.call c)
  | adjust {a a' : Bench.Adjustment} (h : a.Untimed a') : Untimed (.adjust a) (.adjust a')

inductive PlatformCall.Matches (S : Ticks → Ticks → Prop) : PlatformCall → PlatformCall → Prop
  | reset : Matches S .reset .reset
  | setClock (hz : Nat) : Matches S (.setClock hz) (.setClock hz)
  | close : Matches S .close .close
  | start (t : Transfer) : Matches S (.start t) (.start t)
  | advance {before before' after after' : Transfer} (outcomes : List Outcome)
      (hbefore : before.Matches S before') (hafter : after.Matches S after') :
      Matches S (.advance before outcomes after) (.advance before' outcomes after')

/-- The benches differ in their clocks and in the stamps of recorded transfers alone. -/
structure Bench.Matches (S : Ticks → Ticks → Prop) (h h' : Bench) : Prop where
  supply_eq : h'.supply = h.supply
  rounds : ∀ address, Untimed (h.rounds address) (h'.rounds address)
  calls : List.Forall₂ (PlatformCall.Matches S) h.calls h'.calls

theorem Instruction.Untimed.refl_round (round : Round) :
    List.Forall₂ Instruction.Untimed round round := List.forall₂_same.2 fun i _ => .same i

theorem Untimed.refl (rounds : List Round) : Untimed rounds rounds :=
  List.forall₂_same.2 fun round _ => Instruction.Untimed.refl_round round

/-! ### Either of the clocks can come first -/

theorem Instruction.Untimed.symm {i i' : Instruction} (h : i.Untimed i') : i'.Untimed i := by
  cases h with
  | same => exact .same i
  | spend d d' => exact .spend d' d

theorem Untimed.symm {rounds rounds' : List Round} (h : Untimed rounds rounds') :
    Untimed rounds' rounds :=
  (h.imp fun _ _ hround => (hround.imp fun _ _ hi => hi.symm).flip).flip

theorem Step.Untimed.symm {step step' : Step} (h : step.Untimed step') : step'.Untimed step := by
  cases h with
  | call c => exact .call c
  | adjust ha =>
    refine .adjust ?_
    cases ha with
    | script address hrounds => exact .script address hrounds.symm
    | supply bytes => exact .supply bytes
    | spend d d' => exact .spend d' d
    | setTime time time' => exact .setTime time' time
    | setStep step step' => exact .setStep step' step
    | setStartCost cost cost' => exact .setStartCost cost' cost

theorem Transfer.Matches.symm {S : Ticks → Ticks → Prop} {t t' : Transfer}
    (h : t.Matches S t') : t'.Matches (fun a a' => S a' a) t := by
  obtain ⟨now, rfl, hnow⟩ := h
  exact ⟨t.startedAt, rfl, hnow⟩

theorem PlatformCall.Matches.symm {S : Ticks → Ticks → Prop} {c c' : PlatformCall}
    (h : c.Matches S c') : c'.Matches (fun a a' => S a' a) c := by
  cases h with
  | reset => exact .reset
  | setClock hz => exact .setClock hz
  | close => exact .close
  | start t => exact .start t
  | advance outcomes hbefore hafter => exact .advance outcomes hbefore.symm hafter.symm

theorem Bench.Matches.symm {S : Ticks → Ticks → Prop} {h h' : Bench} (hh : h.Matches S h') :
    h'.Matches (fun a a' => S a' a) h :=
  ⟨hh.supply_eq.symm, fun address => (hh.rounds address).symm,
    (hh.calls.imp fun _ _ hc => hc.symm).flip⟩

namespace Instruction

variable {S : Ticks → Ticks → Prop} {t t' : Transfer} {i i' : Instruction}

theorem Untimed.actions_eq (hi : i.Untimed i') (supply : List UInt8) (ht : t.Matches S t') :
    i'.actions supply t' = i.actions supply t := by
  obtain ⟨now, rfl, -⟩ := ht
  cases hi with
  | same => cases i <;> rfl
  | spend => rfl

theorem Untimed.outcome_eq (hi : i.Untimed i') (supply : List UInt8) (ht : t.Matches S t') :
    i'.outcome supply t' = i.outcome supply t := by
  have hactions := hi.actions_eq supply ht
  have hstatus := (ht.advance (i.actions supply t)).status_eq
  cases hi with
  | same =>
    unfold outcome
    rw [hactions, ht.answers_eq, hstatus]
  | spend => rfl

end Instruction

namespace Bench.Matches

variable {S : Ticks → Ticks → Prop} {h h' : Bench} {t t' : Transfer}

theorem record (hh : h.Matches S h') {c c' : PlatformCall} (hc : c.Matches S c') :
    (h.record c).Matches S (h'.record c') :=
  ⟨hh.supply_eq, hh.rounds, .cons hc hh.calls⟩

/-- Whatever the clocks are set to, the benches still match. -/
theorem setClocks (hh : h.Matches S h') (time step cost time' step' cost' : Ticks) :
    { h with time := time, step := step, startCost := cost }.Matches S
      { h' with time := time', step := step', startCost := cost' } :=
  ⟨hh.supply_eq, hh.rounds, hh.calls⟩

theorem nextRound (hh : h.Matches S h') (address : UInt8) :
    List.Forall₂ Instruction.Untimed (h.nextRound address) (h'.nextRound address) := by
  have hrounds := hh.rounds address
  unfold Bench.nextRound
  generalize h.rounds address = rounds, h'.rounds address = rounds' at hrounds
  cases hrounds with
  | nil => exact Instruction.Untimed.refl_round _
  | cons hround _ => exact hround

theorem dropRound (hh : h.Matches S h') (address : UInt8) :
    (h.dropRound address).Matches S (h'.dropRound address) := by
  refine ⟨hh.supply_eq, fun a => ?_, hh.calls⟩
  have hrounds := hh.rounds a
  simp only [Bench.dropRound]
  generalize h.rounds a = rounds, h'.rounds a = rounds' at hrounds
  split
  · cases hrounds with
    | nil => exact .nil
    | cons _ hrest => exact hrest
  · exact hrounds

theorem carryOut (hh : h.Matches S h') (ht : t.Matches S t') {i i' : Instruction}
    (hi : i.Untimed i') : (h.carryOut t i).Matches S (h'.carryOut t' i') := by
  cases hi with
  | spend d d' => exact hh.setClocks ..
  | same =>
    cases i with
    | send | receive | complete => exact hh
    | spend d => exact hh.setClocks ..
    | finish =>
      obtain ⟨now, rfl, -⟩ := ht
      exact ⟨congrArg (List.drop t.unread) hh.supply_eq, hh.rounds, hh.calls⟩

/-- A round does the same on both benches, and what comes of it is the same. -/
theorem play (hh : h.Matches S h') (ht : t.Matches S t') {round round' : Round}
    (hround : List.Forall₂ Instruction.Untimed round round') :
    (h'.play t' round').1 = (h.play t round).1 ∧
      (h'.play t' round').2.1 = (h.play t round).2.1 ∧
      (h.play t round).2.2.Matches S (h'.play t' round').2.2 := by
  induction hround generalizing h h' t t' with
  | nil => exact ⟨rfl, rfl, hh⟩
  | @cons i i' round round' hi _ ih =>
    have hactions := hi.actions_eq h.supply ht
    have houtcome := hi.outcome_eq h.supply ht
    obtain ⟨hmore, houtcomes, hmatches⟩ :=
      ih (hh.carryOut ht hi) (ht.advance (i.actions h.supply t))
    simp only [Bench.play, hh.supply_eq, hactions, houtcome]
    exact ⟨congrArg _ hmore, congrArg _ houtcomes, hmatches⟩

theorem advance (hh : h.Matches S h') (ht : t.Matches S t') :
    (Bench.advance t' h').1 = (Bench.advance t h).1 ∧
      (Bench.advance t h).2.Matches S (Bench.advance t' h').2 := by
  have haddress : t'.command.address = t.command.address := by
    obtain ⟨now, rfl, -⟩ := ht
    rfl
  obtain ⟨hactions, houtcomes, hmatches⟩ := (hh.dropRound t.command.address).play ht
    (hh.nextRound t.command.address)
  rw [Bench.advance, Bench.advance, haddress]
  refine ⟨hactions, ?_⟩
  simp only [hactions, houtcomes]
  exact hmatches.record (.advance _ ht (ht.advance _))

theorem adjust (hh : h.Matches S h') {a a' : Adjustment} (ha : a.Untimed a') :
    (h.adjust a).Matches S (h'.adjust a') := by
  cases ha with
  | @script address rounds rounds' hrounds =>
    refine ⟨hh.supply_eq, fun x => ?_, hh.calls⟩
    simp only [Bench.adjust]
    split
    · exact hrounds
    · exact hh.rounds x
  | supply bytes => exact ⟨congrArg (· ++ bytes) hh.supply_eq, hh.rounds, hh.calls⟩
  | spend | setTime | setStep | setStartCost => exact hh.setClocks ..

end Bench.Matches

/-- Any clock in place of any other, on a bus without a timeout. -/
def Bench.untimed : ClockChange Bench where
  Alike := Bench.Matches fun _ _ => True
  Reads _ _ := True
  Tolerates limit := limit = 0
  Exact _ := True
  exact_of_undergoes _ _ := trivial
  reset hh := hh.record .reset
  setClock hz hh := hh.record (.setClock hz)
  close hh := hh.record .close
  start t hh _ := (hh.record (.start t)).setClocks ..
  actions_eq hh ht := (hh.advance ht).1
  advance hh ht _ := (hh.advance ht).2
  reads _ _ := trivial
  now hh _ := hh.setClocks ..
  late_iff hzero hlimit _ _ := absurd hzero hlimit

theorem Step.Untimed.matches {step step' : Step} (h : step.Untimed step') :
    step.Matches Bench.untimed step' := by
  cases h with
  | call c => exact .call c
  | adjust ha => exact .adjust fun hh _ => hh.adjust ha

theorem Step.Untimed.call_mem {steps steps' : List Step}
    (h : List.Forall₂ Step.Untimed steps steps') {c : Call} (hc : .call c ∈ steps') :
    .call c ∈ steps := by
  induction h with
  | nil => cases hc
  | cons hstep _ ih =>
    rcases List.mem_cons.1 hc with rfl | hc
    · cases hstep
      exact List.mem_cons_self
    · exact List.mem_cons_of_mem _ (ih hc)

/-! ### No recovery without a timeout -/

structure Bus.Unlimited {σ : Type} (b : Bus σ) : Prop where
  timeout_eq : b.config.timeout = 0
  recoveries_eq : b.recoveries = 0

theorem Bus.Unlimited.act {σ : Type} [Platform σ] {b b' : Bus σ} (h : b.Unlimited) {a : Act σ}
    (ha : b.act a = .ok b') (hset : ∀ l, a = .setTimeout l → l = 0) : b'.Unlimited := by
  constructor
  · rw [config_act ha]
    cases a with
    | setTimeout l => exact hset l rfl
    | shift | handleEvent | checkTimeout | bringUp | shutDown | setClock | configure | submit |
      poll => exact h.timeout_eq
  · have hnone : b.recoveriesBy a = 0 := by
      cases a with
      | checkTimeout =>
        have hoverdue : b.overdue? = none :=
          overdue?_eq_none_iff.2 fun _ _ hlimit => absurd h.timeout_eq hlimit
        rw [recoveriesBy, hoverdue]
        rfl
      | shift | handleEvent | bringUp | shutDown | setClock | setTimeout | configure | submit |
        poll => rfl
    rw [recoveries_act ha, hnone, h.recoveries_eq]
    rfl

namespace System

variable {limit : Nat} {s t : System Bench} {steps steps' : List Step} {replies : List Reply}

theorem unlimited_perform {σ : Type} [Platform σ] {s s' : System σ} {c : Call} {reply : Reply}
    (h : s.perform limit c = some (reply, s')) (hc : ∀ l, c = .setTimeout l → l = 0)
    (hs : s.bus.Unlimited) : s'.bus.Unlimited :=
  (via_perform h).preserves (fun _ _ a hmay hb ha =>
    hb.act ha fun l hl => hc l (by subst a; exact hmay)) hs

theorem unlimited_follow (h : s.follow limit steps = some (replies, t))
    (hzero : ∀ l, .call (.setTimeout l) ∈ steps → l = 0) (hs : s.bus.Unlimited) :
    t.bus.Unlimited := by
  refine follow_preserves (I := fun s => s.bus.Unlimited) h ?_ hs
  intro step hstep s₁ reply s₂ hs₁ htake
  cases step with
  | call c => exact unlimited_perform htake (fun l hl => hzero l (hl ▸ hstep)) hs₁
  | adjust a =>
    cases htake
    exact ⟨hs₁.timeout_eq, hs₁.recoveries_eq⟩

/-- Steps that have been followed by one clock can be followed by any other. -/
theorem follow_untimed {bench bench' : Bench} (hbench : bench.Matches (fun _ _ => True) bench')
    {config : Config} (hconfig : config.timeout = 0) (xs : List Expander)
    (hsteps : List.Forall₂ Step.Untimed steps steps')
    (hzero : ∀ l, .call (.setTimeout l) ∈ steps → l = 0)
    (h : (create bench config xs).follow limit steps = some (replies, t)) :
    ∃ t', (create bench' config xs).follow limit steps' = some (replies, t') ∧
      t.Abreast Bench.untimed t' := by
  have hfresh : (create bench config xs).Abreast Bench.untimed (create bench' config xs) :=
    ⟨.create hbench hconfig, rfl, rfl⟩
  exact abreast_follow hfresh (hsteps.imp fun _ _ hstep => hstep.matches) hzero
    (fun _ _ _ _ _ => trivial) h

/-- Without a timeout the clock has no influence. Two runs that differ in the clock alone both
return or both do not, are answered the same and end abreast: only the time and the stamps may
differ. No transfer is ever given up. -/
theorem time_without_influence (limit : Nat) {bench bench' : Bench}
    (hbench : bench.Matches (fun _ _ => True) bench') (config : Config)
    (hconfig : config.timeout = 0) (xs : List Expander)
    (hsteps : List.Forall₂ Step.Untimed steps steps')
    (hzero : ∀ l, .call (.setTimeout l) ∈ steps → l = 0) :
    (create bench config xs).follow limit steps = none ∧
        (create bench' config xs).follow limit steps' = none ∨
      ∃ replies t t', (create bench config xs).follow limit steps = some (replies, t) ∧
        (create bench' config xs).follow limit steps' = some (replies, t') ∧
        t.Abreast Bench.untimed t' ∧ t.bus.recoveries = 0 ∧ t'.bus.recoveries = 0 := by
  cases h : (create bench config xs).follow limit steps with
  | some x =>
    obtain ⟨replies, t⟩ := x
    obtain ⟨t', h', habreast⟩ := follow_untimed hbench hconfig xs hsteps hzero h
    have hrecoveries := (unlimited_follow h hzero ⟨hconfig, rfl⟩).recoveries_eq
    refine .inr ⟨replies, t, t', rfl, h', habreast, hrecoveries, ?_⟩
    rw [habreast.bus.recoveries_eq, hrecoveries]
  | none =>
    refine .inl ⟨rfl, ?_⟩
    cases h' : (create bench' config xs).follow limit steps' with
    | none => rfl
    | some x =>
      have hzero' : ∀ l, .call (.setTimeout l) ∈ steps' → l = 0 := fun l hl =>
        hzero l (Step.Untimed.call_mem hsteps hl)
      have hsteps' : List.Forall₂ Step.Untimed steps' steps :=
        (hsteps.imp fun _ _ hstep => hstep.symm).flip
      obtain ⟨t, hreturns, -⟩ := follow_untimed hbench.symm hconfig xs hsteps' hzero' h'
      cases h.symm.trans hreturns

def takingTime (d : Ticks) : List Round := [[.send 1, .spend d], [.complete .ok]]

def clockedSteps (d moved : Ticks) : List Step :=
  [.adjust (.script 0x20 (takingTime d)), .call (.write 1 0x20 [1]), .adjust (.setTime moved),
    .call (.wait 1), .call (.setTimeout 0)]

theorem time_without_influence_clocked :
    ∃ t t',
      (create (Bench.create 0 1) ⟨100000, 0, .polled⟩ []).follow 2 (clockedSteps 3 50) =
        some ([.done, .ok, .done, .status .ok, .done], t) ∧
      (create { Bench.create 900 7 with startCost := 60 } ⟨100000, 0, .polled⟩ []).follow 2
        (clockedSteps 8000 0) = some ([.done, .ok, .done, .status .ok, .done], t') ∧
      t.Abreast Bench.untimed t' ∧ t.bus.recoveries = 0 ∧ t'.bus.recoveries = 0 := by
  have hbench : (Bench.create 0 1).Matches (fun _ _ => True)
      { Bench.create 900 7 with startCost := 60 } := ⟨rfl, fun _ => .refl [], .nil⟩
  have hscript : Untimed (takingTime 3) (takingTime 8000) :=
    .cons (.cons (.same _) (.cons (.spend 3 8000) .nil)) (.cons (.cons (.same _) .nil) .nil)
  have hsteps : List.Forall₂ Step.Untimed (clockedSteps 3 50) (clockedSteps 8000 0) :=
    .cons (.adjust (.script 0x20 hscript)) (.cons (.call _) (.cons (.adjust (.setTime 50 0))
      (.cons (.call _) (.cons (.call _) .nil))))
  have hreplies : ((create (Bench.create 0 1) ⟨100000, 0, .polled⟩ []).follow 2
      (clockedSteps 3 50)).map Prod.fst = some [.done, .ok, .done, .status .ok, .done] := rfl
  rcases time_without_influence 2 hbench ⟨100000, 0, .polled⟩ rfl [] hsteps
      (by simp [clockedSteps]) with ⟨hrun, -⟩ | ⟨replies, t, t', hrun, hrun', hend⟩
  · rw [hrun] at hreplies
    cases hreplies
  · rw [hrun] at hreplies
    obtain rfl := Option.some.inj hreplies
    exact ⟨t, t', hrun, hrun', hend⟩

end System

end SharedBus
