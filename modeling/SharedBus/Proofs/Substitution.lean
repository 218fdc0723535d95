import Mathlib.Data.List.Forall2
import SharedBus.Proofs.Configuration
import SharedBus.Proofs.FixedStorage

/-!
# Copies replaced by fixed storage

Of two runs the second has some writes from fixed storage where the first one copies the same
bytes, at most as many as a request holds. On a platform that does not tell the two apart, every
call returns in both runs or in neither and is answered the same, and the systems stay twins:
only the kind of the write differs, and only in requests that were last set up by a
replaced call and in their transfers.
-/

namespace SharedBus

theorem rel_bind {α β γ δ : Type} {r : α → β → Prop} {q : γ → δ → Prop} {x : Option α}
    {y : Option β} (h : Option.Rel r x y) {f : α → Option γ} {g : β → Option δ}
    (hfg : ∀ a b, x = some a → y = some b → r a b → Option.Rel q (f a) (g b)) :
    Option.Rel q (x.bind f) (y.bind g) := by
  cases h with
  | some hab => exact hfg _ _ rfl rfl hab
  | none => exact .none

namespace Move

variable {σ : Type}

/-- The second move is the first one, or writes from fixed storage what the first one copies. -/
inductive Replaces (R : σ → σ → Prop) : Move σ → Move σ → Prop
  | same (limit : Nat) (c : Call) : Replaces R (.call limit c) (.call limit c)
  | shift {p p' : σ} (hp : R p p') : Replaces R (.shift p) (.shift p')
  | write (limit : Nat) (r : RequestId) (address : UInt8) {data : List UInt8}
      (h : data.length ≤ Buffer.capacity) :
      Replaces R (.call limit (.write r address data)) (.call limit (.writeFixed r address data))
  | setWrite (limit : Nat) (r : RequestId) (address : UInt8) {data : List UInt8}
      (h : data.length ≤ Buffer.capacity) :
      Replaces R (.call limit (.setWrite r address data))
        (.call limit (.setWriteFixed r address data))

end Move

namespace Call

def swaps : Call → Call → Bool
  | .write .., .writeFixed .. => true
  | .setWrite .., .setWriteFixed .. => true
  | _, _ => false

def marks (xs : List Expander) (f : Marks) (c c' : Call) (reply : Reply) : Marks :=
  if reply.granted then (c.gives xs).elim f fun given => f.set given.1 (c.swaps c') else f

variable {xs : List Expander} {f : Marks} {c c' : Call} {reply : Reply}

theorem marks_of_refused (h : reply.granted = false) : c.marks xs f c' reply = f := by
  rw [marks, if_neg (by simp [h])]

theorem marks_of_granted (h : reply.granted = true) {r : RequestId} {job : Job}
    (hc : c.gives xs = some (r, job)) : c.marks xs f c' reply = f.set r (c.swaps c') := by
  rw [marks, if_pos h, hc]
  rfl

/-- Calls that set nothing up leave the marks as they are. -/
theorem marks_of_gives_none (h : c.gives xs = none) (reply : Reply) :
    c.marks xs f c' reply = f := by
  rw [marks, h]
  exact ite_self f

end Call

def Move.marks {σ : Type} (xs : List Expander) (f : Marks) : Move σ → Move σ → Reply → Marks
  | .call _ c, .call _ c', reply => c.marks xs f c' reply
  | _, _, _ => f

/-- The requests that were last set up by a replaced call, as the replies show. Those in `f` were
so before. -/
def replacedMarks {σ : Type} (xs : List Expander) (f : Marks) :
    List (Move σ) → List (Move σ) → List Reply → Marks
  | m :: ms, m' :: ms', reply :: replies =>
      replacedMarks (m.latched xs reply) (m.marks xs f m' reply) ms ms' replies
  | _, _, _ => f

namespace Bus

variable {σ : Type} {R : σ → σ → Prop} {f : Marks} {b b' : Bus σ}

inductive Alike (R : σ → σ → Prop) (f : Marks) :
    Except Error (Bus σ) → Except Error (Bus σ) → Prop
  | refused (e : Error) : Alike R f (.error e) (.error e)
  | granted {b b' : Bus σ} (h : Twin R f b b') : Alike R f (.ok b) (.ok b')

namespace Twin

theorem configure_alike (h : Twin R f b b') (hb : b.Coherent) (r : RequestId) (c : Command)
    (on : Bool) : Alike R (f.set r on) (b.configure r c) (b'.configure r (c.fixedIf on)) := by
  by_cases hr : (b.requests r).status = .pending
  · have hr' := (h.status_eq r).trans hr
    rw [configure_of_pending hr, configure_of_pending hr']
    exact .refused .pending
  · have hr' : (b'.requests r).status ≠ .pending := by rwa [h.status_eq]
    rw [configure_of_idle hr, configure_of_idle hr']
    exact .granted (h.configure hb hr c on)

theorem setUp_alike (h : Twin R f b b') (hb : b.Coherent) (r : RequestId)
    (command : Except Error Command) :
    Alike R (f.set r false) (command >>= b.configure r) (command >>= b'.configure r) := by
  cases command with
  | error e => exact .refused e
  | ok c => exact h.configure_alike hb r c false

variable [Platform σ]

theorem shutDown_alike (hR : Blind R) (h : Twin R f b b') :
    Alike R f b.shutDown b'.shutDown := by
  have hqueued : b'.queued = b.queued := congrArg Queue.size h.queue_eq
  by_cases hq : b.queued = 0
  · rw [shutDown_of_empty hq, shutDown_of_empty (hqueued.trans hq)]
    have hclosed := h.closePlatform hR
    exact .granted { hclosed with history := .event .shutDown (by simp) hclosed.history }
  · rw [shutDown_of_queued hq, shutDown_of_queued (hqueued ▸ hq), hqueued]
    exact .refused _

theorem submit_alike (hR : Blind R) (h : Twin R f b b') (r : RequestId) :
    Alike R f (b.submit r) (b'.submit r) := by
  by_cases hr : (b.requests r).status = .pending
  · rw [submit_of_pending hr, submit_of_pending ((h.status_eq r).trans hr)]
    exact .refused .pending
  · have hr' : (b'.requests r).status ≠ .pending := by rwa [h.status_eq]
    rw [submit_of_idle hr, submit_of_idle hr']
    exact .granted ((h.accept r).startNext hR)

/-- A good command is placed on both buses or on neither. -/
theorem request_ok_cases (hR : Blind R) (h : Twin R f b b') (hb : b.Coherent) (limit : Nat)
    (r : RequestId) (c : Command) (on : Bool) :
    b.request limit r (.ok c) = none ∧ b'.request limit r (.ok (c.fixedIf on)) = none ∨
      ∃ b₁ b₁', b.request limit r (.ok c) = some (.ok (), b₁) ∧
        b'.request limit r (.ok (c.fixedIf on)) = some (.ok (), b₁') ∧
        Twin R (f.set r on) b₁ b₁' := by
  rcases h.wait_cases hR r limit with ⟨hw, hw'⟩ | ⟨s, b₁, b₁', hw, hw', htwin⟩
  · exact .inl ⟨request_of_no_wait hw _, request_of_no_wait hw' _⟩
  · obtain ⟨⟨as, hpath, -⟩, hidle, -⟩ := path_wait hw
    have hplaced := htwin.placed hR (hpath.coherent hb) hidle c on
    exact .inr ⟨_, _, request_ok hw c, request_ok hw' _, hplaced⟩

theorem request_error_cases (hR : Blind R) (h : Twin R f b b') (limit : Nat) (r : RequestId)
    (e : Error) :
    b.request limit r (.error e) = none ∧ b'.request limit r (.error e) = none ∨
      ∃ b₁ b₁', b.request limit r (.error e) = some (.error e, b₁) ∧
        b'.request limit r (.error e) = some (.error e, b₁') ∧ Twin R f b₁ b₁' := by
  rcases h.wait_cases hR r limit with ⟨hw, hw'⟩ | ⟨s, b₁, b₁', hw, hw', htwin⟩
  · exact .inl ⟨request_of_no_wait hw _, request_of_no_wait hw' _⟩
  · exact .inr ⟨b₁, b₁', request_error hw e, request_error hw' e, htwin⟩

end Twin

end Bus

namespace System

variable {σ : Type}

structure Twin (R : σ → σ → Prop) (f : Marks) (s s' : System σ) : Prop where
  bus : s.bus.Twin R f s'.bus
  expanders_eq : s'.expanders = s.expanders
  completions_eq : s'.completions = s.completions

def Answers (R : σ → σ → Prop) (F : Reply → Marks) :
    Option (Reply × System σ) → Option (Reply × System σ) → Prop :=
  Option.Rel fun x x' => x.1 = x'.1 ∧ x.2.Twin R (F x.1) x'.2

variable {R : σ → σ → Prop} {f : Marks} {F : Reply → Marks} {s s' : System σ} {reply : Reply}

theorem Twin.withBus (h : s.Twin R f s') {g : Marks} {b b' : Bus σ} (hb : b.Twin R g b') :
    (s.withBus b).Twin R g (s'.withBus b') := ⟨hb, h.expanders_eq, h.completions_eq⟩

theorem answers_some (hF : F reply = f) (h : s.Twin R f s') :
    Answers R F (some (reply, s)) (some (reply, s')) := .some ⟨rfl, hF ▸ h⟩

theorem answers_attempt (h : s.Twin R f s') {g : Marks} (hgranted : F .ok = g)
    (hrefused : ∀ e, F (.error e) = f) {result result' : Except Error (Bus σ)}
    (hresult : Bus.Alike R g result result') :
    Answers R F (some (s.attempt result)) (some (s'.attempt result')) := by
  cases hresult with
  | refused e => exact answers_some (hrefused e) h
  | granted hb => exact answers_some hgranted (h.withBus hb)

variable [Platform σ]

theorem answers_request (hR : Blind R) (h : s.Twin R f s') (hs : s.bus.Coherent) (limit : Nat)
    (r : RequestId) (c : Command) (on : Bool) (hF : F .ok = f.set r on) :
    Answers R F
      ((s.bus.request limit r (.ok c)).map fun (result, b) => (.ofResult result, s.withBus b))
      ((s'.bus.request limit r (.ok (c.fixedIf on))).map fun (result, b) =>
        (.ofResult result, s'.withBus b)) := by
  rcases h.bus.request_ok_cases hR hs limit r c on with ⟨hb, hb'⟩ | ⟨b, b', hb, hb', htwin⟩
  · rw [hb, hb']
    exact .none
  · rw [hb, hb']
    exact answers_some hF (h.withBus htwin)

theorem answers_request_error (hR : Blind R) (h : s.Twin R f s') (limit : Nat) (r : RequestId)
    (e : Error) (hF : F (.error e) = f) :
    Answers R F
      ((s.bus.request limit r (.error e)).map fun (result, b) => (.ofResult result, s.withBus b))
      ((s'.bus.request limit r (.error e)).map fun (result, b) =>
        (.ofResult result, s'.withBus b)) := by
  rcases h.bus.request_error_cases hR limit r e with ⟨hb, hb'⟩ | ⟨b, b', hb, hb', htwin⟩
  · rw [hb, hb']
    exact .none
  · rw [hb, hb']
    exact answers_some hF (h.withBus htwin)

/-- A call that places a request is answered the same, whether its command is good or not. -/
theorem answers_place (hR : Blind R) (h : s.Twin R f s') (hs : s.bus.Coherent) (limit : Nat)
    (r : RequestId) (command : Except Error Command) (hgranted : F .ok = f.set r false)
    (hrefused : ∀ e, F (.error e) = f) :
    Answers R F
      ((s.bus.request limit r command).map fun (result, b) => (.ofResult result, s.withBus b))
      ((s'.bus.request limit r command).map fun (result, b) =>
        (.ofResult result, s'.withBus b)) := by
  cases command with
  | ok c => exact answers_request hR h hs limit r c false hgranted
  | error e => exact answers_request_error hR h limit r e (hrefused e)

theorem answers_writePin (hR : Blind R) (h : s.Twin R f s') (hs : s.bus.Coherent) (limit i : Nat)
    (pin : UInt16) (level : Bool) :
    Answers R ((Call.writePin i pin level).marks s.expanders f (.writePin i pin level))
      (s.writePin limit i pin level) (s'.writePin limit i pin level) := by
  cases hx : s.expanders[i]? with
  | none =>
    simp only [writePin, h.expanders_eq, hx]
    exact answers_some (Call.marks_of_refused rfl) h
  | some x =>
    simp only [writePin, h.expanders_eq, hx]
    cases hown : x.owns pin with
    | false =>
      simp only [Expander.writePin, Expander.mask_of_not_owned hown, Option.map_some]
      exact answers_some (Call.marks_of_refused rfl) ⟨h.bus, rfl, h.completions_eq⟩
    | true =>
      have hkept : (x.drive (x.bit pin) level).writeRequest = x.writeRequest := by
        cases level <;> rfl
      have hgives := Call.gives_writePin hx pin level
      have hcases := h.bus.request_ok_cases hR hs limit x.writeRequest
        (.write (x.drive (x.bit pin) level).address
          (.holding [(x.drive (x.bit pin) level).latch])) false
      rw [Command.fixedIf_false] at hcases
      simp only [Expander.writePin, Expander.mask_of_owned hown, Bus.write, hkept]
      rw [Command.copying_of_le _ (by simp [Buffer.capacity])]
      rcases hcases with ⟨hb, hb'⟩ | ⟨b, b', hb, hb', htwin⟩
      · rw [hb, hb']
        exact .none
      · rw [hb, hb']
        exact answers_some (Call.marks_of_granted rfl hgives) ⟨htwin, rfl, h.completions_eq⟩

theorem levelOf_fixedIf (q : Request) (on : Bool) (mask : UInt8) :
    Expander.levelOf (q.fixedIf on) mask = Expander.levelOf q mask := rfl

theorem answers_readPin (hR : Blind R) (h : s.Twin R f s') (hs : s.bus.Coherent) (limit i : Nat)
    (pin : UInt16) :
    Answers R ((Call.readPin i pin).marks s.expanders f (.readPin i pin))
      (s.readPin limit i pin) (s'.readPin limit i pin) := by
  cases hx : s.expanders[i]? with
  | none =>
    simp only [readPin, h.expanders_eq, hx]
    exact answers_some (Call.marks_of_refused rfl) h
  | some x =>
    simp only [readPin, h.expanders_eq, hx]
    cases hown : x.owns pin with
    | false =>
      simp only [Expander.readPin, Expander.mask_of_not_owned hown, Option.map_some]
      exact answers_some (Call.marks_of_refused rfl) ⟨h.bus, rfl, h.completions_eq⟩
    | true =>
      have hkept : (x.raise (x.bit pin)).readRequest = x.readRequest := rfl
      have hgives := Call.gives_readPin hx pin
      have hcases := h.bus.request_ok_cases hR hs limit x.readRequest
        (.read (x.raise (x.bit pin)).address 1 (.holding [(x.raise (x.bit pin)).latch])) false
      rw [Command.fixedIf_false] at hcases
      simp only [Expander.readPin, Expander.mask_of_owned hown, Bus.read, hkept]
      rw [Command.reading_of_le _ (by simp [Buffer.capacity]) (by simp [Buffer.capacity])]
      rcases hcases with ⟨hb, hb'⟩ | ⟨b, b', hb, hb', htwin⟩
      · rw [hb, hb']
        exact .none
      · rw [hb, hb']
        rcases htwin.wait_cases hR x.readRequest limit with
          ⟨hw, hw'⟩ | ⟨status, b₁, b₁', hw, hw', htwin₁⟩
        · simp only [Option.bind_eq_bind, Option.bind_some, hw, hw', Option.bind_none,
            Option.map_none]
          exact .none
        · simp only [Option.bind_eq_bind, Option.bind_some, hw, hw']
          cases hstatus : status.toExcept with
          | error status =>
            exact answers_some (Call.marks_of_granted rfl hgives)
              ⟨htwin₁, rfl, h.completions_eq⟩
          | ok u =>
            obtain ⟨-, hidle, -⟩ := Bus.path_wait hw
            have hlevel : Expander.levelOf (b₁'.requests x.readRequest) (x.bit pin) =
                Expander.levelOf (b₁.requests x.readRequest) (x.bit pin) := by
              rw [htwin₁.requests_eq, levelOf_fixedIf]
            have hhigh := Expander.levelOf_of_idle hidle (x.bit pin)
            simp only [hlevel, hhigh]
            exact answers_some (Call.marks_of_granted rfl hgives)
              ⟨htwin₁, rfl, h.completions_eq⟩

omit [Platform σ] in
theorem answers_poll (h : s.Twin R f s') (m : Nat) (hF : ∀ reply, F reply = f) :
    Answers R F (some (s.poll m)) (some (s'.poll m)) := by
  have hpoll (r : RequestId) := h.bus.poll r m
  cases hm : s.completions[m]? with
  | none =>
    simp only [poll, h.completions_eq, hm]
    exact answers_some (hF _) h
  | some c =>
    obtain ⟨r, resolved⟩ := c
    cases resolved with
    | true =>
      simp only [poll, h.completions_eq, hm]
      exact answers_some (hF _) h
    | false =>
      simp only [poll, h.completions_eq, hm, (hpoll r).1]
      cases (s.bus.poll r m).1 with
      | none => exact answers_some (hF _) (h.withBus (hpoll r).2)
      | some status => exact answers_some (hF _) ⟨(hpoll r).2, h.expanders_eq, rfl⟩

theorem answers_perform (hR : Blind R) (h : s.Twin R f s') (hs : s.bus.Coherent) (limit : Nat)
    (c : Call) :
    Answers R (c.marks s.expanders f c) (s.perform limit c) (s'.perform limit c) := by
  have hkept (hgives : c.gives s.expanders = none) (reply : Reply) :
      c.marks s.expanders f c reply = f := Call.marks_of_gives_none hgives reply
  have hrefused (e : Error) : c.marks s.expanders f c (.error e) = f := Call.marks_of_refused rfl
  cases c with
  | bringUp => exact answers_some (hkept rfl _) (h.withBus (h.bus.bringUp hR))
  | shutDown => exact answers_attempt h (hkept rfl _) hrefused (h.bus.shutDown_alike hR)
  | setClock hz => exact answers_some (hkept rfl _) (h.withBus (h.bus.setClock hR hz))
  | setTimeout t => exact answers_some (hkept rfl _) (h.withBus (h.bus.setTimeout t))
  | tick => exact answers_some (hkept rfl _) (h.withBus (h.bus.tick hR))
  | handleEvent => exact answers_some (hkept rfl _) (h.withBus (h.bus.handleEvent hR))
  | submit r => exact answers_attempt h (hkept rfl _) hrefused (h.bus.submit_alike hR r)
  | write r address data =>
    exact answers_place hR h hs limit r _ (Call.marks_of_granted rfl rfl) hrefused
  | writeFixed r address data =>
    exact answers_place hR h hs limit r _ (Call.marks_of_granted rfl rfl) hrefused
  | read r address length lead =>
    exact answers_place hR h hs limit r _ (Call.marks_of_granted rfl rfl) hrefused
  | setWrite r address data =>
    exact answers_attempt h (Call.marks_of_granted rfl rfl) hrefused
      (h.bus.setUp_alike hs r (Command.copying address data))
  | setWriteFixed r address data =>
    exact answers_attempt h (Call.marks_of_granted rfl rfl) hrefused
      (h.bus.configure_alike hs r (.writeFixed address data) false)
  | setRead r address length lead =>
    exact answers_attempt h (Call.marks_of_granted rfl rfl) hrefused
      (h.bus.setUp_alike hs r (Command.reading address length lead))
  | readInto r out =>
    have hread : s'.readInto r out = s.readInto r out := by
      rw [readInto, readInto, h.bus.requests_eq]
      rfl
    rw [perform, perform, hread]
    exact answers_some (hkept rfl _) h
  | wait r =>
    rw [perform, perform]
    rcases h.bus.wait_cases hR r limit with ⟨hw, hw'⟩ | ⟨status, b, b', hw, hw', htwin⟩
    · rw [hw, hw']
      exact .none
    · rw [hw, hw']
      exact answers_some (hkept rfl _) (h.withBus htwin)
  | complete r =>
    rw [perform, perform, h.completions_eq]
    exact answers_some (hkept rfl _) ⟨h.bus, h.expanders_eq, rfl⟩
  | poll m => exact answers_poll h m (hkept rfl)
  | selectClock i =>
    simp only [perform, h.expanders_eq]
    cases s.expanders[i]? with
    | none => exact answers_some (hkept rfl _) h
    | some x => exact answers_some (hkept rfl _) (h.withBus (h.bus.setClock hR _))
  | describePins i => exact answers_some (hkept rfl _) h
  | ownsPin i pin =>
    simp only [perform, h.expanders_eq]
    cases s.expanders[i]? with
    | none => exact answers_some (hkept rfl _) h
    | some x => exact answers_some (hkept rfl _) h
  | writePin i pin level => exact answers_writePin hR h hs limit i pin level
  | readPin i pin => exact answers_readPin hR h hs limit i pin

/-- A move and its replacement are answered the same. -/
theorem answers_move (hR : Blind R) (h : s.Twin R f s') (hs : s.bus.Coherent) {m m' : Move σ}
    (hm : m.Replaces R m') :
    Answers R (m.marks s.expanders f m') (s.move m) (s'.move m') := by
  cases hm with
  | same limit c => exact answers_perform hR h hs limit c
  | shift hp =>
    exact answers_some rfl (h.withBus { h.bus with platform := hp })
  | @write limit r address data hle =>
    have hrequest := answers_request (F := (Call.write r address data).marks s.expanders f
      (.writeFixed r address data)) hR h hs limit r (.write address (.holding data)) true
      (Call.marks_of_granted rfl rfl)
    rw [Command.fixed_write_holding address hle, ← Command.copying_of_le address hle] at hrequest
    exact hrequest
  | @setWrite limit r address data hle =>
    have hconfigure := h.bus.configure_alike hs r (.write address (.holding data)) true
    rw [Command.fixed_write_holding address hle] at hconfigure
    have hattempt := answers_attempt (F := (Call.setWrite r address data).marks s.expanders f
      (.setWriteFixed r address data)) h (Call.marks_of_granted rfl rfl)
      (fun e => Call.marks_of_refused rfl) hconfigure
    have hcopied : Command.copying address data = .ok (.write address (.holding data)) :=
      Command.copying_of_le address hle
    change Answers R _ (some (s.attempt (Command.copying address data >>= s.bus.configure r))) _
    rw [hcopied]
    exact hattempt

theorem twin_run (hR : Blind R) (h : s.Twin R f s') (hs : s.bus.Coherent) {ms ms' : List (Move σ)}
    (hms : List.Forall₂ (Move.Replaces R) ms ms') :
    Option.Rel (fun x x' => x.1 = x'.1 ∧
        x.2.Twin R (replacedMarks s.expanders f ms ms' x.1) x'.2) (s.run ms) (s'.run ms') := by
  induction hms generalizing s s' f with
  | nil => exact .some ⟨rfl, h⟩
  | @cons m m' ms ms' hm hms ih =>
    rw [run, run]
    refine rel_bind (answers_move hR h hs hm) fun x x' hx _ hfirst => ?_
    obtain ⟨hreply, htwin⟩ := hfirst
    refine rel_bind (ih htwin (coherent_move hx hs)) fun y y' _ _ hrest => ?_
    obtain ⟨hreplies, hend⟩ := hrest
    have hmoved := expanders_move hx
    rw [hmoved] at hend
    exact .some ⟨congrArg₂ _ hreply hreplies, hend⟩

/-- Of two runs that differ in where the bytes of some writes are kept, either neither returns or
both do. They are answered the same, the hardware gets the same answers, and in the end nothing
differs but the kind of the writes that were replaced. -/
theorem copied_or_fixed (hR : Blind R) (platform : σ) (config : Config) (xs : List Expander)
    {ms ms' : List (Move σ)} (hms : List.Forall₂ (Move.Replaces R) ms ms') :
    (create platform config xs).run ms = none ∧ (create platform config xs).run ms' = none ∨
      ∃ replies s s', (create platform config xs).run ms = some (replies, s) ∧
        (create platform config xs).run ms' = some (replies, s') ∧
        s.Twin R (replacedMarks xs .none ms ms' replies) s' ∧
        s'.bus.history.filterMap Event.answers? = s.bus.history.filterMap Event.answers? := by
  have hfresh : (create platform config xs).Twin R .none (create platform config xs) :=
    ⟨⟨hR.refl platform, rfl, fun _ => rfl, rfl, rfl, rfl, rfl, .nil⟩, rfl, rfl⟩
  have hrun := twin_run hR hfresh (Bus.coherent_create platform config) hms
  generalize (create platform config xs).run ms = x at hrun
  generalize (create platform config xs).run ms' = x' at hrun
  cases hrun with
  | none => exact .inl ⟨rfl, rfl⟩
  | @some x x' h =>
    obtain ⟨replies, s⟩ := x
    obtain ⟨replies', s'⟩ := x'
    obtain ⟨rfl, htwin⟩ := h
    exact .inr ⟨replies, s, s', rfl, rfl, htwin, htwin.bus.history.filterMap_answers?⟩

def scriptedBench : Bench := (Bench.create 0 0).adjust (.script 0x20 [[.send 2, .complete .ok]])

def copyingMoves : List (Move Bench) :=
  [.shift scriptedBench, .call 0 (.setWrite 1 0x20 [1, 2]), .call 0 (.submit 1),
    .call 0 (.write 2 0x21 [3]), .call 0 .handleEvent]

def mixedMoves : List (Move Bench) :=
  [.shift scriptedBench, .call 0 (.setWriteFixed 1 0x20 [1, 2]), .call 0 (.submit 1),
    .call 0 (.write 2 0x21 [3]), .call 0 .handleEvent]

theorem copied_or_fixed_mixed :
    ∃ replies s s',
      (create (Bench.create 0 0) Config.standard []).run copyingMoves = some (replies, s) ∧
      (create (Bench.create 0 0) Config.standard []).run mixedMoves = some (replies, s') ∧
      s.Twin Bench.Alike ((Marks.none.set 1 true).set 2 false) s' := by
  have hms : List.Forall₂ (Move.Replaces Bench.Alike) copyingMoves mixedMoves :=
    .cons (.shift ((Bench.Alike.refl _).adjust _)) (.cons (.setWrite 0 1 0x20 (by decide))
      (.cons (.same 0 _) (.cons (.same 0 _) (.cons (.same 0 _) .nil))))
  have hreplies : ((create (Bench.create 0 0) Config.standard []).run copyingMoves).map Prod.fst =
      some [.done, .ok, .ok, .ok, .done] := rfl
  rcases copied_or_fixed Bench.blind (Bench.create 0 0) Config.standard [] hms with
    ⟨hrun, -⟩ | ⟨replies, s, s', hrun, hrun', htwin, -⟩
  · rw [hrun] at hreplies
    cases hreplies
  · rw [hrun] at hreplies
    obtain rfl := Option.some.inj hreplies
    exact ⟨_, s, s', hrun, hrun', htwin⟩

end System

end SharedBus
