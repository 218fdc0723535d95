import SharedBus.Bench
import SharedBus.Proofs.Run

/-!
# Refusals are exact and change nothing

Each call that can be turned down makes its checks in a fixed order before it changes
anything. It is turned down for the first check that fails, and then the system is as it was
before the call; if none fails it succeeds. Calls that wait check lengths alone, and only
after the wait: by then their request is not pending.
-/

namespace SharedBus

def Error.tooLong? (length : Nat) : Option Error :=
  if Buffer.capacity < length then some (.bufferTooLong length Buffer.capacity) else none

theorem Error.tooLong?_ne_pending (length : Nat) : tooLong? length ≠ some .pending := by
  unfold tooLong?
  split <;> simp

def Error.inUse? (queued : Nat) : Option Error :=
  if 0 < queued then some (.inUse queued) else none

def refusal? {α : Type} : Except Error α → Option Error
  | .ok _ => none
  | .error e => some e

namespace Command

theorem refusal?_copying (address : UInt8) (data : List UInt8) :
    refusal? (copying address data) = Error.tooLong? data.length := by
  by_cases h : Buffer.capacity < data.length
  · rw [copying_of_gt address h, Error.tooLong?, if_pos h, refusal?]
  · rw [copying_of_le address (Nat.le_of_not_lt h), Error.tooLong?, if_neg h, refusal?]

theorem refusal?_reading (address : UInt8) (length : Nat) (lead : List UInt8) :
    refusal? (reading address length lead) =
      (Error.tooLong? length).or (Error.tooLong? lead.length) := by
  by_cases hn : Buffer.capacity < length
  · rw [reading_of_gt address lead hn, Error.tooLong?, if_pos hn]
    rfl
  have hn' := Nat.le_of_not_lt hn
  rw [Error.tooLong?, if_neg hn, Option.none_or]
  by_cases hl : Buffer.capacity < lead.length
  · rw [reading_of_lead_gt address hn' hl, Error.tooLong?, if_pos hl, refusal?]
  · rw [reading_of_le address hn' (Nat.le_of_not_lt hl), Error.tooLong?, if_neg hl, refusal?]

end Command

namespace Bus

variable {σ : Type} {b : Bus σ} {r : RequestId}

def busy? (b : Bus σ) (r : RequestId) : Option Error := if b.isBusy r then some .pending else none

theorem busy?_of_pending (h : (b.requests r).status = .pending) : b.busy? r = some .pending :=
  if_pos (Status.isPending_iff.2 h)

theorem busy?_of_idle (h : (b.requests r).status ≠ .pending) : b.busy? r = none :=
  if_neg (by simpa [isBusy] using h)

/-- The command is checked before the request. -/
theorem refusal?_configure (b : Bus σ) (r : RequestId) (command : Except Error Command) :
    refusal? (command >>= b.configure r) = (refusal? command).or (b.busy? r) := by
  cases command with
  | error e => rfl
  | ok c =>
    by_cases h : (b.requests r).status = .pending
    · rw [busy?_of_pending h]
      exact congrArg refusal? (configure_of_pending h c)
    · rw [busy?_of_idle h]
      exact congrArg refusal? (configure_of_idle h c)

variable [Platform σ]

theorem refusal?_submit (b : Bus σ) (r : RequestId) : refusal? (b.submit r) = b.busy? r := by
  by_cases h : (b.requests r).status = .pending
  · rw [submit_of_pending h, busy?_of_pending h, refusal?]
  · rw [submit_of_idle h, busy?_of_idle h, refusal?]

theorem Coherent.refusal?_shutDown (h : b.Coherent) :
    refusal? b.shutDown = Error.inUse? b.queue.toList.length := by
  rw [← h.queued_eq]
  by_cases hq : b.queued = 0
  · rw [shutDown_of_empty hq, hq]
    rfl
  · rw [shutDown_of_queued hq, Error.inUse?, if_pos (Nat.pos_of_ne_zero hq), refusal?]

end Bus

namespace System

variable {σ : Type} [Platform σ] {s s' : System σ} {limit : Nat} {c : Call}

/-- The call fails with the error `refusal`, if there is one, and leaves `kept`, and succeeds if
there is none. -/
structure Checks (s : System σ) (limit : Nat) (c : Call) (refusal : Option Error)
    (kept : System σ) : Prop where
  error_iff : ∀ e s', s.perform limit c = some (.error e, s') ↔ refusal = some e ∧ s' = kept
  ok_iff : (∃ s', s.perform limit c = some (.ok, s')) ↔ refusal = none

/-- The call waits for `r` and makes its check then. What it leaves when it fails is what the wait
has left. -/
structure WaitsThenChecks (s : System σ) (limit : Nat) (r : RequestId) (c : Call)
    (refusal : Option Error) : Prop where
  none_of_no_wait : s.bus.wait r limit = none → s.perform limit c = none
  checks : ∀ status b, s.bus.wait r limit = some (status, b) →
    s.Checks limit c refusal (s.withBus b)
  not_pending : ∀ s', s.perform limit c ≠ some (.error .pending, s')

/-- The call to a pin of a device finds it invalid exactly when the device does not own it, and
changes nothing then. -/
def ChecksPin (s : System σ) (c : Call) (device : Nat) (pin : UInt16) : Prop :=
  ∀ x, s.expanders[device]? = some x → ∀ limit p s',
    s.perform limit c = some (.pinError (.invalidPin p), s') ↔
      x.owns pin = false ∧ p = pin ∧ s' = s

theorem Checks.of_error {e : Error} {kept : System σ}
    (h : s.perform limit c = some (.error e, kept)) : s.Checks limit c (some e) kept := by
  constructor
  · intro e' s'
    rw [h]
    constructor
    · intro he
      cases he
      exact ⟨rfl, rfl⟩
    · rintro ⟨he, rfl⟩
      cases he
      rfl
  · rw [h]
    constructor
    · rintro ⟨s', hs'⟩
      cases hs'
    · intro hnone
      cases hnone

theorem Checks.of_ok (h : s.perform limit c = some (.ok, s')) (kept : System σ) :
    s.Checks limit c none kept := by
  constructor
  · intro e s'
    rw [h]
    constructor
    · intro he
      cases he
    · rintro ⟨he, -⟩
      cases he
  · rw [h]
    exact ⟨fun _ => rfl, fun _ => ⟨_, rfl⟩⟩

theorem checks_attempt {result : Except Error (Bus σ)}
    (h : s.perform limit c = some (s.attempt result)) : s.Checks limit c (refusal? result) s := by
  cases result with
  | error e => exact .of_error h
  | ok b => exact .of_ok h s

theorem waitsThenChecks_request {r : RequestId} {command : Except Error Command}
    (h : s.perform limit c = (s.bus.request limit r command).map fun (result, b) =>
      (Reply.ofResult result, s.withBus b))
    (hcommand : refusal? command ≠ some .pending) :
    s.WaitsThenChecks limit r c (refusal? command) := by
  have hnone (hw : s.bus.wait r limit = none) : s.perform limit c = none := by
    rw [h, Bus.request_of_no_wait hw, Option.map_none]
  have hchecks (status : Status) (b : Bus σ) (hw : s.bus.wait r limit = some (status, b)) :
      s.Checks limit c (refusal? command) (s.withBus b) := by
    cases command with
    | error e =>
      rw [Bus.request_error hw] at h
      exact .of_error h
    | ok c' =>
      rw [Bus.request_ok hw] at h
      exact .of_ok h _
  refine ⟨hnone, hchecks, fun s' hs' => ?_⟩
  cases hw : s.bus.wait r limit with
  | none =>
    rw [hnone hw] at hs'
    cases hs'
  | some x => exact hcommand (((hchecks x.1 x.2 hw).error_iff _ s').1 hs').1

theorem perform_readInto_of_idle {r : RequestId} (h : (s.bus.requests r).status ≠ .pending)
    (limit : Nat) (out : List UInt8) :
    ∃ n out', s.perform limit (.readInto r out) = some (.copied n out', s) := by
  rw [perform, readInto, Request.readInto, if_neg (by simpa using h)]
  exact ⟨_, _, rfl⟩

theorem notCopied_iff {r : RequestId} {out out' : List UInt8} {e : Error} :
    s.perform limit (.readInto r out) = some (.notCopied e out', s') ↔
      s.bus.busy? r = some e ∧ out' = out ∧ s' = s := by
  by_cases hr : (s.bus.requests r).status = .pending
  · rw [perform, readInto, Request.readInto_of_pending hr, Bus.busy?_of_pending hr]
    constructor
    · intro he
      cases he
      exact ⟨rfl, rfl, rfl⟩
    · rintro ⟨he, rfl, rfl⟩
      cases he
      rfl
  · obtain ⟨n, copied, hread⟩ := perform_readInto_of_idle hr limit out
    rw [hread, Bus.busy?_of_idle hr]
    constructor
    · intro he
      cases he
    · rintro ⟨he, -⟩
      cases he

theorem copied_iff {r : RequestId} {out : List UInt8} :
    (∃ n out', s.perform limit (.readInto r out) = some (.copied n out', s)) ↔
      s.bus.busy? r = none := by
  by_cases hr : (s.bus.requests r).status = .pending
  · rw [perform, readInto, Request.readInto_of_pending hr, Bus.busy?_of_pending hr]
    constructor
    · rintro ⟨n, out', he⟩
      cases he
    · intro hnone
      cases hnone
  · rw [Bus.busy?_of_idle hr]
    exact iff_of_true (perform_readInto_of_idle hr limit out) rfl

/-! ### Pins -/

theorem checksPin_of {i : Nat} {pin : UInt16} {α : Type} {f : α → Reply}
    {g : Nat → Expander → Option (α × Expander × Bus σ)}
    (hperform : ∀ limit x, s.expanders[i]? = some x → s.perform limit c =
      (g limit x).map fun (a, x, b) =>
        (f a, { s with bus := b, expanders := s.expanders.set i x }))
    (howned : ∀ limit x y, x.owns pin = true → g limit x = some y →
      ∀ p, f y.1 ≠ .pinError (.invalidPin p))
    (hother : ∀ limit x, x.owns pin = false →
      ∃ a, g limit x = some (a, x, s.bus) ∧ f a = .pinError (.invalidPin pin)) :
    s.ChecksPin c i pin := by
  intro x hx limit p s'
  rw [hperform limit x hx]
  cases hown : x.owns pin with
  | true =>
    constructor
    · intro hinvalid
      obtain ⟨y, hy, hreply⟩ := Option.map_eq_some_iff.1 hinvalid
      exact absurd (congrArg Prod.fst hreply) (howned limit x y hown hy p)
    · rintro ⟨hnot, -⟩
      cases hnot
  | false =>
    obtain ⟨a, ha, hinvalid⟩ := hother limit x hown
    have hset : s.expanders.set i x = s.expanders := by
      have hsame : (s.expanders.set i x).map id = s.expanders.map id := map_set_of_eq hx rfl
      simpa using hsame
    simp only [ha, Option.map_some, hinvalid, hset]
    constructor
    · intro he
      cases he
      exact ⟨trivial, rfl, rfl⟩
    · rintro ⟨-, rfl, rfl⟩
      rfl

theorem checksPin_writePin (s : System σ) (i : Nat) (pin : UInt16) (level : Bool) :
    s.ChecksPin (.writePin i pin level) i pin := by
  refine checksPin_of (f := Reply.ofWritePin)
    (g := fun limit x => x.writePin limit pin level s.bus) (fun limit x hx => ?_)
    (fun limit x y hown hy p => ?_) fun limit x hown => ⟨.error (.invalidPin pin), ?_, rfl⟩
  · simp only [perform, writePin, hx]
  · obtain ⟨result, x', b⟩ := y
    rcases Expander.writePin_eq_some hy with ⟨hnot, -⟩ | ⟨-, rfl, -⟩
    · rw [hown] at hnot
      cases hnot
    · exact fun he => by cases he
  · simp only [Expander.writePin, Expander.mask_of_not_owned hown]

theorem checksPin_readPin (s : System σ) (i : Nat) (pin : UInt16) :
    s.ChecksPin (.readPin i pin) i pin := by
  refine checksPin_of (f := Reply.ofReadPin) (g := fun limit x => x.readPin limit pin s.bus)
    (fun limit x hx => ?_) (fun limit x y hown hy p => ?_)
    fun limit x hown => ⟨.error (.invalidPin pin), ?_, rfl⟩
  · simp only [perform, readPin, hx]
  · obtain ⟨result, x', b⟩ := y
    rcases Expander.readPin_eq_some hy with ⟨hnot, -⟩ | ⟨-, ⟨high, rfl⟩ | ⟨status, rfl⟩, -⟩
    · rw [hown] at hnot
      cases hnot
    · exact fun he => by cases he
    · exact fun he => by cases he
  · simp only [Expander.readPin, Expander.mask_of_not_owned hown]

structure ErrorsExact (s : System σ) : Prop where
  setWrite : ∀ limit r address data, s.Checks limit (.setWrite r address data)
    ((Error.tooLong? data.length).or (s.bus.busy? r)) s
  setWriteFixed : ∀ limit r address data, s.Checks limit (.setWriteFixed r address data)
    (s.bus.busy? r) s
  setRead : ∀ limit r address length lead, s.Checks limit (.setRead r address length lead)
    ((Error.tooLong? length).or ((Error.tooLong? lead.length).or (s.bus.busy? r))) s
  submit : ∀ limit r, s.Checks limit (.submit r) (s.bus.busy? r) s
  shutDown : ∀ limit, s.Checks limit .shutDown (Error.inUse? s.bus.queue.toList.length) s
  readInto : ∀ limit r out,
    (∀ e out' s', s.perform limit (.readInto r out) = some (.notCopied e out', s') ↔
      s.bus.busy? r = some e ∧ out' = out ∧ s' = s) ∧
    ((∃ n out', s.perform limit (.readInto r out) = some (.copied n out', s)) ↔
      s.bus.busy? r = none)
  writePin : ∀ i pin level, s.ChecksPin (.writePin i pin level) i pin
  readPin : ∀ i pin, s.ChecksPin (.readPin i pin) i pin
  write : ∀ limit r address data, s.WaitsThenChecks limit r (.write r address data)
    (Error.tooLong? data.length)
  writeFixed : ∀ limit r address data, s.WaitsThenChecks limit r (.writeFixed r address data) none
  read : ∀ limit r address length lead, s.WaitsThenChecks limit r (.read r address length lead)
    ((Error.tooLong? length).or (Error.tooLong? lead.length))

/-- After every run each call that can be turned down is so exactly for the reasons told. -/
theorem errors_exact {platform : σ} {config : Config} {xs : List Expander}
    {ms : List (Move σ)} {replies : List Reply}
    (h : (create platform config xs).run ms = some (replies, s)) : s.ErrorsExact := by
  have hs : s.bus.Coherent := coherent_run h (Bus.coherent_create platform config)
  constructor
  case setWrite =>
    intro limit r address data
    rw [← Command.refusal?_copying address, ← Bus.refusal?_configure]
    exact checks_attempt rfl
  case setWriteFixed =>
    intro limit r address data
    have hconfigure := s.bus.refusal?_configure r (.ok (.writeFixed address data))
    rw [refusal?, Option.none_or] at hconfigure
    rw [← hconfigure]
    exact checks_attempt rfl
  case setRead =>
    intro limit r address length lead
    rw [← Option.or_assoc, ← Command.refusal?_reading address, ← Bus.refusal?_configure]
    exact checks_attempt rfl
  case submit =>
    intro limit r
    rw [← Bus.refusal?_submit]
    exact checks_attempt rfl
  case shutDown =>
    intro limit
    rw [← hs.refusal?_shutDown]
    exact checks_attempt rfl
  case readInto =>
    intro limit r out
    exact ⟨fun _ _ _ => notCopied_iff, copied_iff⟩
  case writePin => exact s.checksPin_writePin
  case readPin => exact s.checksPin_readPin
  case write =>
    intro limit r address data
    have hcommand := Command.refusal?_copying address data
    rw [← hcommand]
    refine waitsThenChecks_request rfl ?_
    rw [hcommand]
    exact Error.tooLong?_ne_pending _
  case writeFixed =>
    intro limit r address data
    have hrequest : s.WaitsThenChecks limit r (.writeFixed r address data)
        (refusal? (.ok (Command.writeFixed address data))) :=
      waitsThenChecks_request rfl (by simp [refusal?])
    exact hrequest
  case read =>
    intro limit r address length lead
    have hcommand := Command.refusal?_reading address length lead
    rw [← hcommand]
    refine waitsThenChecks_request rfl fun hpending => ?_
    rw [hcommand, Option.or_eq_some_iff] at hpending
    rcases hpending with hlength | ⟨-, hlead⟩
    · exact Error.tooLong?_ne_pending length hlength
    · exact Error.tooLong?_ne_pending lead.length hlead

/-- Of two lengths past the limit the read's is reported, although the request is pending. -/
theorem errors_exact_pending :
    ∃ replies s, (create (Bench.create 0 0) Config.standard [.attach 0x20 8 4 2 3]).run
        [.call 0 .bringUp, .call 0 (.submit 1)] = some (replies, s) ∧
      s.perform 0 (.setRead 1 0x48 33 (List.replicate 40 0)) =
        some (.error (.bufferTooLong 33 32), s) ∧
      s.perform 0 (.setRead 1 0x48 32 []) = some (.error .pending, s) ∧
      s.perform 0 .shutDown = some (.error (.inUse 1), s) ∧
      s.perform 0 (.writePin 0 12 true) = some (.pinError (.invalidPin 12), s) := by
  have hrun : ∃ replies s x, (create (Bench.create 0 0) Config.standard [.attach 0x20 8 4 2 3]).run
        [.call 0 .bringUp, .call 0 (.submit 1)] = some (replies, s) ∧
      s.bus.isBusy 1 = true ∧ s.bus.queue.toList.length = 1 ∧ s.expanders[0]? = some x ∧
      x.owns 12 = false := ⟨_, _, _, rfl, rfl, rfl, rfl, rfl⟩
  obtain ⟨replies, s, x, hrun, hbusy, hqueue, hx, hother⟩ := hrun
  have hexact := errors_exact hrun
  have hpending : s.bus.busy? 1 = some .pending := if_pos hbusy
  refine ⟨replies, s, hrun, ?_, ?_, ?_, ?_⟩
  · exact ((hexact.setRead 0 1 0x48 33 (List.replicate 40 0)).error_iff _ s).2 ⟨rfl, rfl⟩
  · exact ((hexact.setRead 0 1 0x48 32 []).error_iff _ s).2 ⟨hpending, rfl⟩
  · exact ((hexact.shutDown 0).error_iff _ s).2 ⟨by rw [hqueue]; rfl, rfl⟩
  · exact (hexact.writePin 0 12 true x hx 0 12 s).2 ⟨hother, rfl, rfl⟩

end System

end SharedBus
