import SharedBus.Proofs.Act
import SharedBus.System

/-!
# What a call amounts to

On the bus, a call is a path of acts: ticks first where the call waits, then what the
caller asked for if the reply grants it. Of the rest of the system a call changes no
more than what devices have latched and which completions there are.
-/

namespace SharedBus

/-- The call had the effect it was made for. -/
def Reply.granted : Reply → Bool
  | .done | .ok | .status _ | .unresolved | .level _ | .pinError (.bus _) => true
  | .error _ | .copied .. | .notCopied .. | .completion _ | .finished | .owned _ |
    .pinError (.invalidPin _) | .pinError (.request _) | .absent => false

def Call.submits (xs : List Expander) : Call → Option RequestId
  | .submit r | .write r .. | .writeFixed r .. | .read r .. => some r
  | .writePin i .. => xs[i]?.map Expander.writeRequest
  | .readPin i .. => xs[i]?.map Expander.readRequest
  | .bringUp | .shutDown | .setClock _ | .setTimeout _ | .tick | .handleEvent | .setWrite .. |
    .setWriteFixed .. | .setRead .. | .readInto .. | .wait _ | .complete _ | .poll _ |
    .selectClock _ | .describePins _ | .ownsPin .. => none

namespace Expander

def bit (x : Expander) (pin : UInt16) : UInt8 := 1 <<< (pin - x.firstPin).toUInt8

def unlatched (x : Expander) : Expander := { x with latch := 0 }

theorem mask_of_owned {x : Expander} {pin : UInt16} (h : x.owns pin = true) :
    x.mask pin = .ok (x.bit pin) := if_pos h

theorem mask_of_not_owned {x : Expander} {pin : UInt16} (h : x.owns pin = false) :
    x.mask pin = .error (.invalidPin pin) := by
  rw [mask, h]
  rfl

end Expander

/-! ### Paths of the calls on a bus -/

namespace Bus

variable {σ : Type} [Platform σ] {b b' : Bus σ} {r : RequestId}

theorem path_tick (b : Bus σ) : ∃ as, Path b as b.tick ∧ as.filterMap Act.entry = [] := by
  unfold tick
  split
  · exact ⟨[.handleEvent, .checkTimeout], .cons rfl (.single rfl), rfl⟩
  · exact ⟨[.checkTimeout], .single rfl, rfl⟩

theorem path_ticks (b : Bus σ) (n : Nat) :
    ∃ as, Path b as (b.ticks n) ∧ as.filterMap Act.entry = [] := by
  induction n generalizing b with
  | zero => exact ⟨[], .nil b, rfl⟩
  | succ n ih =>
    obtain ⟨as, hpath, has⟩ := b.path_tick
    obtain ⟨as', hpath', has'⟩ := ih b.tick
    refine ⟨as ++ as', hpath.trans hpath', ?_⟩
    rw [List.filterMap_append, has, has', List.append_nil]

theorem path_wait {n : Nat} {s : Status} (h : b.wait r n = some (s, b')) :
    (∃ as, Path b as b' ∧ as.filterMap Act.entry = []) ∧ (b'.requests r).status ≠ .pending ∧
      s = (b'.requests r).status := by
  obtain ⟨k, -, -, hidle, rfl, rfl⟩ := wait_eq_some_iff.1 h
  exact ⟨b.path_ticks k, by simpa [isBusy] using hidle, rfl⟩

def placed (b : Bus σ) (r : RequestId) (c : Command) : Bus σ :=
  (((b.setRequest r ((b.requests r).configured c)).note (.configured r c)).accept r).startNext

theorem place_of_idle (h : (b.requests r).status ≠ .pending) (c : Command) :
    b.place r (.ok c) = .ok (b.placed r c) ∧
      Path b [.configure r c, .submit r] (b.placed r c) := by
  have hconfigure := configure_of_idle h c
  have hidle : (((b.setRequest r ((b.requests r).configured c)).note
      (.configured r c)).requests r).status ≠ .pending := by
    simpa [note, setRequest, Request.configured] using h
  have hsubmit := submit_of_idle hidle
  refine ⟨?_, .cons hconfigure (.single hsubmit)⟩
  change (b.configure r c >>= fun b => b.submit r) = _
  rw [hconfigure]
  exact hsubmit

theorem place_error (e : Error) : b.place r (.error e) = .error e := rfl

theorem request_of_no_wait {limit : Nat} (hw : b.wait r limit = none)
    (command : Except Error Command) : b.request limit r command = none := by
  simp only [request, hw, Option.bind_eq_bind, Option.bind_none]

theorem request_error {limit : Nat} {s : Status} (hw : b.wait r limit = some (s, b')) (e : Error) :
    b.request limit r (.error e) = some (.error e, b') := by
  simp only [request, hw, Option.bind_eq_bind, Option.bind_some, place_error, pure]

/-- The wait sees to it that the request is not pending when it is placed. -/
theorem request_ok {limit : Nat} {s : Status} (hw : b.wait r limit = some (s, b')) (c : Command) :
    b.request limit r (.ok c) = some (.ok (), b'.placed r c) := by
  have hplace := (place_of_idle (path_wait hw).2.1 c).1
  simp only [request, hw, Option.bind_eq_bind, Option.bind_some, hplace, pure]

/-- To wait and then place a request enters no more than to place it. -/
theorem path_request {limit : Nat} {s : Status} (hw : b.wait r limit = some (s, b')) (c : Command) :
    ∃ as, Path b as (b'.placed r c) ∧
      as.filterMap Act.entry = [.configured r c, .accepted r] := by
  obtain ⟨⟨as, hpath, has⟩, hidle, -⟩ := path_wait hw
  obtain ⟨-, hplaced⟩ := place_of_idle hidle c
  refine ⟨as ++ [.configure r c, .submit r], hpath.trans hplaced, ?_⟩
  rw [List.filterMap_append, has]
  rfl

theorem request_ok_eq_some {limit : Nat} {c : Command} {result : Except Error Unit}
    (h : b.request limit r (.ok c) = some (result, b')) :
    ∃ s b₁, b.wait r limit = some (s, b₁) ∧ result = .ok () ∧ b' = b₁.placed r c := by
  cases hw : b.wait r limit with
  | none =>
    rw [request_of_no_wait hw] at h
    cases h
  | some x =>
    rw [request_ok hw] at h
    cases h
    exact ⟨x.1, x.2, rfl, rfl, rfl⟩

/-- A request is placed whenever its command is good. -/
theorem request_eq_some {limit : Nat} {command : Except Error Command} {result : Except Error Unit}
    (h : b.request limit r command = some (result, b')) :
    (∃ c as, command = .ok c ∧ result = .ok () ∧ Path b as b' ∧
      as.filterMap Act.entry = [.configured r c, .accepted r]) ∨
    (∃ e as, command = .error e ∧ result = .error e ∧ Path b as b' ∧
      as.filterMap Act.entry = []) := by
  cases command with
  | error e =>
    cases hw : b.wait r limit with
    | none =>
      rw [request_of_no_wait hw] at h
      cases h
    | some x =>
      rw [request_error hw] at h
      cases h
      obtain ⟨⟨as, hpath, has⟩, -⟩ := path_wait hw
      exact .inr ⟨e, as, rfl, rfl, hpath, has⟩
  | ok c =>
    obtain ⟨s, b₁, hw, rfl, rfl⟩ := request_ok_eq_some h
    obtain ⟨as, hpath, has⟩ := path_request hw c
    exact .inl ⟨c, as, rfl, rfl, hpath, has⟩

end Bus

namespace Expander

variable {σ : Type} [Platform σ] {x x' : Expander} {b b' : Bus σ} {limit : Nat} {pin : UInt16}

/-- Writing an owned pin latches the level and places the latch byte. -/
theorem writePin_of_owned {level : Bool} {result : Except Error Unit} (hown : x.owns pin = true)
    (h : x.writePin limit pin level b = some (result, x', b')) :
    result = .ok () ∧ x' = x.drive (x.bit pin) level ∧
      ∃ s b₁, b.wait x.writeRequest limit = some (s, b₁) ∧ b' = b₁.placed x.writeRequest
        (.write x.address (.holding [(x.drive (x.bit pin) level).latch])) := by
  have hkept : (x.drive (x.bit pin) level).writeRequest = x.writeRequest ∧
      (x.drive (x.bit pin) level).address = x.address := by
    cases level <;> exact ⟨rfl, rfl⟩
  simp only [writePin, mask_of_owned hown, hkept.1, hkept.2] at h
  obtain ⟨⟨outcome, b₁⟩, hwrite, hreturn⟩ := Option.bind_eq_some_iff.1 h
  simp only [pure] at hreturn
  cases hreturn
  rw [Bus.write, Command.copying_of_le x.address (by simp [Buffer.capacity])] at hwrite
  obtain ⟨s, b₂, hwait, rfl, rfl⟩ := Bus.request_ok_eq_some hwrite
  exact ⟨rfl, rfl, s, b₂, hwait, rfl⟩

theorem writePin_eq_some {level : Bool} {result : Except Error Unit}
    (h : x.writePin limit pin level b = some (result, x', b')) :
    (x.owns pin = false ∧ result = .error (.invalidPin pin) ∧ x' = x ∧ b' = b) ∨
    (x.owns pin = true ∧ result = .ok () ∧ x' = x.drive (x.bit pin) level ∧
      ∃ as, b.Path as b' ∧ as.filterMap Act.entry =
        [.configured x.writeRequest (.write x.address (.holding [(x.drive (x.bit pin) level).latch])),
          .accepted x.writeRequest]) := by
  cases hown : x.owns pin with
  | false =>
    simp only [writePin, mask_of_not_owned hown] at h
    cases h
    exact .inl ⟨rfl, rfl, rfl, rfl⟩
  | true =>
    obtain ⟨rfl, rfl, s, b₁, hwait, rfl⟩ := writePin_of_owned hown h
    exact .inr ⟨rfl, rfl, rfl, Bus.path_request hwait _⟩

/-- The level is that of the first byte received. Without one it is low. -/
theorem levelOf_of_idle {q : Request} (h : q.status ≠ .pending) (mask : UInt8) :
    levelOf q mask = .ok (q.received.bytes.headD 0 &&& mask != 0) := by
  have hread : q.readInto [0] = .ok (min 1 q.received.bytes.length,
      q.received.bytes.take (min 1 q.received.bytes.length) ++
        [0].drop (min 1 q.received.bytes.length)) := by
    simp [Request.readInto, h]
  rw [levelOf, hread]
  cases q.received.bytes with
  | nil => rfl
  | cons v rest => simp

/-- Reading an owned pin releases it, places the read and waits for this. The outcome tells how
the transfer ended or else the level. -/
theorem readPin_of_owned {result : Except Error Bool} (hown : x.owns pin = true)
    (h : x.readPin limit pin b = some (result, x', b')) :
    x' = x.raise (x.bit pin) ∧
      ∃ s₁ b₁ s, b.wait x.readRequest limit = some (s₁, b₁) ∧
        (b₁.placed x.readRequest (.read x.address 1 (.holding [(x.raise (x.bit pin)).latch]))).wait
          x.readRequest limit = some (s, b') ∧
        result = if s = .ok then
          .ok ((b'.requests x.readRequest).received.bytes.headD 0 &&& x.bit pin != 0)
        else .error (.bus s) := by
  simp only [readPin, mask_of_owned hown] at h
  obtain ⟨⟨outcome, b₁⟩, hread, hrest⟩ := Option.bind_eq_some_iff.1 h
  rw [Bus.read, Command.reading_of_le _ (by simp [Buffer.capacity]) (by simp [Buffer.capacity])]
    at hread
  obtain ⟨s₁, b₂, hwait₁, rfl, rfl⟩ := Bus.request_ok_eq_some hread
  obtain ⟨⟨s, b₃⟩, hwait, hreturn⟩ := Option.bind_eq_some_iff.1 hrest
  obtain ⟨-, hidle, -⟩ := Bus.path_wait hwait
  simp only [Status.toExcept_eq, pure] at hreturn
  by_cases hs : s = .ok
  · simp only [if_pos hs, levelOf_of_idle hidle] at hreturn
    cases hreturn
    exact ⟨rfl, s₁, b₂, s, hwait₁, hwait, (if_pos hs).symm⟩
  · simp only [if_neg hs] at hreturn
    cases hreturn
    exact ⟨rfl, s₁, b₂, s, hwait₁, hwait, (if_neg hs).symm⟩

/-- Reading an owned pin either yields a level or tells how the transfer ended. -/
theorem readPin_eq_some {result : Except Error Bool}
    (h : x.readPin limit pin b = some (result, x', b')) :
    (x.owns pin = false ∧ result = .error (.invalidPin pin) ∧ x' = x ∧ b' = b) ∨
    (x.owns pin = true ∧ ((∃ high, result = .ok high) ∨ ∃ s, result = .error (.bus s)) ∧
      x' = x.raise (x.bit pin) ∧ ∃ as, b.Path as b' ∧ as.filterMap Act.entry =
        [.configured x.readRequest (.read x.address 1 (.holding [(x.raise (x.bit pin)).latch])),
          .accepted x.readRequest]) := by
  cases hown : x.owns pin with
  | false =>
    simp only [readPin, mask_of_not_owned hown] at h
    cases h
    exact .inl ⟨rfl, rfl, rfl, rfl⟩
  | true =>
    obtain ⟨rfl, s₁, b₁, s, hwait₁, hwait, rfl⟩ := readPin_of_owned hown h
    obtain ⟨as, hplaced, has⟩ := Bus.path_request hwait₁
      (.read x.address 1 (.holding [(x.raise (x.bit pin)).latch]))
    obtain ⟨⟨as', hpath, has'⟩, -⟩ := Bus.path_wait hwait
    refine .inr ⟨rfl, ?_, rfl, as ++ as', hplaced.trans hpath, ?_⟩
    · split
      · exact .inl ⟨_, rfl⟩
      · exact .inr ⟨s, rfl⟩
    · rw [List.filterMap_append, has', List.append_nil, has]

end Expander

namespace System

variable {σ : Type} {s s' : System σ}

/-- What a call enters in the history when it is granted. -/
def intent (s : System σ) : Call → List Event
  | .bringUp => [.broughtUp]
  | .shutDown => [.shutDown]
  | .submit r => [.accepted r]
  | .write r address data => [.configured r (.write address (.holding data)), .accepted r]
  | .writeFixed r address data => [.configured r (.writeFixed address data), .accepted r]
  | .read r address length lead =>
      [.configured r (.read address length (.holding lead)), .accepted r]
  | .setWrite r address data => [.configured r (.write address (.holding data))]
  | .setWriteFixed r address data => [.configured r (.writeFixed address data)]
  | .setRead r address length lead => [.configured r (.read address length (.holding lead))]
  | .poll i => match s.completions[i]? with
      | none => []
      | some c => [.polled c.request i]
  | .writePin i pin level => match s.expanders[i]? with
      | none => []
      | some x => [.configured x.writeRequest
          (.write x.address (.holding [(x.drive (x.bit pin) level).latch])), .accepted x.writeRequest]
  | .readPin i pin => match s.expanders[i]? with
      | none => []
      | some x => [.configured x.readRequest
          (.read x.address 1 (.holding [(x.raise (x.bit pin)).latch])), .accepted x.readRequest]
  | .setClock _ | .setTimeout _ | .tick | .handleEvent | .readInto .. | .wait _ | .complete _ |
    .selectClock _ | .describePins _ | .ownsPin .. => []

def Accounts (s : System σ) (c : Call) : Event → Prop
  | .broughtUp => c = .bringUp
  | .accepted r => c.submits s.expanders = some r
  | .polled r i => s.completions[i]?.map Completion.request = some r
  | .reset | .clockSet _ | .closed | .begun _ | .serviced .. | .shutDown | .configured .. |
    .retired .. | .recovered => True

theorem accounts_of_mem_intent {c : Call} {e : Event} (h : e ∈ s.intent c) : s.Accounts c e := by
  cases c with
  | poll i =>
    cases hi : s.completions[i]? with
    | none => simp [intent, hi] at h
    | some c =>
      obtain rfl : e = .polled c.request i := by simpa [intent, hi] using h
      rw [Accounts, hi, Option.map_some]
  | writePin i | readPin i =>
    cases hx : s.expanders[i]? with
    | none => simp [intent, hx] at h
    | some x =>
      simp only [intent, hx, List.mem_cons, List.not_mem_nil, or_false] at h
      rcases h with rfl | rfl
      · trivial
      · rw [Accounts, Call.submits, hx, Option.map_some]
  | write | writeFixed | read =>
    simp only [intent, List.mem_cons, List.not_mem_nil, or_false] at h
    rcases h with rfl | rfl
    · trivial
    · rfl
  | bringUp | shutDown | submit | setWrite | setWriteFixed | setRead =>
    obtain rfl := List.mem_singleton.1 h
    first | rfl | trivial
  | setClock | setTimeout | tick | handleEvent | readInto | wait | complete | selectClock |
    describePins | ownsPin => cases h

def entered (s : System σ) (c : Call) (reply : Reply) : List Event :=
  if reply.granted then s.intent c else []

theorem entered_of_quiet {c : Call} (h : s.intent c = []) (reply : Reply) :
    s.entered c reply = [] := by
  rw [entered, h, ite_self]

/-- Devices keep all but what they have latched, and completions the requests that they wait
for. -/
structure Keeps (s s' : System σ) : Prop where
  devices : s'.expanders.map Expander.unlatched = s.expanders.map Expander.unlatched
  awaited : s.completions.map Completion.request <+: s'.completions.map Completion.request

theorem Keeps.refl (s : System σ) : s.Keeps s := ⟨rfl, List.prefix_refl _⟩

theorem Keeps.trans {s₁ s₂ s₃ : System σ} (h : s₁.Keeps s₂) (h' : s₂.Keeps s₃) : s₁.Keeps s₃ :=
  ⟨h'.devices.trans h.devices, h.awaited.trans h'.awaited⟩

theorem map_set_of_eq {α β : Type} {f : α → β} {xs : List α} {i : Nat} {x y : α}
    (hx : xs[i]? = some x) (h : f y = f x) : (xs.set i y).map f = xs.map f := by
  obtain ⟨hi, hget⟩ := List.getElem?_eq_some_iff.1 hx
  have hself := @List.set_getElem_self _ (xs.map f) i (by rwa [List.length_map])
  rw [List.getElem_map, hget, ← h] at hself
  rw [List.map_set, hself]

variable [Platform σ]

/-- The bus of `s'` is reached from that of `s` by a path that enters `es`. -/
structure Leads (s : System σ) (es : List Event) (s' : System σ) : Prop extends s.Keeps s' where
  path : ∃ as, s.bus.Path as s'.bus ∧ as.filterMap Act.entry = es

theorem leads_refl (s : System σ) : s.Leads [] s := ⟨.refl s, [], .nil s.bus, rfl⟩

theorem leads_withBus {as : List (Act σ)} {es : List Event} {b : Bus σ}
    (h : s.bus.Path as b) (has : as.filterMap Act.entry = es) : s.Leads es (s.withBus b) :=
  ⟨⟨rfl, List.prefix_refl _⟩, as, h, has⟩

theorem leads_device {as : List (Act σ)} {es : List Event} {b : Bus σ} {i : Nat} {x x' : Expander}
    (hx : s.expanders[i]? = some x) (hx' : x'.unlatched = x.unlatched) (h : s.bus.Path as b)
    (has : as.filterMap Act.entry = es) :
    s.Leads es { s with bus := b, expanders := s.expanders.set i x' } :=
  ⟨⟨map_set_of_eq hx hx', List.prefix_refl _⟩, as, h, has⟩

theorem leads_attempt {a : Act σ} {result : Except Error (Bus σ)} {reply : Reply}
    (hresult : s.bus.act a = result) (h : s.attempt result = (reply, s')) :
    s.Leads (if reply.granted then a.entry.toList else []) s' := by
  cases result with
  | error e =>
    cases h
    exact s.leads_refl
  | ok b =>
    cases h
    apply leads_withBus (.single hresult)
    cases he : a.entry <;> simp [he, Reply.granted]

/-- Setting a request up is turned down by its command or by the request. -/
theorem leads_setUp {r : RequestId} {command : Except Error Command} {c : Command} {reply : Reply}
    (hcommand : ∀ c', command = .ok c' → c' = c)
    (h : s.attempt (command >>= s.bus.configure r) = (reply, s')) :
    s.Leads (if reply.granted then [.configured r c] else []) s' := by
  cases command with
  | error e =>
    cases h
    exact s.leads_refl
  | ok c' =>
    obtain rfl := hcommand c' rfl
    exact leads_attempt (a := .configure r c') rfl h

theorem leads_request {limit : Nat} {r : RequestId} {command : Except Error Command} {c : Command}
    {reply : Reply} (hcommand : ∀ c', command = .ok c' → c' = c)
    (h : (s.bus.request limit r command).map (fun (result, b) =>
      (Reply.ofResult result, s.withBus b)) = some (reply, s')) :
    s.Leads (if reply.granted then [.configured r c, .accepted r] else []) s' := by
  obtain ⟨⟨result, b⟩, hrequest, hreply⟩ := Option.map_eq_some_iff.1 h
  cases hreply
  rcases Bus.request_eq_some hrequest with
    ⟨c', as, hc, rfl, hpath, has⟩ | ⟨e, as, -, rfl, hpath, has⟩
  · obtain rfl := hcommand c' hc
    exact leads_withBus hpath has
  · exact leads_withBus hpath has

theorem leads_poll {i : Nat} {reply : Reply} (h : s.poll i = (reply, s')) :
    s.Leads (s.entered (.poll i) reply) s' := by
  cases hc : s.completions[i]? with
  | none =>
    simp only [poll, hc] at h
    cases h
    exact s.leads_refl
  | some c =>
    obtain ⟨r, resolved⟩ := c
    cases resolved with
    | true =>
      simp only [poll, hc] at h
      cases h
      exact s.leads_refl
    | false =>
      have hpath : s.bus.Path [.poll r i] (s.bus.poll r i).2 := .single rfl
      simp only [poll, hc] at h
      cases hs : (s.bus.poll r i).1 with
      | none =>
        simp only [hs] at h
        cases h
        exact leads_withBus hpath (by simp [entered, intent, hc, Reply.granted, Act.entry])
      | some status =>
        simp only [hs] at h
        cases h
        have hset : (s.completions.set i ⟨r, true⟩).map Completion.request =
            s.completions.map Completion.request := map_set_of_eq hc rfl
        refine ⟨⟨rfl, [], ?_⟩, _, hpath, by simp [entered, intent, hc, Reply.granted, Act.entry]⟩
        rw [List.append_nil, ← hset]

theorem leads_writePin {limit i : Nat} {pin : UInt16} {level : Bool} {reply : Reply}
    (h : s.writePin limit i pin level = some (reply, s')) :
    s.Leads (s.entered (.writePin i pin level) reply) s' := by
  cases hx : s.expanders[i]? with
  | none =>
    simp only [writePin, hx] at h
    cases h
    exact s.leads_refl
  | some x =>
    simp only [writePin, hx] at h
    obtain ⟨⟨result, x', b⟩, hwrite, hreply⟩ := Option.map_eq_some_iff.1 h
    cases hreply
    rcases Expander.writePin_eq_some hwrite with ⟨-, rfl, rfl, rfl⟩ | ⟨-, rfl, rfl, as, hpath, has⟩
    · exact leads_device hx rfl (.nil s.bus) rfl
    · refine leads_device hx ?_ hpath ?_
      · cases level <;> rfl
      · rw [has, entered, intent, hx]
        rfl

theorem leads_readPin {limit i : Nat} {pin : UInt16} {reply : Reply}
    (h : s.readPin limit i pin = some (reply, s')) :
    s.Leads (s.entered (.readPin i pin) reply) s' := by
  cases hx : s.expanders[i]? with
  | none =>
    simp only [readPin, hx] at h
    cases h
    exact s.leads_refl
  | some x =>
    simp only [readPin, hx] at h
    obtain ⟨⟨result, x', b⟩, hread, hreply⟩ := Option.map_eq_some_iff.1 h
    cases hreply
    rcases Expander.readPin_eq_some hread with
      ⟨-, rfl, rfl, rfl⟩ | ⟨-, hresult, rfl, as, hpath, has⟩
    · exact leads_device hx rfl (.nil s.bus) rfl
    · refine leads_device hx rfl hpath ?_
      rcases hresult with ⟨high, rfl⟩ | ⟨status, rfl⟩
      · rw [has, entered, intent, hx]
        rfl
      · rw [has, entered, intent, hx]
        rfl

theorem leads_perform {limit : Nat} {c : Call} {reply : Reply}
    (h : s.perform limit c = some (reply, s')) : s.Leads (s.entered c reply) s' := by
  cases c with
  | bringUp =>
    cases h
    exact leads_withBus (.single (a := .bringUp) rfl) rfl
  | shutDown => exact leads_attempt (a := .shutDown) rfl (Option.some.inj h)
  | setClock hz =>
    cases h
    exact leads_withBus (.single (a := .setClock hz) rfl) rfl
  | setTimeout t =>
    cases h
    exact leads_withBus (.single (a := .setTimeout t) rfl) rfl
  | tick =>
    cases h
    obtain ⟨as, hpath, has⟩ := s.bus.path_tick
    exact leads_withBus hpath has
  | handleEvent =>
    cases h
    exact leads_withBus (.single (a := .handleEvent) rfl) rfl
  | submit r => exact leads_attempt (a := .submit r) rfl (Option.some.inj h)
  | write r address data => exact leads_request (fun _ hc => Command.copying_eq_ok hc) h
  | writeFixed r address data => exact leads_request (fun _ hc => (Except.ok.inj hc).symm) h
  | read r address length lead => exact leads_request (fun _ hc => Command.reading_eq_ok hc) h
  | setWrite r address data =>
    exact leads_setUp (fun _ hc => Command.copying_eq_ok hc) (Option.some.inj h)
  | setWriteFixed r address data =>
    exact leads_attempt (a := .configure r (.writeFixed address data)) rfl (Option.some.inj h)
  | setRead r address length lead =>
    exact leads_setUp (fun _ hc => Command.reading_eq_ok hc) (Option.some.inj h)
  | readInto r out =>
    cases h
    rw [entered_of_quiet rfl]
    exact s.leads_refl
  | wait r =>
    obtain ⟨⟨status, b⟩, hwait, hreply⟩ := Option.map_eq_some_iff.1 h
    cases hreply
    obtain ⟨as, hpath, has⟩ := (Bus.path_wait hwait).1
    exact leads_withBus hpath has
  | complete r =>
    cases h
    refine ⟨⟨rfl, ?_⟩, [], .nil s.bus, rfl⟩
    rw [List.map_append]
    exact List.prefix_append _ _
  | poll i => exact leads_poll (Option.some.inj h)
  | selectClock i =>
    cases hx : s.expanders[i]? with
    | none =>
      simp only [perform, hx] at h
      cases h
      exact s.leads_refl
    | some x =>
      simp only [perform, hx] at h
      cases h
      exact leads_withBus (.single (a := .setClock Config.standardMode) rfl) rfl
  | describePins i =>
    cases h
    exact s.leads_refl
  | ownsPin i pin =>
    cases hx : s.expanders[i]? with
    | none =>
      simp only [perform, hx] at h
      cases h
      exact s.leads_refl
    | some x =>
      simp only [perform, hx] at h
      cases h
      exact s.leads_refl
  | writePin i pin level => exact leads_writePin h
  | readPin i pin => exact leads_readPin h

end System

end SharedBus
