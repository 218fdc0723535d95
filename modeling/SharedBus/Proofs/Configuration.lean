import SharedBus.Proofs.Jobs

/-!
# What goes on the bus

Each call that sets a request up gives it a job if it is granted, and none if it is
turned down, so the callers know from the replies which jobs were given. What is begun
on the bus is the job that its request was given last, whatever was called between.
-/

namespace SharedBus

def Call.gives (xs : List Expander) : Call → Option (RequestId × Job)
  | .setWrite r address data | .write r address data => some (r, .write address data)
  | .setWriteFixed r address data | .writeFixed r address data =>
      some (r, .writeFixed address data)
  | .setRead r address length lead | .read r address length lead =>
      some (r, .read address length lead)
  | .writePin i pin level => xs[i]?.map fun x =>
      (x.writeRequest, .write x.address [(x.drive (x.bit pin) level).latch])
  | .readPin i pin => xs[i]?.map fun x =>
      (x.readRequest, .read x.address 1 [(x.raise (x.bit pin)).latch])
  | .bringUp | .shutDown | .setClock _ | .setTimeout _ | .tick | .handleEvent | .submit _ |
    .readInto .. | .wait _ | .complete _ | .poll _ | .selectClock _ | .describePins _ |
    .ownsPin .. => none

def Call.latches (xs : List Expander) : Call → List Expander
  | .writePin i pin level => match xs[i]? with
      | none => xs
      | some x => xs.set i (x.drive (x.bit pin) level)
  | .readPin i pin => match xs[i]? with
      | none => xs
      | some x => xs.set i (x.raise (x.bit pin))
  | .bringUp | .shutDown | .setClock _ | .setTimeout _ | .tick | .handleEvent | .submit _ |
    .write .. | .writeFixed .. | .read .. | .setWrite .. | .setWriteFixed .. | .setRead .. |
    .readInto .. | .wait _ | .complete _ | .poll _ | .selectClock _ | .describePins _ |
    .ownsPin .. => xs

theorem Call.gives_writePin {xs : List Expander} {i : Nat} {x : Expander} (hx : xs[i]? = some x)
    (pin : UInt16) (level : Bool) : (Call.writePin i pin level).gives xs =
      some (x.writeRequest, .write x.address [(x.drive (x.bit pin) level).latch]) := by
  rw [gives, hx, Option.map_some]

theorem Call.gives_readPin {xs : List Expander} {i : Nat} {x : Expander} (hx : xs[i]? = some x)
    (pin : UInt16) : (Call.readPin i pin).gives xs =
      some (x.readRequest, .read x.address 1 [(x.raise (x.bit pin)).latch]) := by
  rw [gives, hx, Option.map_some]

def Call.Fits : Call → Prop
  | .setWrite _ _ data | .write _ _ data => data.length ≤ Buffer.capacity
  | .setRead _ _ _ lead | .read _ _ _ lead => lead.length ≤ Buffer.capacity
  | _ => True

section Replies

variable {σ : Type}

def Move.gave? (xs : List Expander) : Move σ → Reply → Option (RequestId × Job)
  | .call _ c, reply => if reply.granted then c.gives xs else none
  | .shift _, _ => none

def Move.latched (xs : List Expander) : Move σ → Reply → List Expander
  | .call _ c, reply => if reply.granted then c.latches xs else xs
  | .shift _, _ => xs

/-- The jobs given, the latest first, as the replies show. Those in `earlier` were given before. -/
def givenJobs (xs : List Expander) (earlier : List (RequestId × Job)) :
    List (Move σ) → List Reply → List (RequestId × Job)
  | m :: ms, reply :: replies =>
      givenJobs (m.latched xs reply) ((m.gave? xs reply).toList ++ earlier) ms replies
  | _, _ => earlier

end Replies

namespace Command

theorem le_of_copying {address : UInt8} {data : List UInt8} {c : Command}
    (h : copying address data = .ok c) : data.length ≤ Buffer.capacity := by
  apply Nat.le_of_not_lt
  intro hlong
  rw [copying_of_gt address hlong] at h
  cases h

theorem le_of_reading {address : UInt8} {length : Nat} {lead : List UInt8} {c : Command}
    (h : reading address length lead = .ok c) :
    length ≤ Buffer.capacity ∧ lead.length ≤ Buffer.capacity := by
  by_cases hn : length ≤ Buffer.capacity
  · refine ⟨hn, Nat.le_of_not_lt fun hlong => ?_⟩
    rw [reading_of_lead_gt address hn hlong] at h
    cases h
  · rw [reading_of_gt address lead (Nat.lt_of_not_le hn)] at h
    cases h

end Command

namespace System

variable {σ : Type} {s s' : System σ} {reply : Reply}

/-- Of what a call has entered only setting up its request gives a job. -/
theorem jobs_entered {c : Call} (hc : reply.granted = true → c.Fits) :
    History.jobs (s.entered c reply).reverse =
      (if reply.granted then c.gives s.expanders else none).toList := by
  cases hg : reply.granted with
  | false => simp [entered, hg]
  | true =>
    have hentered : s.entered c reply = s.intent c := if_pos hg
    have hfits := hc hg
    rw [hentered, if_pos rfl]
    cases c with
    | write r address data | setWrite r address data =>
      have hjob := Command.job_write address hfits
      simp [intent, Call.gives, hjob]
    | read r address length lead | setRead r address length lead =>
      have hjob := Command.job_read address length hfits
      simp [intent, Call.gives, hjob]
    | writePin i pin level =>
      cases hi : s.expanders[i]? with
      | none => simp [intent, hi, Call.gives]
      | some x =>
        have hjob := Command.job_write_byte x.address (x.drive (x.bit pin) level).latch
        simp [intent, hi, Call.gives, hjob]
    | readPin i pin =>
      cases hi : s.expanders[i]? with
      | none => simp [intent, hi, Call.gives]
      | some x =>
        have hjob := Command.job_read_byte x.address 1 (x.raise (x.bit pin)).latch
        simp [intent, hi, Call.gives, hjob]
    | poll i => cases hi : s.completions[i]? <;>
        simp [intent, hi, Call.gives, History.jobs, Event.given?]
    | writeFixed r address data | setWriteFixed r address data =>
      have hjob : (Command.writeFixed address data).job = .writeFixed address data := rfl
      simp [intent, Call.gives, hjob]
    | bringUp | shutDown | setClock | setTimeout | tick | handleEvent | submit | readInto | wait |
      complete | selectClock | describePins | ownsPin => rfl

theorem expanders_attempt {result : Except Error (Bus σ)}
    (h : s.attempt result = (reply, s')) : s'.expanders = s.expanders := by
  cases result <;> cases h <;> rfl

/-- What a call does on the bus alone leaves the devices as they are. -/
theorem expanders_withBus {α : Type} {f : α → Reply} {result : Option (α × Bus σ)}
    (h : result.map (fun (x, b) => (f x, s.withBus b)) = some (reply, s')) :
    s'.expanders = s.expanders := by
  obtain ⟨⟨x, b⟩, -, hreply⟩ := Option.map_eq_some_iff.1 h
  cases hreply
  rfl

theorem expanders_poll {i : Nat} (h : s.poll i = (reply, s')) : s'.expanders = s.expanders := by
  cases hc : s.completions[i]? with
  | none =>
    simp only [poll, hc] at h
    cases h
    rfl
  | some c =>
    obtain ⟨r, resolved⟩ := c
    cases resolved with
    | true =>
      simp only [poll, hc] at h
      cases h
      rfl
    | false =>
      simp only [poll, hc] at h
      cases hs : (s.bus.poll r i).1 <;> simp only [hs] at h <;> cases h <;> rfl

theorem exists_of_attempt_granted {command : Except Error Command}
    {f : Command → Except Error (Bus σ)} (h : s.attempt (command >>= f) = (reply, s'))
    (hg : reply.granted = true) : ∃ c, command = .ok c := by
  cases command with
  | ok c => exact ⟨c, rfl⟩
  | error e =>
    cases h
    cases hg

variable [Platform σ] {limit : Nat}

theorem exists_of_request_granted {r : RequestId} {command : Except Error Command}
    (h : (s.bus.request limit r command).map (fun (result, b) =>
      (Reply.ofResult result, s.withBus b)) = some (reply, s'))
    (hg : reply.granted = true) : ∃ c, command = .ok c := by
  obtain ⟨⟨result, b⟩, hrequest, hreply⟩ := Option.map_eq_some_iff.1 h
  cases hreply
  rcases Bus.request_eq_some hrequest with ⟨c, as, hc, -⟩ | ⟨e, as, -, rfl, -⟩
  · exact ⟨c, hc⟩
  · cases hg

theorem fits_of_granted {c : Call} (h : s.perform limit c = some (reply, s'))
    (hg : reply.granted = true) : c.Fits := by
  cases c with
  | setWrite r address data =>
    obtain ⟨c, hc⟩ := exists_of_attempt_granted (Option.some.inj h) hg
    exact Command.le_of_copying hc
  | setRead r address length lead =>
    obtain ⟨c, hc⟩ := exists_of_attempt_granted (Option.some.inj h) hg
    exact (Command.le_of_reading hc).2
  | write r address data =>
    obtain ⟨c, hc⟩ := exists_of_request_granted h hg
    exact Command.le_of_copying hc
  | read r address length lead =>
    obtain ⟨c, hc⟩ := exists_of_request_granted h hg
    exact (Command.le_of_reading hc).2
  | bringUp | shutDown | setClock | setTimeout | tick | handleEvent | submit | writeFixed |
    setWriteFixed | readInto | wait | complete | poll | selectClock | describePins | ownsPin |
    writePin | readPin => trivial

omit [Platform σ] in
/-- A call on the device `x` leaves `y` in its place when it is granted. -/
theorem expanders_device {i : Nat} {α : Type} {x y : Expander} {f : α → Reply}
    {result : Option (α × Expander × Bus σ)} (hx : s.expanders[i]? = some x)
    (hresult : ∀ a x' b, result = some (a, x', b) →
      (f a).granted = false ∧ x' = x ∨ (f a).granted = true ∧ x' = y)
    (h : result.map (fun (a, x, b) =>
      (f a, { s with bus := b, expanders := s.expanders.set i x })) = some (reply, s')) :
    s'.expanders = if reply.granted then s.expanders.set i y else s.expanders := by
  obtain ⟨⟨a, x', b⟩, hsome, hreply⟩ := Option.map_eq_some_iff.1 h
  cases hreply
  rcases hresult a x' b hsome with ⟨hg, rfl⟩ | ⟨hg, rfl⟩
  · have hset : (s.expanders.set i x').map id = s.expanders.map id := map_set_of_eq hx rfl
    simpa [hg] using hset
  · simp [hg]

theorem expanders_writePin {i : Nat} {pin : UInt16} {level : Bool}
    (h : s.writePin limit i pin level = some (reply, s')) :
    s'.expanders = if reply.granted then (Call.writePin i pin level).latches s.expanders
      else s.expanders := by
  cases hx : s.expanders[i]? with
  | none =>
    simp only [writePin, hx] at h
    cases h
    rfl
  | some x =>
    simp only [writePin, hx] at h
    simp only [Call.latches, hx]
    refine expanders_device hx (fun result x' b hwrite => ?_) h
    rcases Expander.writePin_eq_some hwrite with ⟨-, rfl, rfl, -⟩ | ⟨-, rfl, rfl, -⟩
    · exact .inl ⟨rfl, rfl⟩
    · exact .inr ⟨rfl, rfl⟩

theorem expanders_readPin {i : Nat} {pin : UInt16} (h : s.readPin limit i pin = some (reply, s')) :
    s'.expanders = if reply.granted then (Call.readPin i pin).latches s.expanders
      else s.expanders := by
  cases hx : s.expanders[i]? with
  | none =>
    simp only [readPin, hx] at h
    cases h
    rfl
  | some x =>
    simp only [readPin, hx] at h
    simp only [Call.latches, hx]
    refine expanders_device hx (fun result x' b hread => ?_) h
    rcases Expander.readPin_eq_some hread with ⟨-, rfl, rfl, -⟩ | ⟨-, hresult, rfl, -⟩
    · exact .inl ⟨rfl, rfl⟩
    · rcases hresult with ⟨high, rfl⟩ | ⟨status, rfl⟩
      · exact .inr ⟨rfl, rfl⟩
      · exact .inr ⟨rfl, rfl⟩

theorem expanders_perform {c : Call} (h : s.perform limit c = some (reply, s')) :
    s'.expanders = if reply.granted then c.latches s.expanders else s.expanders := by
  have hquiet (hlatches : c.latches s.expanders = s.expanders)
      (hkept : s'.expanders = s.expanders) :
      s'.expanders = if reply.granted then c.latches s.expanders else s.expanders := by
    rw [hlatches, ite_self, hkept]
  cases c with
  | writePin i pin level => exact expanders_writePin h
  | readPin i pin => exact expanders_readPin h
  | shutDown | submit | setWrite | setWriteFixed | setRead =>
    exact hquiet rfl (expanders_attempt (Option.some.inj h))
  | write | writeFixed | read | wait => exact hquiet rfl (expanders_withBus h)
  | poll i => exact hquiet rfl (expanders_poll (Option.some.inj h))
  | selectClock i | ownsPin i pin =>
    apply hquiet rfl
    cases hx : s.expanders[i]? <;> simp only [perform, hx] at h <;> cases h <;> rfl
  | bringUp | setClock | setTimeout | tick | handleEvent | readInto | complete | describePins =>
    apply hquiet rfl
    cases h
    rfl

theorem expanders_move {m : Move σ} (h : s.move m = some (reply, s')) :
    s'.expanders = m.latched s.expanders reply := by
  cases m with
  | call limit c => exact expanders_perform h
  | shift platform =>
    cases h
    rfl

theorem Leads.jobs_eq {es : List Event} (h : s.Leads es s') :
    History.jobs s'.bus.history = History.jobs es.reverse ++ History.jobs s.bus.history := by
  obtain ⟨as, hpath, rfl⟩ := h.path
  obtain ⟨added, hhistory, hadded⟩ := hpath.grows
  rw [hhistory, History.jobs_append, ← hadded, History.jobs_filter_byCaller]

theorem jobs_move {m : Move σ} (h : s.move m = some (reply, s')) :
    History.jobs s'.bus.history =
      (m.gave? s.expanders reply).toList ++ History.jobs s.bus.history := by
  rw [(leads_move h).jobs_eq]
  cases m with
  | shift platform => rfl
  | call limit c =>
    have hentered : History.jobs (s.enteredBy (.call limit c) reply).reverse = _ :=
      jobs_entered fun hg => fits_of_granted h hg
    rw [hentered, Move.gave?]

/-- The callers know which jobs were given. -/
theorem givenJobs_eq {ms : List (Move σ)} {replies : List Reply}
    (h : s.run ms = some (replies, s')) :
    givenJobs s.expanders (History.jobs s.bus.history) ms replies =
      History.jobs s'.bus.history := by
  induction ms generalizing s replies with
  | nil =>
    cases h
    rfl
  | cons m ms ih =>
    obtain ⟨reply, s₁, rest, hmove, hrun, rfl⟩ := run_cons_eq_some.1 h
    rw [givenJobs, ← expanders_move hmove, ← jobs_move hmove]
    exact ih hrun

/-- The jobs given in a run are those that the replies show. Every transfer that is begun does
the last of them, which its request already had when it was submitted. -/
theorem begun_as_given {platform : σ} {config : Config} {xs : List Expander}
    {ms : List (Move σ)} {replies : List Reply}
    (h : (create platform config xs).run ms = some (replies, s)) :
    History.jobs s.bus.history = givenJobs xs [] ms replies ∧
      (∀ added t h, s.bus.history = added ++ .begun t :: h →
        t.Presents (Job.last t.request (History.jobs h)) ∧
        ∃ between before, h = between ++ .accepted t.request :: before ∧
          History.Spares t.request between ∧
          Job.last t.request (History.jobs h) = Job.last t.request (History.jobs before)) ∧
      ∀ added t' between t h, s.bus.history = added ++ .begun t' :: (between ++ .begun t :: h) →
        t'.request = t.request → (∀ c, .configured t.request c ∉ between) → t' = t := by
  have hs : s.bus.Coherent := coherent_run h (Bus.coherent_create platform config)
  refine ⟨(givenJobs_eq h).symm, fun added t h hsplit => ?_,
    fun added t' between t h hsplit ht hbetween => ?_⟩
  · have hl : History.Lawful (.begun t :: h) := (hsplit ▸ hs.lawful).of_append
    exact hl.presents_begun
  · have hl : History.Lawful (.begun t' :: (between ++ .begun t :: h)) :=
      (hsplit ▸ hs.lawful).of_append
    exact hl.begun_again ht hbetween

/-- Neither the read set up first nor the write that is turned down leaves a trace. -/
theorem begun_as_given_fixed :
    ∃ replies s t h, (create (Bench.create 0 0) Config.standard []).run
        [.call 0 .bringUp, .call 0 (.setRead 1 0x20 4 [1, 2]), .call 0 (.setWriteFixed 1 0x21 [3]),
          .call 0 (.setWrite 1 0x22 (List.replicate 33 0)), .call 0 (.submit 1)] =
        some (replies, s) ∧
      s.bus.history = .begun t :: h ∧ t.Presents (.writeFixed 0x21 [3]) := by
  have hrun : ∃ replies s t h, (create (Bench.create 0 0) Config.standard []).run
        [.call 0 .bringUp, .call 0 (.setRead 1 0x20 4 [1, 2]), .call 0 (.setWriteFixed 1 0x21 [3]),
          .call 0 (.setWrite 1 0x22 (List.replicate 33 0)), .call 0 (.submit 1)] =
        some (replies, s) ∧
      s.bus.history = .begun t :: h ∧
      Job.last t.request (History.jobs h) = .writeFixed 0x21 [3] := ⟨_, _, _, _, rfl, rfl, rfl⟩
  obtain ⟨replies, s, t, h, hrun, hhistory, hjob⟩ := hrun
  obtain ⟨-, hbegun, -⟩ := begun_as_given hrun
  obtain ⟨hpresents, -⟩ := hbegun [] t h hhistory
  exact ⟨replies, s, t, h, hrun, hhistory, hjob ▸ hpresents⟩

end System

end SharedBus
