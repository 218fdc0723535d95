import SharedBus.Proofs.ServiceOrder

/-!
# The jobs of requests

A job is what the bus is to do for a request: whenever the request is set up, it is
given a job in place of the one before. A transfer does the job that its request was
given last. From its submission to its transfer a request keeps its job, so what is
begun is what was submitted, and a request that is submitted again without a new job
has the same transfer begun again.
-/

namespace SharedBus

structure Job where
  address : UInt8
  operation : Operation
  data : List UInt8
  /-- How many bytes to receive. -/
  length : Nat
  deriving DecidableEq, Repr

namespace Job

def write (address : UInt8) (data : List UInt8) : Job := ⟨address, .write, data, 0⟩

def writeFixed (address : UInt8) (data : List UInt8) : Job := ⟨address, .writeFixed, data, 0⟩

def read (address : UInt8) (length : Nat) (lead : List UInt8) : Job :=
  ⟨address, if lead = [] then .read else .writeThenRead, lead, length⟩

/-- The job that `r` was given last, where the latest one given comes first. As long as there
is none it is to write nothing to address zero. -/
def last (r : RequestId) : List (RequestId × Job) → Job
  | [] => write 0 []
  | (r', job) :: given => if r' = r then job else last r given

end Job

def Command.job (c : Command) : Job := ⟨c.address, c.operation, c.data, c.readLength⟩

/-- A transfer shows the hardware this job, and all of its data is still to be sent. -/
structure Transfer.Presents (t : Transfer) (job : Job) : Prop where
  address_eq : t.command.address = job.address
  operation_eq : t.command.operation = job.operation
  unsent_eq : t.unsent = job.data
  sendLength_eq : t.command.data.length = job.data.length
  readLength_eq : t.command.readLength = job.length

theorem Transfer.presents_ofCommand (r : RequestId) (c : Command) :
    (Transfer.ofCommand r c).Presents c.job := ⟨rfl, rfl, rfl, rfl, rfl⟩

namespace Command

theorem job_write (address : UInt8) {data : List UInt8} (h : data.length ≤ Buffer.capacity) :
    (write address (.holding data)).job = .write address data := by
  rw [job, Command.data, Buffer.bytes_holding h]
  rfl

theorem job_read (address : UInt8) (length : Nat) {lead : List UInt8}
    (h : lead.length ≤ Buffer.capacity) :
    (read address length (.holding lead)).job = .read address length lead := by
  rw [job, Command.data, operation, Buffer.bytes_holding h]
  cases lead <;> rfl

theorem job_write_byte (address byte : UInt8) :
    (write address (.holding [byte])).job = .write address [byte] :=
  job_write address (by simp [Buffer.capacity])

theorem job_read_byte (address : UInt8) (length : Nat) (byte : UInt8) :
    (read address length (.holding [byte])).job = .read address length [byte] :=
  job_read address length (by simp [Buffer.capacity])

end Command

def Event.given? : Event → Option (RequestId × Job)
  | .configured r c => some (r, c.job)
  | .reset | .clockSet _ | .closed | .begun _ | .serviced .. | .broughtUp | .shutDown |
    .accepted _ | .retired .. | .recovered | .polled .. => none

/-- Only callers give jobs. -/
theorem Event.given?_eq_none {e : Event} (he : e.byCaller = false) : e.given? = none := by
  cases e <;> first | rfl | cases he

/-- Only setting it up changes what a request asks for. -/
theorem Ledger.command_after {l : Ledger} {e : Event} {r : RequestId}
    (he : ∀ c, e ≠ .configured r c) :
    ((l.after e).requests r).command = (l.requests r).command := by
  cases e with
  | configured r' c =>
    have hne : r ≠ r' := by
      rintro rfl
      exact he c rfl
    exact congrArg Request.command (l.requests_setRequest_of_ne _ hne)
  | accepted r' =>
    exact apply_setRequest (q := (l.requests r').armed) Request.command rfl r
  | retired t s =>
    exact apply_setRequest (q := (l.requests t.request).retire t s) Request.command rfl r
  | polled r' m =>
    exact apply_setRequest (q := (l.requests r').listen m) Request.command rfl r
  | reset | clockSet | closed | begun | serviced | broughtUp | shutDown | recovered => rfl

namespace History

def jobs (h : History) : List (RequestId × Job) := h.filterMap Event.given?

@[simp] theorem jobs_nil : jobs [] = [] := rfl

@[simp] theorem jobs_cons_configured (r : RequestId) (c : Command) (h : History) :
    jobs (.configured r c :: h) = (r, c.job) :: jobs h := rfl

@[simp] theorem jobs_cons_accepted (r : RequestId) (h : History) :
    jobs (.accepted r :: h) = jobs h := rfl

theorem jobs_append (added h : History) : jobs (added ++ h) = jobs added ++ jobs h :=
  List.filterMap_append

/-- Only what callers bring about gives jobs. -/
theorem jobs_filter_byCaller (h : History) : jobs (h.filter Event.byCaller) = jobs h :=
  filterMap_filter_byCaller (fun _ => Event.given?_eq_none) h

/-- Jobs given to others do not matter. -/
theorem last_jobs_append {r : RequestId} {added : History}
    (hadded : ∀ e ∈ added, ∀ c, e ≠ .configured r c) (h : History) :
    Job.last r (jobs (added ++ h)) = Job.last r (jobs h) := by
  induction added with
  | nil => rfl
  | cons e added ih =>
    obtain ⟨he, hadded⟩ := List.forall_mem_cons.1 hadded
    have ih := ih hadded
    cases e with
    | configured r' c =>
      have hne : r' ≠ r := by
        rintro rfl
        exact he c rfl
      rw [List.cons_append, jobs_cons_configured, Job.last, if_neg hne, ih]
    | reset | clockSet | closed | begun | serviced | broughtUp | shutDown | accepted | retired |
      recovered | polled => exact ih

theorem command_append {r : RequestId} {added : History}
    (hadded : ∀ e ∈ added, ∀ c, e ≠ .configured r c) (h : History) :
    ((ledger (added ++ h)).requests r).command = ((ledger h).requests r).command := by
  induction added with
  | nil => rfl
  | cons e added ih =>
    obtain ⟨he, hadded⟩ := List.forall_mem_cons.1 hadded
    rw [List.cons_append, ledger_cons, ← ih hadded]
    exact Ledger.command_after he

/-- A request stands for the job that it was given last. -/
theorem job_ledger (r : RequestId) (h : History) :
    ((ledger h).requests r).command.job = Job.last r (jobs h) := by
  induction h with
  | nil => rfl
  | cons e h ih =>
    by_cases he : ∃ c, e = .configured r c
    · obtain ⟨c, rfl⟩ := he
      rw [jobs_cons_configured, Job.last, if_pos rfl, ledger_cons, Ledger.after,
        Ledger.requests_setRequest_self]
      rfl
    · rw [not_exists] at he
      have hjobs : Job.last r (jobs (e :: h)) = Job.last r (jobs h) :=
        @last_jobs_append r [e] (by simpa using he) h
      rw [hjobs, ← ih, ledger_cons, Ledger.command_after he]

/-! ### From the submission to the transfer -/

def Spares (r : RequestId) (between : History) : Prop :=
  ∀ e ∈ between, e.accepted? ≠ some r ∧ e.begun? ≠ some r ∧ ∀ c, e ≠ .configured r c

/-- What waits has been submitted. It has not been submitted again since nor been given a job,
and if it has been begun since, it is in flight. -/
theorem Lawful.exists_submission {h : History} (hl : Lawful h) {r : RequestId}
    (hr : r ∈ (ledger h).waiting) :
    ∃ between before, h = between ++ .accepted r :: before ∧
      (∀ e ∈ between, e.accepted? ≠ some r ∧ ∀ c, e ≠ .configured r c) ∧
      ((∃ e ∈ between, e.begun? = some r) →
        (ledger h).flight.map Transfer.request = some r) := by
  induction h with
  | nil => exact absurd hr List.not_mem_nil
  | cons e h ih =>
    have hstill (hr : r ∈ (ledger h).waiting)
        (he : e.accepted? ≠ some r ∧ ∀ c, e ≠ .configured r c)
        (hflight : e.begun? = some r ∨ (ledger h).flight.map Transfer.request = some r →
          (ledger (e :: h)).flight.map Transfer.request = some r) :
        ∃ between before, e :: h = between ++ .accepted r :: before ∧
          (∀ e ∈ between, e.accepted? ≠ some r ∧ ∀ c, e ≠ .configured r c) ∧
          ((∃ e ∈ between, e.begun? = some r) →
            (ledger (e :: h)).flight.map Transfer.request = some r) := by
      obtain ⟨between, before, hsplit, hbetween, hbegun⟩ := ih hl.2 hr
      refine ⟨e :: between, before, by rw [hsplit, List.cons_append], ?_, ?_⟩
      · exact List.forall_mem_cons.2 ⟨he, hbetween⟩
      · rintro ⟨e', hmem, he'⟩
        apply hflight
        rcases List.mem_cons.1 hmem with rfl | hmem
        · exact .inl he'
        · exact .inr (hbegun ⟨e', hmem, he'⟩)
    cases e with
    | accepted r' =>
      by_cases hr' : r' = r
      · subst r'
        exact ⟨[], h, rfl, by simp, by simp⟩
      · have hwaits : r ∈ (ledger h).waiting := by
          rcases List.mem_append.1 hr with hr | hr
          · exact hr
          · exact absurd (List.mem_singleton.1 hr).symm hr'
        exact hstill hwaits ⟨by simpa [Event.accepted?] using hr', by simp⟩
          (by simp [Event.begun?, Ledger.after, Ledger.setRequest])
    | configured r' c =>
      have hpending : ((ledger h).requests r).status = .pending := hl.2.sound.pending r hr
      have hne : r' ≠ r := by
        rintro rfl
        exact hl.1.2 hpending
      exact hstill hr ⟨by simp [Event.accepted?], by simp [hne]⟩
        (by simp [Event.begun?, Ledger.after, Ledger.setRequest])
    | begun t =>
      have hfree : (ledger h).flight = none := hl.1.1
      exact hstill hr ⟨by simp [Event.accepted?], by simp⟩
        (by simp [Event.begun?, Ledger.after, hfree])
    | serviced t actions t' =>
      obtain ⟨hflight, -, rfl⟩ := hl.1
      exact hstill hr ⟨by simp [Event.accepted?], by simp⟩
        (by simp [Event.begun?, Ledger.after, hflight])
    | retired t s =>
      have hcarries := hl.2.sound.carries _ hl.1.1
      have hnodup := hl.2.sound.nodup
      rw [hcarries.waiting_eq, List.nodup_cons] at hnodup
      have hne : t.request ≠ r := by
        rintro rfl
        exact hnodup.1 hr
      have hflight : (ledger h).flight.map Transfer.request = some t.request :=
        congrArg (Option.map Transfer.request) hl.1.1
      exact hstill (List.mem_of_mem_tail hr) ⟨by simp [Event.accepted?], by simp⟩
        (by simp [Event.begun?, hflight, hne])
    | broughtUp => exact absurd hr List.not_mem_nil
    | reset | clockSet | closed | shutDown | recovered | polled =>
      exact hstill hr ⟨by simp [Event.accepted?], by simp⟩
        (by simp [Event.begun?, Ledger.after, Ledger.setRequest])

theorem Lawful.begun_eq_ofCommand {t : Transfer} {h : History} (hl : Lawful (.begun t :: h)) :
    t = Transfer.ofCommand t.request ((ledger h).requests t.request).command := hl.1.2.2

/-- What is begun is the job given last, the same as when the request was submitted. -/
theorem Lawful.presents_begun {t : Transfer} {h : History} (hl : Lawful (.begun t :: h)) :
    t.Presents (Job.last t.request (jobs h)) ∧
      ∃ between before, h = between ++ .accepted t.request :: before ∧ Spares t.request between ∧
        Job.last t.request (jobs h) = Job.last t.request (jobs before) := by
  obtain ⟨⟨hfree, hhead, ht⟩, hl⟩ := hl
  obtain ⟨between, before, hsplit, hbetween, hbegun⟩ :=
    hl.exists_submission (List.mem_of_mem_head? hhead)
  have hspares : Spares t.request between := by
    intro e he
    refine ⟨(hbetween e he).1, ?_, (hbetween e he).2⟩
    intro hagain
    have hflight := hbegun ⟨e, he, hagain⟩
    rw [hfree] at hflight
    cases hflight
  refine ⟨?_, between, before, hsplit, hspares, ?_⟩
  · rw [← job_ledger, ht]
    exact Transfer.presents_ofCommand _ _
  · rw [hsplit, last_jobs_append fun e he => (hspares e he).2.2, jobs_cons_accepted]

/-- Without a new job the same transfer is begun again. -/
theorem Lawful.begun_again {t t' : Transfer} {between before : History}
    (hl : Lawful (.begun t' :: (between ++ .begun t :: before))) (ht : t'.request = t.request)
    (hbetween : ∀ c, .configured t.request c ∉ between) : t' = t := by
  have hcommand : ((ledger (between ++ .begun t :: before)).requests t.request).command =
      ((ledger before).requests t.request).command := by
    rw [command_append (by rintro e he c rfl; exact hbetween c he), ledger_cons,
      Ledger.command_after (by simp)]
  have ht' := hl.begun_eq_ofCommand
  rw [ht, hcommand] at ht'
  rw [ht']
  exact (hl.2.of_append.begun_eq_ofCommand).symm

end History

end SharedBus
