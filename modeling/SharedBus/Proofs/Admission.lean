import SharedBus.Bus.Control
import SharedBus.Bus.Submission

/-!
# What is turned down

A command is turned down when a length is past the limit, a request when it is
pending, a shutdown when requests are queued. Otherwise the call has the effect that
is written out here.
-/

namespace SharedBus

namespace Command

theorem checkLength_of_le {n : Nat} (h : n ≤ Buffer.capacity) : checkLength n = .ok () := if_pos h

theorem checkLength_of_gt {n : Nat} (h : Buffer.capacity < n) :
    checkLength n = .error (.bufferTooLong n Buffer.capacity) := if_neg (Nat.not_le_of_gt h)

theorem copying_of_le (address : UInt8) {data : List UInt8} (h : data.length ≤ Buffer.capacity) :
    copying address data = .ok (.write address (.holding data)) := by
  rw [copying, checkLength_of_le h]
  rfl

theorem copying_of_gt (address : UInt8) {data : List UInt8} (h : Buffer.capacity < data.length) :
    copying address data = .error (.bufferTooLong data.length Buffer.capacity) := by
  rw [copying, checkLength_of_gt h]
  rfl

theorem reading_of_le (address : UInt8) {length : Nat} {lead : List UInt8}
    (hn : length ≤ Buffer.capacity) (hl : lead.length ≤ Buffer.capacity) :
    reading address length lead = .ok (.read address length (.holding lead)) := by
  rw [reading, checkLength_of_le hn, checkLength_of_le hl]
  rfl

theorem reading_of_gt (address : UInt8) {length : Nat} (lead : List UInt8)
    (hn : Buffer.capacity < length) :
    reading address length lead = .error (.bufferTooLong length Buffer.capacity) := by
  rw [reading, checkLength_of_gt hn]
  rfl

theorem reading_of_lead_gt (address : UInt8) {length : Nat} {lead : List UInt8}
    (hn : length ≤ Buffer.capacity) (hl : Buffer.capacity < lead.length) :
    reading address length lead = .error (.bufferTooLong lead.length Buffer.capacity) := by
  rw [reading, checkLength_of_le hn, checkLength_of_gt hl]
  rfl

theorem copying_eq_ok {address : UInt8} {data : List UInt8} {c : Command}
    (h : copying address data = .ok c) : c = .write address (.holding data) := by
  by_cases hle : data.length ≤ Buffer.capacity
  · rw [copying_of_le address hle] at h
    exact (Except.ok.inj h).symm
  · rw [copying_of_gt address (Nat.lt_of_not_le hle)] at h
    cases h

theorem reading_eq_ok {address : UInt8} {length : Nat} {lead : List UInt8} {c : Command}
    (h : reading address length lead = .ok c) :
    c = .read address length (.holding lead) := by
  by_cases hn : length ≤ Buffer.capacity
  · by_cases hl : lead.length ≤ Buffer.capacity
    · rw [reading_of_le address hn hl] at h
      exact (Except.ok.inj h).symm
    · rw [reading_of_lead_gt address hn (Nat.lt_of_not_le hl)] at h
      cases h
  · rw [reading_of_gt address lead (Nat.lt_of_not_le hn)] at h
    cases h

end Command

namespace Request

def configured (q : Request) (c : Command) : Request :=
  { q with command := c, received := if c.isRead then .empty else q.received }

def armed (q : Request) : Request := { q with status := .pending, count := 0 }

variable {q : Request}

theorem configure_of_pending (h : q.status = .pending) (c : Command) :
    q.configure c = .error .pending := by
  rw [configure, if_pos (Status.isPending_iff.2 h)]

theorem configure_of_idle (h : q.status ≠ .pending) (c : Command) :
    q.configure c = .ok (q.configured c) := by
  rw [configure, if_neg (by simpa using h)]
  rfl

theorem arm_of_pending (h : q.status = .pending) : q.arm = .error .pending := by
  rw [arm, if_pos (Status.isPending_iff.2 h)]

theorem arm_of_idle (h : q.status ≠ .pending) : q.arm = .ok q.armed := by
  rw [arm, if_neg (by simpa using h)]
  rfl

theorem readInto_of_pending (h : q.status = .pending) (out : List UInt8) :
    q.readInto out = .error .pending := by
  rw [readInto, if_pos (Status.isPending_iff.2 h)]

end Request

namespace Bus

variable {σ : Type} {b : Bus σ} {r : RequestId}

theorem configure_of_pending (h : (b.requests r).status = .pending) (c : Command) :
    b.configure r c = .error .pending := by
  rw [configure, Request.configure_of_pending h]
  rfl

theorem configure_of_idle (h : (b.requests r).status ≠ .pending) (c : Command) :
    b.configure r c =
      .ok ((b.setRequest r ((b.requests r).configured c)).note (.configured r c)) := by
  rw [configure, Request.configure_of_idle h]
  rfl

theorem arm_of_pending (h : (b.requests r).status = .pending) : b.arm r = .error .pending := by
  rw [arm, Request.arm_of_pending h]
  rfl

theorem arm_of_idle (h : (b.requests r).status ≠ .pending) :
    b.arm r =
      .ok ({ b with queue := b.queue.link r none }.setRequest r (b.requests r).armed) := by
  rw [arm, Request.arm_of_idle h]
  rfl

/-- The bus on which `r` has been accepted but the next transfer not yet been begun. -/
def accept (b : Bus σ) (r : RequestId) : Bus σ :=
  { b with queue := (b.queue.link r none).pushBack r }.setRequest r (b.requests r).armed
    |>.note (.accepted r)

variable [Platform σ]

theorem shutDown_of_empty (h : b.queued = 0) :
    b.shutDown = .ok (b.closePlatform.note .shutDown) := if_pos h

theorem shutDown_of_queued (h : b.queued ≠ 0) :
    b.shutDown = .error (.inUse b.queued) := if_neg h

theorem submit_of_pending (h : (b.requests r).status = .pending) :
    b.submit r = .error .pending := by
  rw [submit, arm_of_pending h]
  rfl

theorem submit_of_idle (h : (b.requests r).status ≠ .pending) :
    b.submit r = .ok (b.accept r).startNext := by
  rw [submit, arm_of_idle h]
  rfl

end Bus

end SharedBus
