import Mathlib.Data.Nat.Bitwise
import SharedBus.Proofs.PinTransfers

/-!
# The port byte

An expander latches a byte, one bit for each of its lines. Operations on its pins, and nothing
else, change the byte: each sets the bit of its own pin, to the level written, or to one where
the pin is read and so released. So the byte is what the operations on the pins have made of
it, however their transfers ended. Bits without a pin stay zero.
-/

namespace SharedBus

namespace Expander

variable {x y z : Expander} {pin : UInt16}

def line (x : Expander) (pin : UInt16) : Nat := pin.toNat - x.firstPin.toNat

def latched (x : Expander) (k : Nat) : Bool := x.latch.toNat.testBit k

theorem owns_iff : x.owns pin = true ↔
    x.firstPin.toNat ≤ pin.toNat ∧ pin.toNat < x.firstPin.toNat + x.pinCount.toNat := by
  rw [owns, Bool.and_eq_true, decide_eq_true_eq, decide_eq_true_eq, UInt16.le_iff_toNat_le,
    UInt16.lt_iff_toNat_lt]
  constructor
  · rintro ⟨hle, hlt⟩
    rw [UInt16.toNat_sub_of_le _ _ (UInt16.le_iff_toNat_le.2 hle)] at hlt
    omega
  · rintro ⟨hle, hlt⟩
    rw [UInt16.toNat_sub_of_le _ _ (UInt16.le_iff_toNat_le.2 hle)]
    omega

def Fits (x : Expander) : Prop := x.pinCount.toNat ≤ 8

theorem toNat_pinCount_attach (address : UInt8) (first count : UInt16) (w r : RequestId) :
    (attach address first count w r).pinCount.toNat = min count.toNat 8 := by
  have hlines : lineCount.toNat = 8 := rfl
  by_cases hle : count ≤ lineCount
  · simp only [attach, if_pos hle]
    rw [UInt16.le_iff_toNat_le] at hle
    omega
  · simp only [attach, if_neg hle]
    rw [UInt16.le_iff_toNat_le] at hle
    omega

theorem fits_attach (address : UInt8) (first count : UInt16) (w r : RequestId) :
    (attach address first count w r).Fits := by
  rw [Fits, toNat_pinCount_attach]
  exact Nat.min_le_right _ _

theorem line_lt (hx : x.Fits) (hown : x.owns pin = true) : x.line pin < 8 := by
  obtain ⟨hle, hlt⟩ := owns_iff.1 hown
  have hcount : x.pinCount.toNat ≤ 8 := hx
  rw [line]
  omega

theorem toNat_shift (hx : x.Fits) (hown : x.owns pin = true) :
    (pin - x.firstPin).toUInt8.toNat = x.line pin := by
  have hline := line_lt hx hown
  have hle := UInt16.le_iff_toNat_le.2 (owns_iff.1 hown).1
  rw [UInt16.toNat_toUInt8, UInt16.toNat_sub_of_le _ _ hle, ← line]
  omega

theorem toNat_bit (hx : x.Fits) (hown : x.owns pin = true) :
    (x.bit pin).toNat = 2 ^ x.line pin := by
  have hline := line_lt hx hown
  have hpow : 2 ^ x.line pin < 2 ^ 8 := Nat.pow_lt_pow_right (by decide) hline
  rw [bit, UInt8.toNat_shiftLeft, toNat_shift hx hown, Nat.mod_eq_of_lt hline]
  simpa [Nat.one_shiftLeft] using hpow

theorem testBit_bit (hx : x.Fits) (hown : x.owns pin = true) (k : Nat) :
    (x.bit pin).toNat.testBit k = decide (x.line pin = k) := by
  rw [toNat_bit hx hown, Nat.testBit_two_pow]

/-- A byte has no bits past the eighth. -/
theorem testBit_eq_false_of_le (v : UInt8) {k : Nat} (hk : 8 ≤ k) : v.toNat.testBit k = false :=
  Nat.testBit_lt_two_pow (Nat.lt_of_lt_of_le v.toNat_lt (Nat.pow_le_pow_right (by decide) hk))

/-- To drive an owned pin sets the bit of its line and no other. -/
theorem latched_drive (hx : x.Fits) (hown : x.owns pin = true) (level : Bool) (k : Nat) :
    (x.drive (x.bit pin) level).latched k =
      if x.line pin = k then level else x.latched k := by
  cases level with
  | true =>
    have hraise : (x.drive (x.bit pin) true).latch = x.latch ||| x.bit pin := rfl
    rw [latched, hraise, UInt8.toNat_or, Nat.testBit_or, testBit_bit hx hown, latched]
    by_cases hk : x.line pin = k <;> simp [hk]
  | false =>
    have hlower : (x.drive (x.bit pin) false).latch = x.latch &&& ~~~x.bit pin := rfl
    have hlt : (x.bit pin).toNat < 2 ^ 8 := (x.bit pin).toNat_lt
    have hcomplement : (~~~x.bit pin).toNat = 2 ^ 8 - ((x.bit pin).toNat + 1) := by
      rw [UInt8.toNat_not]
      simp only [UInt8.size]
      omega
    rw [latched, hlower, UInt8.toNat_and, Nat.testBit_and, hcomplement,
      Nat.testBit_two_pow_sub_succ hlt, testBit_bit hx hown, latched]
    by_cases hk : x.line pin = k
    · simp [hk]
    · rcases Nat.lt_or_ge k 8 with hlt | hge
      · simp [hk, hlt]
      · simp [hk, testBit_eq_false_of_le x.latch hge]

/-- A byte masked with the bit of a pin tells the level of its line. -/
theorem and_bit_ne_zero (hx : x.Fits) (hown : x.owns pin = true) (v : UInt8) :
    (v &&& x.bit pin != 0) = v.toNat.testBit (x.line pin) := by
  rw [Bool.eq_iff_iff, bne_iff_ne, ne_eq, ← UInt8.toNat_inj, UInt8.toNat_and, toNat_bit hx hown,
    Nat.and_two_pow]
  cases v.toNat.testBit (x.line pin) <;> simp

/-! ### What operations make of the byte -/

/-- `y` is `x` with the level that `level?` gives for a pin latched in its line, if there is one.
Lines without a pin are left alone. -/
structure Latches (x : Expander) (level? : UInt16 → Option Bool) (y : Expander) : Prop where
  unlatched_eq : y.unlatched = x.unlatched
  owned : ∀ pin, x.owns pin = true →
    y.latched (x.line pin) = (level? pin).getD (x.latched (x.line pin))
  other : ∀ k, (∀ pin, x.owns pin = true → x.line pin ≠ k) → y.latched k = x.latched k

/-- What has been latched decides nothing about the pins. -/
theorem apply_of_unlatched_eq {α : Type} (f : Expander → α) (hf : ∀ z, f z.unlatched = f z)
    (h : y.unlatched = x.unlatched) : f y = f x := by
  rw [← hf y, h, hf]

theorem owns_congr (h : y.unlatched = x.unlatched) (pin : UInt16) : y.owns pin = x.owns pin :=
  apply_of_unlatched_eq (·.owns pin) (fun _ => rfl) h

theorem line_congr (h : y.unlatched = x.unlatched) (pin : UInt16) : y.line pin = x.line pin :=
  apply_of_unlatched_eq (·.line pin) (fun _ => rfl) h

theorem Fits.congr (hx : x.Fits) (h : y.unlatched = x.unlatched) : y.Fits := by
  have hcount := apply_of_unlatched_eq pinCount (fun _ => rfl) h
  rw [Fits, hcount]
  exact hx

variable {f g : UInt16 → Option Bool}

theorem latches_of_none (h : ∀ pin, x.owns pin = true → f pin = none) : x.Latches f x :=
  ⟨rfl, fun pin hown => by rw [h pin hown, Option.getD_none], fun _ _ => rfl⟩

theorem Latches.trans (h : x.Latches f y) (h' : y.Latches g z) :
    x.Latches (fun pin => (g pin).or (f pin)) z := by
  refine ⟨h'.unlatched_eq.trans h.unlatched_eq, fun pin hown => ?_, fun k hk => ?_⟩
  · have hlater := h'.owned pin ((owns_congr h.unlatched_eq pin).trans hown)
    rw [line_congr h.unlatched_eq, h.owned pin hown] at hlater
    rw [hlater]
    cases g pin <;> rfl
  · rw [h'.other k fun pin hown => ?_, h.other k hk]
    rw [line_congr h.unlatched_eq]
    exact hk pin ((owns_congr h.unlatched_eq pin).symm.trans hown)

/-- When nothing was latched high before, a line is high if its pin was given a high level. -/
theorem Latches.latched_iff (h : x.Latches f y) (hlow : x.latch = 0) (k : Nat) :
    y.latched k = true ↔ ∃ pin, x.owns pin = true ∧ x.line pin = k ∧ f pin = some true := by
  have hbefore : ∀ k, x.latched k = false := fun k => by
    rw [latched, hlow]
    exact Nat.zero_testBit k
  constructor
  · intro hhigh
    by_cases hpin : ∃ pin, x.owns pin = true ∧ x.line pin = k
    · obtain ⟨pin, hown, rfl⟩ := hpin
      rw [h.owned pin hown, hbefore] at hhigh
      refine ⟨pin, hown, rfl, ?_⟩
      cases hlevel : f pin with
      | none =>
        rw [hlevel] at hhigh
        cases hhigh
      | some level =>
        rw [hlevel] at hhigh
        exact congrArg some hhigh
    · have hnone : ∀ pin, x.owns pin = true → x.line pin ≠ k :=
        fun pin hown hline => hpin ⟨pin, hown, hline⟩
      rw [h.other k hnone, hbefore] at hhigh
      cases hhigh
  · rintro ⟨pin, hown, rfl, hlevel⟩
    rw [h.owned pin hown, hlevel, Option.getD_some]

/-- Pins of one device that share a line are the same. -/
theorem line_inj {pin' : UInt16} (hown : x.owns pin = true) (hown' : x.owns pin' = true)
    (h : x.line pin = x.line pin') : pin = pin' := by
  have hle := (owns_iff.1 hown).1
  have hle' := (owns_iff.1 hown').1
  rw [line, line] at h
  rw [← UInt16.toNat_inj]
  omega

theorem latches_drive (hx : x.Fits) (hown : x.owns pin = true) (level : Bool) :
    x.Latches (fun p => if p = pin then some level else none) (x.drive (x.bit pin) level) := by
  refine ⟨by cases level <;> rfl, fun p hp => ?_, fun k hk => ?_⟩
  · rw [latched_drive hx hown]
    by_cases hsame : p = pin
    · rw [if_pos (by rw [hsame]), if_pos hsame, Option.getD_some]
    · rw [if_neg fun h => hsame (line_inj hp hown h.symm), if_neg hsame, Option.getD_none]
  · rw [latched_drive hx hown, if_neg (hk pin hown)]

end Expander

/-- The level that an operation of device `i` on `pin` gives to the pin. To read it is to
release it. -/
def Call.drives? (i : Nat) (pin : UInt16) : Call → Option Bool
  | .writePin j p level => if j = i ∧ pin = p then some level else none
  | .readPin j p => if j = i ∧ pin = p then some true else none
  | .bringUp | .shutDown | .setClock _ | .setTimeout _ | .tick | .handleEvent | .submit _ |
    .write .. | .writeFixed .. | .read .. | .setWrite .. | .setWriteFixed .. | .setRead .. |
    .readInto .. | .wait _ | .complete _ | .poll _ | .selectClock _ | .describePins _ |
    .ownsPin .. => none

def Move.drives? {σ : Type} (i : Nat) (pin : UInt16) : Move σ → Option Bool
  | .call _ c => c.drives? i pin
  | .shift _ => none

theorem Move.drives?_of_not_operates {σ : Type} {i : Nat} {m : Move σ} (h : ¬ m.Operates i)
    (pin : UInt16) : m.drives? i pin = none := by
  cases m with
  | shift platform => rfl
  | call limit c =>
    cases c with
    | writePin | readPin => exact if_neg fun hj => h hj.1
    | bringUp | shutDown | setClock | setTimeout | tick | handleEvent | submit | write |
      writeFixed | read | setWrite | setWriteFixed | setRead | readInto | wait | complete |
      poll | selectClock | describePins | ownsPin => rfl

namespace System

variable {σ : Type} [Platform σ] {s s' : System σ} {i : Nat} {x : Expander} {reply : Reply}

/-- What a call does to the device that it operates on, by the reply. -/
theorem latches_operation {limit : Nat} {c : Call} {pin : UInt16} {level : Bool}
    (hx : s.expanders[i]? = some x) (hfits : x.Fits)
    (h : s.move (.call limit c) = some (reply, s')) (hg : reply.granted = x.owns pin)
    (hlatches : c.latches s.expanders = s.expanders.set i (x.drive (x.bit pin) level))
    (hdrives : ∀ p, c.drives? i p = if p = pin then some level else none) :
    ∃ y, s'.expanders[i]? = some y ∧ x.Latches (c.drives? i) y := by
  obtain ⟨hi, -⟩ := List.getElem?_eq_some_iff.1 hx
  have hexpanders := expanders_perform h
  rw [hg, hlatches] at hexpanders
  cases hown : x.owns pin with
  | false =>
    rw [hown] at hexpanders
    refine ⟨x, by rw [hexpanders]; exact hx, Expander.latches_of_none fun p hp => ?_⟩
    rw [hdrives, if_neg]
    rintro rfl
    rw [hown] at hp
    cases hp
  | true =>
    rw [hown] at hexpanders
    refine ⟨_, by rw [hexpanders]; exact List.getElem?_set_self hi, ?_⟩
    rw [funext hdrives]
    exact Expander.latches_drive hfits hown level

/-- A move changes in a device the bits of the pins that it operates on. -/
theorem latches_move {m : Move σ} (h : s.move m = some (reply, s')) (hx : s.expanders[i]? = some x)
    (hfits : x.Fits) : ∃ y, s'.expanders[i]? = some y ∧ x.Latches (m.drives? i) y := by
  by_cases hop : m.Operates i
  · cases m with
    | shift platform => cases hop
    | call limit c =>
      cases c with
      | writePin j pin level =>
        obtain rfl : j = i := hop
        have hdrives : ∀ p, (Call.writePin j pin level).drives? j p =
            if p = pin then some level else none := fun p => by
          simp only [Call.drives?, true_and]
        refine latches_operation hx hfits h (granted_writePin hx h) ?_ hdrives
        simp only [Call.latches, hx]
      | readPin j pin =>
        obtain rfl : j = i := hop
        have hdrives : ∀ p, (Call.readPin j pin).drives? j p =
            if p = pin then some true else none := fun p => by
          simp only [Call.drives?, true_and]
        refine latches_operation hx hfits h (granted_readPin hx h) ?_ hdrives
        simp only [Call.latches, hx]
        rfl
      | bringUp | shutDown | setClock | setTimeout | tick | handleEvent | submit | write |
        writeFixed | read | setWrite | setWriteFixed | setRead | readInto | wait | complete |
        poll | selectClock | describePins | ownsPin => cases hop
  · refine ⟨x, (device_move h hop).trans hx, Expander.latches_of_none fun pin _ => ?_⟩
    exact Move.drives?_of_not_operates hop pin

theorem latches_run {ms : List (Move σ)} {replies : List Reply}
    (h : s.run ms = some (replies, s')) (hx : s.expanders[i]? = some x) (hfits : x.Fits) :
    ∃ y, s'.expanders[i]? = some y ∧
      x.Latches (fun pin => (ms.filterMap (Move.drives? i pin)).getLast?) y := by
  induction ms generalizing s x replies with
  | nil =>
    cases h
    exact ⟨x, hx, Expander.latches_of_none fun _ _ => rfl⟩
  | cons m ms ih =>
    obtain ⟨reply, s₁, rest, hmove, hrun, -⟩ := run_cons_eq_some.1 h
    obtain ⟨y, hy, hfirst⟩ := latches_move hmove hx hfits
    obtain ⟨z, hz, hrest⟩ := ih hrun hy (hfits.congr hfirst.unlatched_eq)
    refine ⟨z, hz, ?_⟩
    have hlast : (fun pin => ((m :: ms).filterMap (Move.drives? i pin)).getLast?) =
        fun pin => ((ms.filterMap (Move.drives? i pin)).getLast?).or (m.drives? i pin) := by
      funext pin
      cases hm : m.drives? i pin with
      | none => rw [List.filterMap_cons_none hm, Option.or_none]
      | some level =>
        rw [List.filterMap_cons_some hm, List.getLast?_cons]
        cases (ms.filterMap (Move.drives? i pin)).getLast? <;> rfl
    rw [hlast]
    exact hfirst.trans hrest

/-- Which pins a device has, and what it has latched after a run: a line is latched high if it has
a pin and the last operation on this pin was to read it or to write it high. Nothing but the calls
decides this, neither the replies nor the platform. -/
theorem port_byte_eq (platform : σ) (config : Config) {xs : List Expander}
    {ms : List (Move σ)} {replies : List Reply} {address : UInt8} {first count : UInt16}
    {w r : RequestId} (hx : xs[i]? = some (.attach address first count w r))
    (h : (create platform config xs).run ms = some (replies, s)) :
    ∃ y, s.expanders[i]? = some y ∧
      (∀ pin, y.owns pin = true ↔
        first.toNat ≤ pin.toNat ∧ pin.toNat < first.toNat + min count.toNat 8) ∧
      (∀ pin, y.owns pin = true → y.mask pin = .ok (1 <<< (pin - y.firstPin).toUInt8) ∧
        (pin - y.firstPin).toNat = pin.toNat - first.toNat ∧ (pin - y.firstPin).toNat < 8) ∧
      ∀ k, y.latch.toNat.testBit k = true ↔ ∃ pin : UInt16, pin.toNat = first.toNat + k ∧
        y.owns pin = true ∧ (ms.filterMap (Move.drives? i pin)).getLast? = some true := by
  obtain ⟨y, hy, hlatches⟩ := latches_run h hx (Expander.fits_attach ..)
  have hfits := (Expander.fits_attach address first count w r).congr hlatches.unlatched_eq
  have hfirst : y.firstPin = first :=
    Expander.apply_of_unlatched_eq Expander.firstPin (fun _ => rfl) hlatches.unlatched_eq
  have hcount : y.pinCount.toNat = min count.toNat 8 := by
    rw [← Expander.toNat_pinCount_attach address first count w r]
    exact Expander.apply_of_unlatched_eq (·.pinCount.toNat) (fun _ => rfl) hlatches.unlatched_eq
  have howns : ∀ pin, y.owns pin = true ↔
      first.toNat ≤ pin.toNat ∧ pin.toNat < first.toNat + min count.toNat 8 := fun pin => by
    rw [Expander.owns_iff, hfirst, hcount]
  refine ⟨y, hy, howns, fun pin hown => ?_, fun k => ?_⟩
  · have hline := Expander.line_lt hfits hown
    have hoffset : (pin - y.firstPin).toNat = y.line pin :=
      UInt16.toNat_sub_of_le _ _ (UInt16.le_iff_toNat_le.2 (Expander.owns_iff.1 hown).1)
    refine ⟨Expander.mask_of_owned hown, ?_, by rwa [hoffset]⟩
    rw [hoffset, Expander.line, hfirst]
  · have hline : ∀ pin, y.owns pin = true →
        ((Expander.attach address first count w r).line pin = k ↔
          pin.toNat = first.toNat + k) := fun pin hown => by
      have hle := ((howns pin).1 hown).1
      change pin.toNat - first.toNat = k ↔ pin.toNat = first.toNat + k
      omega
    have hbit := hlatches.latched_iff rfl k
    rw [Expander.latched] at hbit
    rw [hbit]
    refine exists_congr fun pin => ?_
    rw [← Expander.owns_congr hlatches.unlatched_eq pin]
    constructor
    · rintro ⟨hown, hk, hlast⟩
      exact ⟨(hline pin hown).1 hk, hown, hlast⟩
    · rintro ⟨hk, hown, hlast⟩
      exact ⟨hown, (hline pin hown).2 hk, hlast⟩

def outlyingSystem : System Bench :=
  create ((Bench.create 0 0).adjust (.script 0x21 [[.finish], [.complete (.failed .bus)]]))
    ⟨Config.standardMode, 0, .polled⟩ [.attach 0x20 0 8 0 1, .attach 0x21 65530 20 0 1]

/-- The read releases its pin though it fails, and the later of two writes counts. -/
theorem port_byte_eq_outlying :
    ∃ s y, outlyingSystem.run [.call 0 (.writePin 1 65532 true), .call 2 (.readPin 1 65533),
        .call 0 (.writePin 1 65532 false), .call 2 (.writePin 0 2 true)] =
        some ([.ok, .pinError (.bus (.failed .bus)), .ok, .ok], s) ∧
      s.expanders[1]? = some y ∧ y.owns 65535 = true ∧ y.owns 65529 = false ∧
      y.latch.toNat.testBit 3 = true ∧ y.latch.toNat.testBit 2 = false ∧
      y.latch.toNat.testBit 7 = false := by
  have hrun : ∃ s, outlyingSystem.run [.call 0 (.writePin 1 65532 true),
        .call 2 (.readPin 1 65533), .call 0 (.writePin 1 65532 false),
        .call 2 (.writePin 0 2 true)] =
      some ([.ok, .pinError (.bus (.failed .bus)), .ok, .ok], s) := ⟨_, rfl⟩
  obtain ⟨s, hrun⟩ := hrun
  obtain ⟨y, hy, howns, -, hbits⟩ := port_byte_eq (i := 1) _ _ rfl hrun
  refine ⟨s, y, hrun, hy, (howns _).2 (by decide), ?_, ?_, ?_, ?_⟩
  · rw [Bool.eq_false_iff]
    exact fun hown => absurd ((howns _).1 hown) (by decide)
  · exact (hbits 3).2 ⟨65533, rfl, (howns _).2 (by decide), rfl⟩
  · rw [Bool.eq_false_iff]
    intro hhigh
    obtain ⟨pin, hpin, -, hlast⟩ := (hbits 2).1 hhigh
    obtain rfl : pin = 65532 := UInt16.toNat_inj.1 hpin
    cases hlast
  · rw [Bool.eq_false_iff]
    intro hhigh
    obtain ⟨pin, hpin, -⟩ := (hbits 7).1 hhigh
    have hlt := pin.toNat_lt
    have hfirst : (65530 : UInt16).toNat = 65530 := rfl
    omega

end System

end SharedBus
