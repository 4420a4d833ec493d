import Kevlar.RingTransfers

/-!
# The bytes that go through a pipe

Calls on a pipe are lists of lock sections, and a run is any interleaving of them. Next
to the pipe a run keeps the bytes that writes have accepted and the bytes that reads
have returned. The bytes in the ring are always what is missing.
-/
namespace Kevlar.Watch.Pipe
open List

/-- One lock section of a call, or the drop of the last reference to an end. -/
inductive LockSection
  | write (src : UserBuffer) (attempt : Attempt)
  | read (dst : UserBufferMut) (attempt : Attempt)
  | dropWriter
  | dropReader

/-- The bytes that the section of a read writes to the user. -/
def delivered (dst : UserBufferMut) (p : Pipe) : List (BitVec 8) :=
  match (copyOutBytes dst dst.len 0 p.inner.buf).1 with
  | .ok bytes => bytes
  | .error _ => []

/-- A pipe with its history. -/
structure Stream where
  pipe : Pipe
  accepted : List (BitVec 8)
  returned : List (BitVec 8)

namespace Stream

def start : Stream := ⟨.new, [], []⟩

/-- The count that a call returns is the number of bytes of its buffer that it used. -/
def step (s : Stream) : LockSection → Except IoError ℕ × Stream
  | .write src attempt =>
    match write src attempt s.pipe with
    | (.ok n, p) => (.ok n, { s with pipe := p, accepted := s.accepted ++ src.bytes.take n })
    | (.error e, p) => (.error e, { s with pipe := p })
  | .read dst attempt =>
    match read dst attempt s.pipe with
    | (.ok n, p) =>
      (.ok n, { s with pipe := p, returned := s.returned ++ delivered dst s.pipe })
    | (.error e, p) => (.error e, { s with pipe := p })
  | .dropWriter => (.ok 0, { s with pipe := s.pipe.dropWriter })
  | .dropReader => (.ok 0, { s with pipe := s.pipe.dropReader })

/-- Nothing is lost and nothing is duplicated. -/
def Balanced (s : Stream) : Prop :=
  ∃ q, s.pipe.inner.buf.Holds q ∧ s.accepted = s.returned ++ q

/-- A read says how many bytes it returned, and it returns 0 only at the end of the
stream. -/
def ReadsRightly (s : Stream) : LockSection → Except IoError ℕ → Stream → Prop
  | .read _ _, .ok n, s' =>
    s'.returned.length = s.returned.length + n ∧
      (n = 0 → s.pipe.inner.closedByWriter = true ∧ s.pipe.inner.buf.isReadable = false)
  | _, _, _ => True

/-- A section that is defined, keeps the balance and reads rightly. -/
def StepSound (s : Stream) (l : LockSection) : Prop :=
  (s.step l).1 ≠ .error .undefined ∧ (s.step l).2.Balanced ∧
    s.ReadsRightly l (s.step l).1 (s.step l).2

/-- Every section of the run is sound. -/
def Sound (s : Stream) : List LockSection → Prop
  | [] => True
  | l :: rest => s.StepSound l ∧ Sound (s.step l).2 rest

/-- No section of the run stops at an address of the user. -/
def NoFault (s : Stream) : List LockSection → Prop
  | [] => True
  | l :: rest => (s.step l).1 ≠ .error .EFAULT ∧ NoFault (s.step l).2 rest

/-- A read of a pipe that has bytes: an empty buffer needs a pipe with writers, and the
length does not overflow when it is added to the read index. -/
def Fits (s : Stream) : LockSection → Prop
  | .read dst attempt =>
    attempt.signalled = false → s.pipe.inner.buf.isReadable = true →
      (dst.len = 0 → s.pipe.inner.closedByWriter = false) ∧
        s.pipe.inner.buf.ring.rp + dst.len < 2 ^ 64
  | _ => True

def AllFit (s : Stream) : List LockSection → Prop
  | [] => True
  | l :: rest => s.Fits l ∧ AllFit (s.step l).2 rest

end Stream

open Fallible

@[simp] lemma bumpGen_inner {δ : Type} (x : Gated δ) : x.bumpGen.inner = x.inner := by
  unfold Gated.bumpGen
  split_ifs <;> rfl

variable {p : Pipe}

lemma holds_bumpGen {q : List (BitVec 8)} :
    p.bumpGen.inner.buf.Holds q ↔ p.inner.buf.Holds q := by
  rw [bumpGen_inner]

lemma pipeSize_lt : pipeSize < 2 ^ 63 := by decide

/-- The end of a slow path does not touch the object. -/
lemma wake_ends {x : Fallible IoError Pipe ℕ} {Q : ℕ → PipeInner → Prop}
    {R : IoError → PipeInner → Prop}
    (h : x.Ends p (fun n q => Q n q.inner) fun e q => R e q.inner) :
    (wake x).Ends p (fun n q => Q n q.inner) fun e q => R e q.inner := by
  unfold Ends wake at *
  match hx : x p with
  | (.ok n, q) =>
    rw [hx] at h
    simp only [bumpGen_inner]
    exact h
  | (.error e, q) =>
    rw [hx] at h
    cases e
    case sleeps => exact h
    all_goals
      simp only [bumpGen_inner]
      exact h

/-! ## Reads -/

section Reads

variable {dst : UserBufferMut} {p : Pipe} {bytes : List (BitVec 8)} {buf : ByteRing pipeSize}

lemma onBuf_copyOut (h : (copyOutBytes dst dst.len 0).Returns p.inner.buf bytes buf) :
    (onBuf (copyOut dst dst.len 0)).Returns p bytes.length (p.withBuf buf) := by
  unfold Returns at *
  simp only [onBuf, copyOut_eq, countFrom, h, zero_add]
  rfl

lemma onBuf_copyOut_fails {e : IoError}
    (h : (copyOutBytes dst dst.len 0).Fails p.inner.buf e buf) :
    (onBuf (copyOut dst dst.len 0)).Fails p e (p.withBuf buf) := by
  unfold Fails at *
  simp only [onBuf, copyOut_eq, countFrom, h]
  rfl

lemma delivered_eq (h : (copyOutBytes dst dst.len 0).Returns p.inner.buf bytes buf) :
    delivered dst p = bytes := by
  rw [delivered, h]

variable {attempt : Attempt}

/-- How a read ends whose loop moved `bytes`. -/
lemma read_ends (hsig : attempt.signalled = false)
    (h : (copyOutBytes dst dst.len 0).Returns p.inner.buf bytes buf) :
    (read dst attempt).Ends p
      (fun n p' => n = bytes.length ∧ p'.inner.buf = buf ∧
        (n = 0 → p.inner.closedByWriter = true))
      fun e p' => (e = .EAGAIN ∨ e = .sleeps) ∧ p'.inner.buf = buf ∧ bytes = [] ∧
        p.inner.closedByWriter = false := by
  have hmove := onBuf_copyOut h
  cases attempt with
  | first nonblock =>
    rw [read, readFirst, hmove.bind_ends_iff, ends_get_bind]
    split_ifs with heof
    · exact ends_pure ⟨heof.1.symm, rfl, fun _ => heof.2⟩
    · unfold report
      split_ifs with hpos
      · refine ⟨rfl, ?_, fun hz => absurd hz hpos.ne'⟩
        rw [bumpGen_inner]
        rfl
      · have hz : bytes.length = 0 := by omega
        have hopen : p.inner.closedByWriter = false := by
          rw [← Bool.not_eq_true]
          exact fun hclosed => heof ⟨hz, hclosed⟩
        refine ends_throw ⟨?_, rfl, eq_nil_of_length_eq_zero hz, hopen⟩
        cases nonblock
        · exact .inr rfl
        · exact .inl rfl
  | woken signalled =>
    obtain rfl : signalled = false := hsig
    refine wake_ends (Q := fun n i => n = bytes.length ∧ i.buf = buf ∧
      (n = 0 → p.inner.closedByWriter = true)) (R := fun e i => (e = .EAGAIN ∨ e = .sleeps) ∧
      i.buf = buf ∧ bytes = [] ∧ p.inner.closedByWriter = false) ?_
    rw [if_neg Bool.false_ne_true, readWoken, hmove.bind_ends_iff, ends_get_bind]
    split_ifs with hpos heof
    · exact ends_pure ⟨rfl, rfl, fun hz => absurd hz hpos.ne'⟩
    · exact ends_pure ⟨by omega, rfl, fun _ => heof⟩
    · exact ends_throw ⟨.inr rfl, rfl, eq_nil_of_length_eq_zero (by omega),
        Bool.not_eq_true _ ▸ heof⟩

lemma read_fails (hsig : attempt.signalled = false) {e : IoError} (he : e ≠ .sleeps)
    (h : (copyOutBytes dst dst.len 0).Fails p.inner.buf e buf) :
    (read dst attempt p).1 = .error e := by
  have hmove := onBuf_copyOut_fails h
  cases attempt with
  | first nonblock =>
    have hfail : (readFirst dst nonblock).Fails p e (p.withBuf buf) := hmove.bind _
    exact congrArg Prod.fst hfail
  | woken signalled =>
    obtain rfl : signalled = false := hsig
    have hfail : (readWoken dst).Fails p e (p.withBuf buf) := hmove.bind _
    simp only [read, Bool.false_eq_true, if_false, wake]
    rw [show readWoken dst p = _ from hfail]
    cases e
    case sleeps => exact absurd rfl he
    all_goals rfl

lemma read_signalled (hsig : attempt.signalled = true) :
    (read dst attempt).Fails p .EINTR p.bumpGen := by
  cases attempt with
  | first nonblock => cases hsig
  | woken signalled =>
    obtain rfl : signalled = true := hsig
    rfl

/-- A read on a ring that holds `q`. -/
lemma read_holds {q : List (BitVec 8)} (hsig : attempt.signalled = false)
    (h : p.inner.buf.Holds q) (hfits : q ≠ [] → p.inner.buf.ring.rp + dst.len < 2 ^ 64) :
    (read dst attempt).Ends p
      (fun n p' => delivered dst p = q.take dst.len ∧ n = (q.take dst.len).length ∧
        p'.inner.buf.Holds (q.drop dst.len) ∧ (n = 0 → p.inner.closedByWriter = true))
      fun e p' => e = .EFAULT ∨ (e ≠ .undefined ∧ p'.inner.buf.Holds q) := by
  have hloop := copyOutBytes_holds dst 0 pipeSize_lt h (zero_add _).ge hfits
  match hx : copyOutBytes dst dst.len 0 p.inner.buf with
  | (.ok bytes, buf) =>
    obtain ⟨hbytes, hbuf⟩ := hloop.returns hx
    refine (read_ends hsig hx).mono ?_ ?_
    · rintro n p' ⟨rfl, rfl, hzero⟩
      exact ⟨(delivered_eq hx).trans hbytes, congrArg length hbytes, hbuf, hzero⟩
    · rintro e p' ⟨he, rfl, hnil, -⟩
      have hall : q.drop dst.len = q := by
        have hsplit := take_append_drop dst.len q
        rwa [show q.take dst.len = [] from hbytes ▸ hnil, nil_append] at hsplit
      rw [Nat.sub_zero, hall] at hbuf
      refine Or.inr ⟨?_, hbuf⟩
      rcases he with rfl | rfl <;> decide
  | (.error e, buf) =>
    obtain rfl := hloop.fails hx
    have hfst : (read dst attempt p).1 = .error .EFAULT := read_fails hsig (by decide) hx
    refine ends_of (fun n p' hret => ?_) fun e p' hfail => .inl ?_
    · rw [hret] at hfst
      cases hfst
    · rw [hfail] at hfst
      cases hfst
      rfl

end Reads

/-! ## Writes -/

lemma write_holds (src : UserBuffer) (attempt : Attempt) {q : List (BitVec 8)}
    (h : p.inner.buf.Holds q) :
    (write src attempt).Ends p (fun n p' => p'.inner.buf.Holds (q ++ src.bytes.take n))
      fun e p' => e = .EFAULT ∨ (e ≠ .undefined ∧ p'.inner.buf.Holds q) := by
  have hcopy := onBuf_ends (copyIn_holds src 0 pipeSize_lt h (zero_add _).ge)
  have htake : ∀ n, n = 0 + min (src.bytes.length - 0) (pipeSize - q.length) →
      (src.bytes.drop 0).take (pipeSize - q.length) = src.bytes.take n := by
    intro n hn
    rw [drop_zero, take_eq_take_iff]
    omega
  cases attempt with
  | first nonblock =>
    have hidle : Attempt.idle (.first nonblock) ≠ .undefined := by cases nonblock <;> decide
    rw [write, writeFirst, ends_get_bind]
    split_ifs with hclosed hroom
    · exact ends_throw (.inr ⟨by decide, h⟩)
    · refine hcopy.bind ?_ fun e _ he => .inl he.1.1
      rintro n _ ⟨buf, ⟨hn, hbuf⟩, rfl⟩
      rw [htake n hn] at hbuf
      unfold report
      split_ifs with hpos
      · exact holds_bumpGen.mpr hbuf
      · obtain rfl : n = 0 := by omega
        rw [take_zero, append_nil] at hbuf
        exact ends_throw (.inr ⟨hidle, hbuf⟩)
    · exact ends_throw (.inr ⟨hidle, h⟩)
  | woken signalled =>
    refine wake_ends (Q := fun n i => i.buf.Holds (q ++ src.bytes.take n))
      (R := fun e i => e = .EFAULT ∨ (e ≠ .undefined ∧ i.buf.Holds q)) ?_
    cases signalled with
    | true => exact ends_throw (.inr ⟨by decide, h⟩)
    | false =>
      rw [if_neg Bool.false_ne_true, writeWoken, ends_get_bind]
      split_ifs with hclosed
      · exact ends_throw (.inr ⟨by decide, h⟩)
      · refine hcopy.bind ?_ fun e _ he => .inl he.1.1
        rintro n _ ⟨buf, ⟨hn, hbuf⟩, rfl⟩
        rw [htake n hn] at hbuf
        split_ifs with hpos
        · exact ends_pure hbuf
        · obtain rfl : n = 0 := by omega
          rw [take_zero, append_nil] at hbuf
          exact ends_throw (.inr ⟨by decide, hbuf⟩)

/-! ## Runs -/

namespace Stream

variable {s : Stream}

lemma balanced_start : start.Balanced := ⟨[], ByteRing.holds_new (by decide), rfl⟩

lemma change_balanced (h : s.Balanced) (f : PipeInner → PipeInner)
    (hf : ∀ i, (f i).buf = i.buf) : ({ s with pipe := s.pipe.change f } : Stream).Balanced := by
  obtain ⟨q, hq, hbytes⟩ := h
  refine ⟨q, holds_bumpGen.mpr ?_, hbytes⟩
  rw [hf]
  exact hq

variable {attempt : Attempt} {p : Pipe} {e : IoError} {dst : UserBufferMut}

lemma step_write_ok {src : UserBuffer} {n : ℕ} (h : (write src attempt).Returns s.pipe n p) :
    s.step (.write src attempt) =
      (.ok n, { s with pipe := p, accepted := s.accepted ++ src.bytes.take n }) := by
  rw [step, h]

lemma step_write_error {src : UserBuffer} (h : (write src attempt).Fails s.pipe e p) :
    s.step (.write src attempt) = (.error e, { s with pipe := p }) := by
  rw [step, h]

lemma step_read_ok {n : ℕ} (h : (read dst attempt).Returns s.pipe n p) :
    s.step (.read dst attempt) =
      (.ok n, { s with pipe := p, returned := s.returned ++ delivered dst s.pipe }) := by
  rw [step, h]

lemma step_read_error (h : (read dst attempt).Fails s.pipe e p) :
    s.step (.read dst attempt) = (.error e, { s with pipe := p }) := by
  rw [step, h]

/-- A section that fails without losing bytes. -/
lemma stepSound_of_error {l : LockSection} (h : s.Balanced)
    (hstep : s.step l = (.error e, { s with pipe := p })) (he : e ≠ .undefined)
    (hkeep : ∀ q, s.pipe.inner.buf.Holds q → p.inner.buf.Holds q) : s.StepSound l := by
  obtain ⟨q, hq, hbytes⟩ := h
  unfold StepSound
  rw [hstep]
  refine ⟨fun heq => he (Except.error.inj heq), ⟨q, hkeep q hq, hbytes⟩, ?_⟩
  cases l <;> exact trivial

lemma write_sound (h : s.Balanced) (src : UserBuffer) (attempt : Attempt)
    (hnofault : (s.step (.write src attempt)).1 ≠ .error .EFAULT) :
    s.StepSound (.write src attempt) := by
  match hx : write src attempt s.pipe with
  | (.ok n, p) =>
    obtain ⟨q, hq, hbytes⟩ := h
    unfold StepSound
    rw [step_write_ok hx]
    refine ⟨fun heq => (nomatch heq), ⟨_, (write_holds src attempt hq).returns hx, ?_⟩, trivial⟩
    rw [hbytes, append_assoc]
  | (.error e, p) =>
    rw [step_write_error hx] at hnofault
    have hfault : e ≠ .EFAULT := fun heq => hnofault (congrArg _ heq)
    have hkeep : ∀ q, s.pipe.inner.buf.Holds q → e ≠ .undefined ∧ p.inner.buf.Holds q :=
      fun q hq => ((write_holds src attempt hq).fails hx).resolve_left hfault
    obtain ⟨q, hq, -⟩ := id h
    exact stepSound_of_error h (step_write_error hx) (hkeep q hq).1 fun q hq => (hkeep q hq).2

lemma read_sound (h : s.Balanced) (dst : UserBufferMut) (attempt : Attempt)
    (hfits : s.Fits (.read dst attempt))
    (hnofault : (s.step (.read dst attempt)).1 ≠ .error .EFAULT) :
    s.StepSound (.read dst attempt) := by
  by_cases hsig : attempt.signalled = true
  · exact stepSound_of_error h (step_read_error (read_signalled hsig)) (by decide)
      fun _ => holds_bumpGen.mpr
  rw [Bool.not_eq_true] at hsig
  obtain ⟨q, hq, hbytes⟩ := id h
  have hread : q ≠ [] → _ := fun hne => hfits hsig (hq.isReadable_iff.mpr hne)
  have hends := read_holds hsig hq fun hne => (hread hne).2
  match hx : read dst attempt s.pipe with
  | (.ok n, p) =>
    obtain ⟨hdel, hn, hp, hzero⟩ := hends.returns hx
    unfold StepSound
    rw [step_read_ok hx]
    refine ⟨fun heq => (nomatch heq), ⟨_, hp, ?_⟩, ?_, fun hz => ⟨hzero hz, ?_⟩⟩
    · rw [hbytes, hdel, append_assoc, take_append_drop]
    · rw [length_append, hdel, hn]
    · -- a read into a buffer with room that returned nothing found the ring empty
      rw [← Bool.not_eq_true, hq.isReadable_iff, not_not]
      by_contra hne
      rw [hz, eq_comm, length_eq_zero_iff, take_eq_nil_iff] at hn
      have hopen := (hread hne).1 (hn.resolve_right hne)
      rw [hzero hz] at hopen
      cases hopen
  | (.error e, p) =>
    rw [step_read_error hx] at hnofault
    have hfault : e ≠ .EFAULT := fun heq => hnofault (congrArg _ heq)
    have hkeep := (hends.fails hx).resolve_left hfault
    unfold StepSound
    rw [step_read_error hx]
    exact ⟨fun heq => hkeep.1 (Except.error.inj heq), ⟨q, hkeep.2, hbytes⟩, trivial⟩

lemma step_sound (h : s.Balanced) (l : LockSection) (hfits : s.Fits l)
    (hnofault : (s.step l).1 ≠ .error .EFAULT) : s.StepSound l := by
  cases l with
  | write src attempt => exact write_sound h src attempt hnofault
  | read dst attempt => exact read_sound h dst attempt hfits hnofault
  | dropWriter | dropReader =>
    exact ⟨fun heq => (nomatch heq), change_balanced h _ fun _ => rfl, trivial⟩

/-- A read of a length that overflows leaves the array of the ring. -/
lemma read_overflow {q : List (BitVec 8)} (hsig : attempt.signalled = false)
    (hq : s.pipe.inner.buf.Holds q) (hne : q ≠ [])
    (hover : 2 ^ 64 ≤ s.pipe.inner.buf.ring.rp + dst.len) :
    (s.step (.read dst attempt)).1 = .error .undefined := by
  have hrp := s.pipe.inner.buf.rp_lt
  have hcap := pipeSize_lt
  have hlen : dst.len ≠ 0 := by omega
  have hpop := hq.pop_overflow pipeSize_lt hne dst.len_lt hover
  have hloop : (copyOutBytes dst dst.len 0).Fails s.pipe.inner.buf .undefined
      s.pipe.inner.buf := by
    obtain ⟨fuel, hfuel⟩ := Nat.exists_eq_succ_of_ne_zero hlen
    rw [hfuel, copyOutBytes, Nat.sub_zero]
    exact hpop.bind _
  have hread := read_fails hsig (by decide) hloop
  rcases hx : read dst attempt s.pipe with ⟨e | n, p⟩
  · rw [hx] at hread
    rw [step_read_error hx]
    exact hread
  · rw [hx] at hread
    cases hread

/-- A read into an empty buffer after the writers have gone returns 0. -/
lemma read_empty_closed (hsig : attempt.signalled = false) (hlen : dst.len = 0)
    (hclosed : s.pipe.inner.closedByWriter = true) :
    (s.step (.read dst attempt)).1 = .ok 0 := by
  have hloop : (copyOutBytes dst dst.len 0).Returns s.pipe.inner.buf [] s.pipe.inner.buf := by
    rw [hlen]
    rfl
  have hends := read_ends hsig hloop
  match hx : read dst attempt s.pipe with
  | (.ok n, p) =>
    rw [step_read_ok hx]
    exact congrArg _ (hends.returns hx).1
  | (.error e, p) =>
    have hopen := (hends.fails hx).2.2.2
    rw [hclosed] at hopen
    cases hopen

/-- A sound read met the condition. -/
lemma fits_of_sound (h : s.Balanced) (l : LockSection) (hsound : s.StepSound l) : s.Fits l := by
  cases l with
  | read dst attempt =>
    intro hsig hread
    obtain ⟨q, hq, -⟩ := h
    obtain ⟨hdef, -, hright⟩ := hsound
    constructor
    · intro hlen
      by_contra hclosed
      rw [Bool.not_eq_false] at hclosed
      rw [read_empty_closed hsig hlen hclosed] at hright
      rw [(hright.2 rfl).2] at hread
      cases hread
    · by_contra hover
      exact hdef (read_overflow hsig hq (hq.isReadable_iff.mp hread) (not_lt.mp hover))
  | _ => trivial

/-- Without faults, a run of sections on a new pipe is sound exactly if every read of a
pipe with bytes meets the condition. -/
theorem sound_iff_allFit (sections : List LockSection) (hnofault : start.NoFault sections) :
    start.Sound sections ↔ start.AllFit sections := by
  have hstart := balanced_start
  generalize start = s at hstart hnofault ⊢
  induction sections generalizing s with
  | nil => exact .rfl
  | cons l rest ih =>
    constructor
    · rintro ⟨hsound, hrest⟩
      exact ⟨fits_of_sound hstart l hsound, (ih _ hsound.2.1 hnofault.2).mp hrest⟩
    · rintro ⟨hfits, hrest⟩
      have hsound := step_sound hstart l hfits hnofault.1
      exact ⟨hsound, (ih _ hsound.2.1 hnofault.2).mpr hrest⟩

/-- Two writers and two readers in turn, to the end of the stream. -/
theorem sound_iff_allFit_turns :
    start.Sound [.write ⟨some 4096, [1, 2, 3]⟩ (.first false), .read ⟨some 8192, 2, by decide⟩
      (.first false), .write ⟨some 4096, [4]⟩ (.first true), .read ⟨some 8192, 8, by decide⟩
      (.woken false), .dropWriter, .read ⟨some 8192, 8, by decide⟩ (.first false)] := by
  refine (sound_iff_allFit _ ?_).mpr ?_
  · exact ⟨by decide +kernel, by decide +kernel, by decide +kernel, by decide +kernel,
      by decide +kernel, by decide +kernel, trivial⟩
  · exact ⟨trivial, by unfold Fits; decide +kernel, trivial, by unfold Fits; decide +kernel,
      trivial, by unfold Fits; decide +kernel, trivial⟩

/-- The writers leave two bytes behind. A read into an empty buffer returns 0 although
bytes are there. After one byte, a read of the largest length leaves the array. -/
theorem read_zero_with_bytes_left :
    let s := ((start.step (.write ⟨some 4096, [7, 8]⟩ (.first false))).2.step .dropWriter).2
    let t := (s.step (.read ⟨some 8192, 1, by decide⟩ (.first false))).2
    (s.step (.read ⟨some 8192, 0, by decide⟩ (.first false))).1 = .ok 0 ∧
      s.pipe.inner.buf.isReadable = true ∧
    (t.step (.read ⟨some 8192, 2 ^ 64 - 1, by decide⟩ (.first false))).1 = .error .undefined ∧
      t.pipe.inner.buf.isReadable = true := by
  decide +kernel

end Stream

end Kevlar.Watch.Pipe
