import Kevlar.WatchedFiles

/-!
# Changes that a watcher can see

An operation announces its change of an object if the generation of the object moves
whenever the object has watchers and is not the same afterwards. Every operation does,
except for copies that stop at a user address after part of the bytes have moved and
for messages that are taken out of a datagram socket without a byte being delivered.
-/
namespace Kevlar.Watch
open Function RingBuffer Fallible

/-! ## Transfers -/

section Transfers

variable {cap : ℕ}

/-- A transfer that moves no byte leaves the ring alone. -/
def Moves (pos : ℕ) (r : ByteRing cap) (n : ℕ) (r' : ByteRing cap) : Prop :=
  pos ≤ n ∧ (n = pos → r' = r)

lemma Moves.refl (pos : ℕ) (r : ByteRing cap) : Moves pos r pos r := ⟨le_rfl, fun _ => rfl⟩

variable {r : ByteRing cap} {len : ℕ}

/-- What follows a piece of `k > 0` bytes. -/
lemma Moves.later {pos k n : ℕ} {r₁ r' : ByteRing cap} (hk : 0 < k)
    (h : Moves (pos + k) r₁ n r') : Moves pos r n r' := by
  have hle := h.1
  exact ⟨by omega, fun hn => by omega⟩

lemma copyIn_moves (src : UserBuffer) (fuel pos : ℕ) (r : ByteRing cap) :
    (copyIn src fuel pos).Ends r (Moves pos r) fun e _ => e = .EFAULT := by
  induction fuel generalizing pos r with
  | zero => exact ends_pure (Moves.refl pos r)
  | succ fuel ih =>
    rw [copyIn, ends_get_bind]
    dsimp only
    split_ifs with hzero hreach
    · exact ends_pure (Moves.refl pos r)
    · exact ends_throw rfl
    · have hpos := pos_of_ne_zero hzero
      exact (ih (pos + _) _).mono (fun _ _ hn => hn.later hpos) fun _ _ he => he

/-- A piece that is popped is not empty. -/
lemma popSlice_nonempty (r : ByteRing cap) (hlen : len < 2 ^ 64) {data : List (BitVec 8)}
    {ring : RingBuffer (BitVec 8) cap} (h : r.ring.popSlice len = some (some data, ring)) :
    0 < data.length := by
  have hrp := r.rp_lt
  unfold popSlice at h
  split_ifs at h with hidle hlt
  · cases h
  all_goals
    obtain ⟨d, hd, hpair⟩ := Option.map_eq_some_iff.mp h
    cases hpair
    unfold slice at hd
    split_ifs at hd with hin
    cases hd
    rw [List.length_map, List.length_range]
    simp only [Bool.or_eq_true, beq_iff_eq, not_or] at hidle
    unfold wadd at hin ⊢
    omega

lemma popSlice_none (rb : RingBuffer (BitVec 8) cap) {ring : RingBuffer (BitVec 8) cap}
    (h : rb.popSlice len = some (none, ring)) : ring = rb := by
  unfold popSlice at h
  split_ifs at h
  · cases h
    rfl
  all_goals
    obtain ⟨_, _, hpair⟩ := Option.map_eq_some_iff.mp h
    cases hpair

lemma popSlice_ok {r' : ByteRing cap} {data : Option (List (BitVec 8))}
    (h : r.popSlice len = .ok (data, r')) : r.ring.popSlice len = some (data, r'.ring) := by
  unfold ByteRing.popSlice at h
  split at h
  · cases h
  · next hpop =>
    cases h
    exact hpop

lemma popSlice_error {e : IoError} (h : r.popSlice len = .error e) :
    e = .undefined := by
  unfold ByteRing.popSlice at h
  split at h
  · cases h
    rfl
  · cases h

/-- Only a piece that is not empty changes the ring. -/
def Pops (r : ByteRing cap) (data : Option (List (BitVec 8))) (r' : ByteRing cap) : Prop :=
  match data with
  | none => r' = r
  | some d => 0 < d.length

lemma pop_ends (r : ByteRing cap) (hlen : len < 2 ^ 64) :
    (pop len).Ends r (Pops r) fun e _ => e = .undefined := by
  unfold Ends pop
  match h : r.popSlice len with
  | .error e => exact popSlice_error h
  | .ok (some d, r') => exact popSlice_nonempty r hlen (popSlice_ok h)
  | .ok (none, r') =>
    have hring := popSlice_none _ (popSlice_ok h)
    obtain ⟨ring, _, _⟩ := r'
    cases hring
    rfl

/-- Errors of a transfer. -/
def Stops (e : IoError) : Prop := e = .EFAULT ∨ e = .undefined

lemma pop_stops (r : ByteRing cap) (len : ℕ) :
    (pop len).Ends r (fun _ _ => True) fun e _ => Stops e := by
  unfold Ends pop
  match h : r.popSlice len with
  | .error e => exact .inr (popSlice_error h)
  | .ok (_, _) => exact trivial

lemma copyOut_moves (dst : UserBufferMut) (fuel pos : ℕ) (r : ByteRing cap) :
    (copyOut dst fuel pos).Ends r (Moves pos r) fun e _ => Stops e := by
  induction fuel generalizing pos r with
  | zero => exact ends_pure (Moves.refl pos r)
  | succ fuel ih =>
    have hlen : dst.len - pos < 2 ^ 64 := lt_of_le_of_lt (Nat.sub_le _ _) dst.len_lt
    refine (pop_ends r hlen).bind ?_ fun e _ he => .inr he
    intro data r' hpop
    match data with
    | none =>
      rw [show r' = r from hpop]
      exact ends_pure (Moves.refl pos r)
    | some d =>
      dsimp only
      split_ifs with hreach
      · exact ends_throw (.inl rfl)
      · exact (ih _ _).mono (fun _ _ hn => hn.later hpop) fun _ _ he => he

lemma discard_stops (fuel remaining : ℕ) (r : ByteRing cap) :
    (discard fuel remaining).Ends r (fun _ _ => True) fun e _ => Stops e := by
  induction fuel generalizing remaining r with
  | zero => exact ends_pure trivial
  | succ fuel ih =>
    rw [discard]
    split_ifs
    · exact ends_pure trivial
    · refine (pop_stops r remaining).bind ?_ fun _ _ h => h
      intro data r' _
      match data with
      | none => exact ends_pure trivial
      | some d => exact ih _ _

lemma dgramPayload_stops (dst : UserBufferMut) (fuel remaining pos : ℕ) (r : ByteRing cap) :
    (dgramPayload dst fuel remaining pos).Ends r (fun _ _ => True) fun e _ => Stops e := by
  induction fuel generalizing remaining pos r with
  | zero => exact ends_pure trivial
  | succ fuel ih =>
    rw [dgramPayload]
    split_ifs
    · exact ends_pure trivial
    · exact (discard_stops _ _ r).bind (fun _ _ _ => ends_pure trivial) fun _ _ h => h
    · refine (pop_stops r _).bind ?_ fun _ _ h => h
      intro data r' _
      match data with
      | none => exact ends_pure trivial
      | some d =>
        change Ends (if _ then _ else _) r' _ _
        split_ifs
        · exact ends_throw (.inl rfl)
        · exact ih _ _ _

lemma dgramReadOne_stops (dst : UserBufferMut) (r : ByteRing cap) :
    (dgramReadOne dst).Ends r (fun _ _ => True) fun e _ => Stops e := by
  refine (pop_stops r 1).bind ?_ fun _ _ h => h
  intro b0 r₁ _
  match b0 with
  | none => exact ends_pure trivial
  | some b0 =>
    refine (pop_stops r₁ 1).bind ?_ fun _ _ h => h
    intro b1 r₂ _
    match b1 with
    | none => exact ends_pure trivial
    | some b1 => exact dgramPayload_stops dst _ _ 0 r₂

/-- Nothing is taken out of a ring that is not readable. -/
lemma dgramReadOne_idle (dst : UserBufferMut) (h : r.isReadable = false) :
    dgramReadOne dst r = (.ok 0, r) := by
  have hpop : (pop 1 : Transfer cap _) r = (.ok none, r) := by
    have hring : r.ring.popSlice 1 = some (none, r.ring) := by
      rw [popSlice, show r.ring.isReadable = false from h]
      rfl
    unfold pop
    cases hp : r.popSlice 1 with
    | error e =>
      unfold ByteRing.popSlice at hp
      split at hp
      · next hnone =>
        rw [hring] at hnone
        cases hnone
      · cases hp
    | ok x =>
      have hok := popSlice_ok hp
      rw [hring] at hok
      obtain ⟨data, ring, _, _⟩ := x
      cases hok
      rfl
  change Fallible.bind (pop 1) _ r = _
  rw [Fallible.bind, hpop]
  rfl

end Transfers

/-! ## Announced changes of one object -/

/-- The watchers are the same, and they see a change. -/
def Gated.Announces {δ : Type} (x y : Gated δ) : Prop :=
  y.etWatcherCount = x.etWatcherCount ∧
    (0 < x.etWatcherCount → y = x ∨ x.stateGen < y.stateGen)

namespace Gated

variable {δ : Type} {x y : Gated δ}

lemma Announces.refl (x : Gated δ) : x.Announces x := ⟨rfl, fun _ => .inl rfl⟩

/-- A change that is counted. -/
lemma announces_bumpGen (hx : x.stateGen < 2 ^ 63) (hgen : y.stateGen = x.stateGen)
    (hcount : y.etWatcherCount = x.etWatcherCount) : x.Announces y.bumpGen := by
  unfold bumpGen
  split_ifs with hpos
  · refine ⟨hcount, fun _ => .inr ?_⟩
    change x.stateGen < wadd y.stateGen 1
    rw [hgen, wadd_of_lt (by omega)]
    omega
  · exact ⟨hcount, fun hx => absurd (hcount ▸ hx) hpos⟩

lemma announces_change (hx : x.stateGen < 2 ^ 63) (f : δ → δ) : x.Announces (x.change f) :=
  announces_bumpGen hx rfl rfl

end Gated

/-! ## Pipes -/

namespace Pipe

/-- A run that is not cut off announces what it changes. -/
def Announced (p : Pipe) (x : Fallible IoError Pipe ℕ) : Prop :=
  x.Ends p (fun _ q => p.Announces q) fun e q => ¬ Stops e → p.Announces q

variable {p : Pipe} {x : Fallible IoError Pipe ℕ}

lemma onBuf_ends {α : Type} {x : Transfer pipeSize α} {Q : α → ByteRing pipeSize → Prop}
    {R : IoError → Prop} (h : x.Ends p.inner.buf Q fun e _ => R e) :
    (onBuf x).Ends p (fun a q => ∃ buf, Q a buf ∧ q = p.withBuf buf)
      fun e q => R e ∧ ∃ buf, q = p.withBuf buf := by
  unfold Ends onBuf at *
  match hx : x p.inner.buf with
  | (.ok a, buf) =>
    rw [hx] at h
    exact ⟨buf, h, rfl⟩
  | (.error e, buf) =>
    rw [hx] at h
    exact ⟨h, buf, rfl⟩

/-- The end of a fast path: bytes that moved are counted. -/
lemma report_announces {written : ℕ} {buf : ByteRing pipeSize} (idle : IoError)
    (hp : p.stateGen < 2 ^ 63) (h : Moves 0 p.inner.buf written buf) :
    (report written idle).Ends (p.withBuf buf) (fun _ q => p.Announces q)
      fun _ q => p.Announces q := by
  unfold report
  split_ifs with hpos
  · exact Gated.announces_bumpGen hp rfl rfl
  · have hsame : p.withBuf buf = p := by rw [h.2 (by omega), withBuf]
    rw [hsame]
    exact ends_throw (Gated.Announces.refl p)

lemma writeFirst_announced (hp : p.stateGen < 2 ^ 63) (src : UserBuffer) (nonblock : Bool) :
    Announced p (writeFirst src nonblock) := by
  unfold Announced writeFirst
  rw [ends_get_bind]
  split_ifs
  · exact ends_throw fun _ => Gated.Announces.refl p
  · refine (onBuf_ends (copyIn_moves src _ 0 _)).bind ?_ ?_
    · rintro written _ ⟨buf, hmoves, rfl⟩
      exact (report_announces _ hp hmoves).mono (fun _ _ h => h) fun _ _ h _ => h
    · rintro e _ ⟨he, -⟩ hstop
      exact absurd (.inl he) hstop
  · exact ends_throw fun _ => Gated.Announces.refl p

lemma readFirst_announced (hp : p.stateGen < 2 ^ 63) (dst : UserBufferMut) (nonblock : Bool) :
    Announced p (readFirst dst nonblock) := by
  refine (onBuf_ends (copyOut_moves dst _ 0 _)).bind ?_ ?_
  · rintro written _ ⟨buf, hmoves, rfl⟩
    rw [ends_get_bind]
    split_ifs with heof
    · have hsame : p.withBuf buf = p := by rw [hmoves.2 heof.1, withBuf]
      rw [hsame]
      exact ends_pure (Gated.Announces.refl p)
    · exact (report_announces _ hp hmoves).mono (fun _ _ h => h) fun _ _ h _ => h
  · rintro e _ ⟨he, -⟩ hstop
    exact absurd he hstop

/-- A closure changes the buffer only, and nothing if it goes back to sleep. -/
def Unwoken (p : Pipe) (x : Fallible IoError Pipe ℕ) : Prop :=
  x.Ends p (fun _ q => ∃ buf, q = p.withBuf buf)
    fun e q => (∃ buf, q = p.withBuf buf) ∧ (e = .sleeps → q = p)

lemma withBuf_self (p : Pipe) : p.withBuf p.inner.buf = p := rfl

lemma writeWoken_unwoken (p : Pipe) (src : UserBuffer) : Unwoken p (writeWoken src) := by
  unfold Unwoken writeWoken
  rw [ends_get_bind]
  split_ifs
  · exact ends_throw ⟨⟨_, p.withBuf_self.symm⟩, fun _ => rfl⟩
  · refine (onBuf_ends (copyIn_moves src _ 0 _)).bind ?_ ?_
    · rintro written _ ⟨buf, hmoves, rfl⟩
      split_ifs with hpos
      · exact ends_pure ⟨buf, rfl⟩
      · refine ends_throw ⟨⟨buf, rfl⟩, fun _ => ?_⟩
        rw [hmoves.2 (by omega), withBuf_self]
    · rintro e _ ⟨rfl, hbuf⟩
      exact ⟨hbuf, fun h => nomatch h⟩

lemma readWoken_unwoken (p : Pipe) (dst : UserBufferMut) : Unwoken p (readWoken dst) := by
  refine (onBuf_ends (copyOut_moves dst _ 0 _)).bind ?_ ?_
  · rintro written _ ⟨buf, hmoves, rfl⟩
    rw [ends_get_bind]
    split_ifs with hpos
    · exact ends_pure ⟨buf, rfl⟩
    · exact ends_pure ⟨buf, rfl⟩
    · refine ends_throw ⟨⟨buf, rfl⟩, fun _ => ?_⟩
      rw [hmoves.2 (by omega), withBuf_self]
  · rintro e _ ⟨he, hbuf⟩
    refine ⟨hbuf, fun h => ?_⟩
    rw [h] at he
    exact nomatch he

lemma wake_announces (hp : p.stateGen < 2 ^ 63) (h : Unwoken p x) : p.Announces (wake x p).2 := by
  unfold Unwoken Ends at h
  have hbump : ∀ buf, p.Announces (p.withBuf buf).bumpGen := fun buf =>
    Gated.announces_bumpGen hp rfl rfl
  unfold wake
  match hx : x p with
  | (.ok n, q) =>
    rw [hx] at h
    obtain ⟨buf, rfl⟩ := h
    exact hbump buf
  | (.error e, q) =>
    rw [hx] at h
    obtain ⟨⟨buf, rfl⟩, hsleep⟩ := h
    by_cases he : e = .sleeps
    · rw [he]
      rw [hsleep he]
      exact Gated.Announces.refl p
    · cases e <;> first | exact hbump buf | exact absurd rfl he

/-- A run that was woken announces what it did even when the user's buffer cut it off. -/
def Reported (p : Pipe) (attempt : Attempt) (x : Fallible IoError Pipe ℕ) : Prop :=
  (∀ nonblock, attempt = .first nonblock → (x p).1 ≠ .error .EFAULT) →
    (x p).1 ≠ .error .undefined → p.Announces (x p).2

lemma Announced.reported (h : Announced p x) (nonblock : Bool) :
    Reported p (.first nonblock) x := by
  intro hfault hundef
  have hf := hfault nonblock rfl
  unfold Announced Ends at h
  match hx : x p with
  | (.ok n, q) =>
    rw [hx] at h
    exact h
  | (.error e, q) =>
    rw [hx] at h hf hundef
    apply h
    rintro (rfl | rfl)
    · exact hf rfl
    · exact hundef rfl

lemma signalled_unwoken (p : Pipe) (h : Unwoken p x) (signalled : Bool) :
    Unwoken p (if signalled then Fallible.throw .EINTR else x) := by
  split_ifs
  · exact ends_throw ⟨⟨_, p.withBuf_self.symm⟩, fun h => nomatch h⟩
  · exact h

lemma write_reported (hp : p.stateGen < 2 ^ 63) (src : UserBuffer) (attempt : Attempt) :
    Reported p attempt (write src attempt) := by
  cases attempt with
  | first nonblock => exact (writeFirst_announced hp src nonblock).reported nonblock
  | woken signalled =>
    exact fun _ _ => wake_announces hp (signalled_unwoken p (writeWoken_unwoken p src) signalled)

lemma read_reported (hp : p.stateGen < 2 ^ 63) (dst : UserBufferMut) (attempt : Attempt) :
    Reported p attempt (read dst attempt) := by
  cases attempt with
  | first nonblock => exact (readFirst_announced hp dst nonblock).reported nonblock
  | woken signalled =>
    exact fun _ _ => wake_announces hp (signalled_unwoken p (readWoken_unwoken p dst) signalled)

end Pipe

/-! ## Eventfds -/

namespace EventFd

def Announces (e f : EventFd) : Prop := f = e ∨ e.stateGen < f.stateGen

lemma Announces.refl (e : EventFd) : e.Announces e := .inl rfl

variable {e f : EventFd}

lemma announces_of_gen (he : e.stateGen < 2 ^ 63) (h : f.stateGen = wadd e.stateGen 1) :
    e.Announces f := by
  right
  rw [h, wadd_of_lt (by omega)]
  omega

lemma tryReadCounter_announces (he : e.stateGen < 2 ^ 63) (h : e.tryReadCounter = some f) :
    e.Announces f := by
  unfold tryReadCounter at h
  split at h
  · cases h
  · cases h
    exact announces_of_gen he rfl

lemma tryWriteCounter_announces {val : ℕ} (he : e.stateGen < 2 ^ 63)
    (h : e.tryWriteCounter val = some f) : e.Announces f := by
  unfold tryWriteCounter at h
  split at h
  · cases h
    exact announces_of_gen he rfl
  · cases h

lemma read_announces (he : e.stateGen < 2 ^ 63) (dst : UserBufferMut) (attempt : Attempt) :
    e.Announces (read dst attempt e).2 := by
  change e.Announces (Fallible.bind Fallible.get _ e).2
  unfold Fallible.bind Fallible.get
  dsimp only
  split
  · exact .refl e
  split
  · exact .refl e
  match h : e.tryReadCounter with
  | none => exact .refl e
  | some f =>
    have hf := tryReadCounter_announces he h
    by_cases hreach : reachable dst.base 0 8
    · rw [if_pos hreach]
      exact hf
    · rw [if_neg hreach]
      exact hf

lemma write_announces (he : e.stateGen < 2 ^ 63) (src : UserBuffer) (attempt : Attempt) :
    e.Announces (write src attempt e).2 := by
  change e.Announces (Fallible.bind Fallible.get _ e).2
  unfold Fallible.bind Fallible.get
  dsimp only
  split
  · exact .refl e
  split
  · exact .refl e
  split
  · exact .refl e
  split
  · exact .refl e
  match h : e.tryWriteCounter _ with
  | none => exact .refl e
  | some f => exact tryWriteCounter_announces he h

end EventFd

/-! ## Stream pairs -/

namespace StreamPair

@[simp] lemma side_setSide_same (p : StreamPair) (e : End) (x : Gated StreamInner) :
    (p.setSide e x).side e = x := by
  cases e <;> rfl

variable {e : End} {p q : StreamPair}

lemma side_setSide_of_ne (p : StreamPair) {f : End} (h : f ≠ e) (x : Gated StreamInner) :
    (p.setSide e x).side f = p.side f := by
  cases e <;> cases f <;> first | rfl | exact absurd rfl h

lemma setSide_side (p : StreamPair) (e : End) : p.setSide e (p.side e) = p := by
  cases e <;> rfl

/-- The watchers of both sides are the same, and if both sides have watchers they see a
change. -/
def Announces (p q : StreamPair) : Prop :=
  (∀ e, (q.side e).etWatcherCount = (p.side e).etWatcherCount) ∧
    ((∀ e, 0 < (p.side e).etWatcherCount) →
      q = p ∨ (∀ e, (p.side e).stateGen ≤ (q.side e).stateGen) ∧
        ∃ e, (p.side e).stateGen < (q.side e).stateGen)

/-- Generations and watchers are as before. -/
structure Counts (p q : StreamPair) : Prop where
  gens : ∀ e, (q.side e).stateGen = (p.side e).stateGen
  watchers : ∀ e, (q.side e).etWatcherCount = (p.side e).etWatcherCount

lemma Announces.refl (p : StreamPair) : p.Announces p := ⟨fun _ => rfl, fun _ => .inl rfl⟩

lemma Counts.refl (p : StreamPair) : p.Counts p := ⟨fun _ => rfl, fun _ => rfl⟩

lemma Counts.setSide (h : p.Counts q) (e : End) {x : Gated StreamInner}
    (hgen : x.stateGen = (q.side e).stateGen)
    (hcount : x.etWatcherCount = (q.side e).etWatcherCount) : p.Counts (q.setSide e x) := by
  constructor
  · intro f
    by_cases hf : f = e
    · rw [hf, side_setSide_same, hgen, h.gens]
    · rw [side_setSide_of_ne q hf, h.gens]
  · intro f
    by_cases hf : f = e
    · rw [hf, side_setSide_same, hcount, h.watchers]
    · rw [side_setSide_of_ne q hf, h.watchers]

lemma Counts.withBuf (h : p.Counts q) (e : End) (buf : ByteRing unixStreamBufSize) :
    p.Counts (q.withBuf e buf) :=
  h.setSide e rfl rfl

/-- A change that one side counts. -/
lemma Counts.bump (h : p.Counts q) (hp : (p.side e).stateGen < 2 ^ 63) :
    p.Announces (q.bump e) := by
  have hside := Gated.announces_bumpGen hp (h.gens e) (h.watchers e)
  constructor
  · intro f
    by_cases hf : f = e
    · rw [hf, StreamPair.bump, side_setSide_same]
      exact hside.1
    · rw [StreamPair.bump, side_setSide_of_ne q hf, h.watchers]
  · intro hpos
    right
    have hlt : (p.side e).stateGen < ((q.bump e).side e).stateGen := by
      rw [StreamPair.bump, side_setSide_same, Gated.bumpGen,
        if_pos (by rw [h.watchers]; exact hpos e)]
      change _ < wadd (q.side e).stateGen 1
      rw [h.gens, wadd_of_lt (by omega)]
      omega
    refine ⟨fun f => ?_, e, hlt⟩
    by_cases hf : f = e
    · rw [hf]
      exact hlt.le
    · rw [StreamPair.bump, side_setSide_of_ne q hf, h.gens]

lemma withBuf_self (p : StreamPair) (e : End) : p.withBuf e (p.side e).inner.buf = p :=
  p.setSide_side e

lemma receive_stops (p : StreamPair) (dst : UserBufferMut) (r : ByteRing unixStreamBufSize) :
    (p.receive dst).Ends r (fun _ _ => True) fun e _ => Stops e := by
  unfold receive
  split_ifs
  · exact dgramReadOne_stops dst r
  · exact (copyOut_moves dst _ 0 r).mono (fun _ _ _ => trivial) fun _ _ h => h

/-- A read that brings nothing to its caller. -/
def Idle (result : Except IoError ℕ) : Prop :=
  result = .ok 0 ∨ result = .error .EAGAIN ∨ result = .error .sleeps

lemma emptyRead_idle (p q : StreamPair) (e : End) (attempt : Attempt) :
    Idle (p.emptyRead e attempt q).1 ∧ (p.emptyRead e attempt q).2 = q := by
  unfold emptyRead
  split_ifs
  · exact ⟨.inl rfl, rfl⟩
  · refine ⟨.inr ?_, rfl⟩
    match attempt with
    | .first true => exact .inl rfl
    | .first false | .woken _ => exact .inr rfl

/-- A read that is not cut off announces what it takes out, unless it takes a message out
of a datagram socket and delivers nothing. -/
lemma read_announces (hp : ∀ e, (p.side e).stateGen < 2 ^ 63) (e : End) (dst : UserBufferMut)
    (attempt : Attempt) (hstop : ∀ err, (read e dst attempt p).1 = .error err → ¬ Stops err)
    (hlost : p.dgram = true → (p.side e.other).inner.buf.isReadable = true →
      ¬ Idle (read e dst attempt p).1) : p.Announces (read e dst attempt p).2 := by
  have hread : read e dst attempt p = (if attempt.signalled then Fallible.throw .EINTR
      else Fallible.bind (onBuf e.other (p.receive dst)) fun written =>
        report e.other written (p.emptyRead e attempt) : Fallible IoError StreamPair ℕ) p := rfl
  rw [hread] at hstop hlost ⊢
  by_cases hsig : attempt.signalled = true
  · rw [if_pos hsig]
    exact .refl p
  rw [if_neg hsig] at hstop hlost ⊢
  have hends := p.receive_stops dst (p.side e.other).inner.buf
  unfold Ends at hends
  unfold Fallible.bind onBuf at hstop hlost ⊢
  match hx : p.receive dst (p.side e.other).inner.buf with
  | (.error err, buf) =>
    rw [hx] at hends hstop
    exact absurd hends (hstop err rfl)
  | (.ok n, buf) =>
    rw [hx] at hlost
    dsimp only at hlost ⊢
    unfold report at hlost ⊢
    by_cases hn : 0 < n
    · rw [if_pos hn]
      exact ((Counts.refl p).withBuf e.other buf).bump (hp e.other)
    rw [if_neg hn] at hlost ⊢
    have hidle := emptyRead_idle p (p.withBuf e.other buf) e attempt
    rw [hidle.2]
    have hbuf : buf = (p.side e.other).inner.buf := by
      unfold receive at hx
      by_cases hd : p.dgram = true
      · rw [if_pos hd] at hx
        by_cases hr : (p.side e.other).inner.buf.isReadable = true
        · exact absurd hidle.1 (hlost hd hr)
        · rw [dgramReadOne_idle dst (Bool.eq_false_iff.mpr hr)] at hx
          cases hx
          rfl
      · rw [if_neg hd] at hx
        have hmoves := copyOut_moves dst dst.len 0 (p.side e.other).inner.buf
        unfold Ends at hmoves
        rw [hx] at hmoves
        exact hmoves.2 (by omega)
    rw [hbuf, withBuf_self]
    exact .refl p

lemma onBuf_ends {α : Type} {x : Transfer unixStreamBufSize α}
    {Q : α → ByteRing unixStreamBufSize → Prop} {R : IoError → Prop}
    (h : x.Ends (p.side e).inner.buf Q fun err _ => R err) :
    (onBuf e x).Ends p (fun a q => ∃ buf, Q a buf ∧ q = p.withBuf e buf)
      fun err _ => R err := by
  unfold Ends onBuf at *
  match hx : x (p.side e).inner.buf with
  | (.ok a, buf) =>
    rw [hx] at h
    exact ⟨buf, h, rfl⟩
  | (.error err, buf) =>
    rw [hx] at h
    exact h

/-- A message is counted. -/
lemma writeDgram_announces (hp : ∀ e, (p.side e).stateGen < 2 ^ 63) (e : End) (src : UserBuffer)
    (idle : IoError) :
    (writeDgram e src idle).Ends p (fun _ q => p.Announces q)
      fun err q => ¬ Stops err → p.Announces q := by
  unfold writeDgram
  rw [ends_get_bind]
  split_ifs
  · have hheader : (dgramHeader src.bytes.length).Ends (p.side e).inner.buf (fun _ _ => True)
        fun err _ => Stops err := trivial
    refine (onBuf_ends hheader).bind ?_ fun _ _ h hstop => absurd h hstop
    rintro _ _ ⟨buf, -, rfl⟩
    refine (onBuf_ends (copyIn_moves src _ 0 _)).bind ?_ fun _ _ h hstop => absurd (.inl h) hstop
    rintro written _ ⟨buf', -, rfl⟩
    exact (((Counts.refl p).withBuf e buf).withBuf e buf').bump (hp e)
  · exact ends_throw fun _ => .refl p

lemma write_announces (hp : ∀ e, (p.side e).stateGen < 2 ^ 63) (e : End) (src : UserBuffer)
    (attempt : Attempt) :
    (write e src attempt).Ends p (fun _ q => p.Announces q)
      fun err q => ¬ Stops err → p.Announces q := by
  have hplain : Fallible.Ends (onBuf e (copyIn src src.bytes.length 0) >>= fun written =>
      report e written (Fallible.throw attempt.idle)) p (fun _ q => p.Announces q)
      fun err q => ¬ Stops err → p.Announces q := by
    refine (onBuf_ends (copyIn_moves src _ 0 _)).bind ?_ fun _ _ h hstop => absurd (.inl h) hstop
    rintro written _ ⟨buf, hmoves, rfl⟩
    unfold report
    split_ifs with hpos
    · exact ((Counts.refl p).withBuf e buf).bump (hp e)
    · rw [hmoves.2 (by omega), withBuf_self]
      exact ends_throw fun _ => .refl p
  unfold write
  rw [ends_get_bind]
  split_ifs
  · exact ends_throw fun _ => .refl p
  · exact ends_throw fun _ => .refl p
  · exact ends_throw fun _ => .refl p
  · split
    · exact writeDgram_announces hp e src _
    · exact hplain

lemma Announces.trans {r : StreamPair} (h₁ : p.Announces q) (h₂ : q.Announces r) :
    p.Announces r := by
  refine ⟨fun e => (h₂.1 e).trans (h₁.1 e), fun hpos => ?_⟩
  have hpos' : ∀ e, 0 < (q.side e).etWatcherCount := fun e => by
    rw [h₁.1 e]
    exact hpos e
  obtain rfl | ⟨hle₁, e, hlt₁⟩ := h₁.2 hpos
  · exact h₂.2 hpos
  · obtain rfl | ⟨hle₂, -⟩ := h₂.2 hpos'
    · exact .inr ⟨hle₁, e, hlt₁⟩
    · exact .inr ⟨fun f => (hle₁ f).trans (hle₂ f), e, lt_of_lt_of_le hlt₁ (hle₂ e)⟩

lemma setSide_setSide (x y : Gated StreamInner) :
    (p.setSide e x).setSide e y = p.setSide e y := by
  cases e <;> rfl

lemma Counts.shutSide (h : p.Counts q) (hp : (p.side e).stateGen < 2 ^ 63) :
    p.Announces (q.shutSide e) := by
  have hshut : q.shutSide e =
      (q.setSide e { q.side e with inner := { (q.side e).inner with shutWr := true } }).bump e := by
    rw [StreamPair.bump, setSide_setSide, side_setSide_same]
    rfl
  rw [hshut]
  apply Counts.bump _ hp
  apply h.setSide <;> rfl

lemma side_shutSide_other : (p.shutSide e).side e.other = p.side e.other :=
  side_setSide_of_ne p (by cases e <;> exact fun h => nomatch h) _

lemma shutdown_announces (hp : ∀ e, (p.side e).stateGen < 2 ^ 63) (e : End) (how : ShutdownHow) :
    p.Announces (p.shutdown e how) := by
  cases how with
  | rd => exact (Counts.refl p).shutSide (hp e.other)
  | wr => exact (Counts.refl p).shutSide (hp e)
  | rdWr =>
    have hother : ((p.shutSide e).side e.other).stateGen < 2 ^ 63 := by
      rw [side_shutSide_other]
      exact hp e.other
    exact ((Counts.refl p).shutSide (hp e)).trans ((Counts.refl _).shutSide hother)

lemma dropEnd_announces (hp : ∀ e, (p.side e).stateGen < 2 ^ 63) (e : End) :
    p.Announces (p.dropEnd e) := by
  have hflag : p.Counts { p with peerClosed := true } := by
    constructor <;> intro f <;> cases f <;> rfl
  have hother : (({ p with peerClosed := true }.shutSide e).side e.other).stateGen < 2 ^ 63 := by
    rw [side_shutSide_other, hflag.gens]
    exact hp e.other
  exact (hflag.shutSide (hp e)).trans ((Counts.refl _).bump hother)

end StreamPair

/-! ## All files -/

/-- Every object announces its changes, and the socket objects are as before. -/
structure Files.Announces (s t : Files) : Prop where
  pipes : ∀ k, (s.pipes k).Announces (t.pipes k)
  eventfds : ∀ k, (s.eventfds k).Announces (t.eventfds k)
  pairs : ∀ k, (s.pairs k).Announces (t.pairs k)
  listeners : ∀ k, (s.listeners k).Announces (t.listeners k)
  sockets : t.sockets = s.sockets
  nextPair : t.nextPair = s.nextPair
  nextListener : t.nextListener = s.nextListener

/-- No generation has come near the end of its 64 bits. -/
structure Files.Young (s : Files) : Prop where
  pipes : ∀ k, (s.pipes k).stateGen < 2 ^ 63
  eventfds : ∀ k, (s.eventfds k).stateGen < 2 ^ 63
  pairs : ∀ k e, ((s.pairs k).side e).stateGen < 2 ^ 63
  listeners : ∀ k, (s.listeners k).stateGen < 2 ^ 63

namespace Files

lemma Announces.refl (s : Files) : s.Announces s :=
  ⟨fun _ => .refl _, fun _ => .refl _, fun _ => .refl _, fun _ => .refl _, rfl, rfl, rfl⟩

variable {s : Files} {k : ℕ}

lemma announces_setPipe {p : Pipe} (h : (s.pipes k).Announces p) :
    s.Announces (s.setPipe k p) :=
  { Announces.refl s with
    pipes := (forall_update_iff _ fun j x => (s.pipes j).Announces x).mpr
      ⟨h, fun _ _ => .refl _⟩ }

lemma announces_setEventfd {e : EventFd} (h : (s.eventfds k).Announces e) :
    s.Announces (s.setEventfd k e) :=
  { Announces.refl s with
    eventfds := (forall_update_iff _ fun j x => (s.eventfds j).Announces x).mpr
      ⟨h, fun _ _ => .refl _⟩ }

lemma announces_setPair {p : StreamPair} (h : (s.pairs k).Announces p) :
    s.Announces (s.setPair k p) :=
  { Announces.refl s with
    pairs := (forall_update_iff _ fun j x => (s.pairs j).Announces x).mpr
      ⟨h, fun _ _ => .refl _⟩ }

lemma announces_setListener {l : Listener} (h : (s.listeners k).Announces l) :
    s.Announces (s.setListener k l) :=
  { Announces.refl s with
    listeners := (forall_update_iff _ fun j x => (s.listeners j).Announces x).mpr
      ⟨h, fun _ _ => .refl _⟩ }

end Files

end Kevlar.Watch
