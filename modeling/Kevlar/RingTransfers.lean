import Kevlar.FileChanges

/-!
# What a transfer does to the bytes of a ring buffer

A transfer moves bytes piece by piece between a ring buffer and a user's buffer. Each
loop is described by the queue that the ring holds before and after it. The loops that
fill a user's buffer return only how many bytes they moved; here they also return the
bytes.
-/
namespace Kevlar.Watch
open List Nat RingBuffer

variable {cap : ℕ}

section Bytes

open Fallible (throw)

/-- `copyOut` with the bytes that it writes to the user. -/
def copyOutBytes (dst : UserBufferMut) : ℕ → ℕ → Transfer cap (List (BitVec 8))
  | 0, _ => pure []
  | fuel + 1, pos => do
    match ← pop (dst.len - pos) with
    | none => pure []
    | some data =>
      if !reachable dst.base pos data.length then throw .EFAULT
      else do
        let rest ← copyOutBytes dst fuel (pos + data.length)
        pure (data ++ rest)

/-- `dgramPayload` with the bytes that it writes to the user. -/
def dgramPayloadBytes (dst : UserBufferMut) : ℕ → ℕ → ℕ → Transfer cap (List (BitVec 8))
  | 0, _, _ => pure []
  | fuel + 1, remaining, pos =>
    let toRead := min remaining (dst.len - pos)
    if remaining = 0 then pure []
    else if toRead = 0 then do
      discard remaining remaining
      pure []
    else do
      match ← pop toRead with
      | none => pure []
      | some data =>
        if !reachable dst.base pos data.length then throw .EFAULT
        else do
          let rest ← dgramPayloadBytes dst fuel (remaining - data.length) (pos + data.length)
          pure (data ++ rest)

/-- `dgramReadOne` with the bytes that it writes to the user. -/
def dgramReadOneBytes (dst : UserBufferMut) : Transfer cap (List (BitVec 8)) := do
  match ← pop 1 with
  | none => pure []
  | some b0 =>
    match ← pop 1 with
    | none => pure []
    | some b1 =>
      let msgLen := (b0.headD 0).toNat + 256 * (b1.headD 0).toNat
      dgramPayloadBytes dst msgLen msgLen 0

end Bytes

open Fallible

/-! ## One piece -/

/-- The ring holds the bytes of `q`, the oldest first. -/
def ByteRing.Holds (r : ByteRing cap) (q : List (BitVec 8)) : Prop := r.ring.Represents q

lemma ByteRing.holds_new (h : 0 < cap) : (ByteRing.new cap h).Holds [] :=
  represents_new h _

variable {r : ByteRing cap} {len fuel : ℕ}

/-- A pop of the ring buffer. -/
lemma pop_returns {data : Option (List (BitVec 8))} {ring : RingBuffer (BitVec 8) cap}
    (h : r.ring.popSlice len = some (data, ring)) :
    ∃ r', r'.ring = ring ∧ (pop len).Returns r data r' := by
  unfold Returns pop
  match hp : r.popSlice len with
  | .ok (data', r') =>
    have hok := popSlice_ok hp
    rw [h] at hok
    cases hok
    exact ⟨r', rfl, rfl⟩
  | .error e =>
    unfold ByteRing.popSlice at hp
    split at hp
    · next hnone =>
      rw [h] at hnone
      cases hnone
    · cases hp

lemma pop_fails (h : r.ring.popSlice len = none) :
    (pop len).Fails r .undefined r := by
  unfold Fails pop
  match hp : r.popSlice len with
  | .ok (data, r') =>
    have hok := popSlice_ok hp
    rw [h] at hok
    cases hok
  | .error e => rw [popSlice_error hp]

/-- The read index moves by no more than the piece. -/
lemma popSlice_rp_le {rb rb' : RingBuffer (BitVec 8) cap} {data : List (BitVec 8)}
    (h : rb.popSlice len = some (some data, rb')) : rb'.rp ≤ rb.rp + data.length := by
  unfold popSlice at h
  split_ifs at h
  · cases h
  all_goals
    obtain ⟨d, hd, hpair⟩ := Option.map_eq_some_iff.mp h
    cases hpair
    unfold slice at hd
    split_ifs at hd
    cases hd
    rw [length_map, length_range]
    exact (mod_le _ _).trans (mod_le _ _)

namespace ByteRing.Holds

variable {r : ByteRing cap} {q : List (BitVec 8)}

lemma isReadable_iff (h : r.Holds q) : r.isReadable = true ↔ q ≠ [] := by
  rw [ByteRing.isReadable, RingBuffer.Represents.isReadable_eq h, decide_eq_true_iff,
    length_pos_iff]

lemma isWritable_iff (h : r.Holds q) : r.isWritable = true ↔ q.length < cap := by
  rw [ByteRing.isWritable, RingBuffer.Represents.isWritable_eq h, decide_eq_true_iff]

/-- Bytes that fit into the next piece of free space join the end of the queue. -/
lemma commit (h : r.Holds q) (hcap : cap < 2 ^ 63) {data : List (BitVec 8)} (hne : data ≠ [])
    (hroom : data.length ≤ r.ring.writableContiguous) : (r.commit data).Holds (q ++ data) := by
  obtain ⟨hfree, -, hstop⟩ := RingBuffer.Represents.writableContiguous_spec h
  have hrp := h.rp_lt
  have hlen := h.length_le
  have hwp := RingBuffer.Represents.wp_cases h
  refine RingBuffer.Represents.advance h hcap hne (by omega) (fun j hj => ?_) fun i hi => ?_
  · rw [mod_cap (by omega), if_pos (by omega),
      copyAt_of_mem (by omega) (by omega)]
    congr 1
    omega
  · rw [mod_cap (by omega)]
    apply copyAt_of_not_mem
    split_ifs at hwp ⊢ <;> omega

variable {len : ℕ}

lemma pop_idle (h : r.Holds q) (hidle : q = [] ∨ len = 0) :
    (pop len).Returns r none r := by
  obtain ⟨⟨ring, _, _⟩, hring, hpop⟩ := pop_returns (RingBuffer.Represents.popSlice_idle h hidle)
  cases hring
  exact hpop

/-- A pop whose end does not overflow takes some bytes from the front, and neither does
the end of a pop of the bytes that are still wanted. -/
lemma pop_front (h : r.Holds q) (hcap : cap < 2 ^ 63) (hq : q ≠ []) (hlen : len ≠ 0)
    (hfits : r.ring.rp + len < 2 ^ 64) :
    ∃ k r', 0 < k ∧ k ≤ len ∧ k ≤ q.length ∧ (pop len).Returns r (some (q.take k)) r' ∧
      r'.Holds (q.drop k) ∧ r'.ring.rp + (len - k) < 2 ^ 64 := by
  obtain ⟨k, ring, hk, hklen, hkq, hpop, hring⟩ :=
    RingBuffer.Represents.popSlice_spec h hcap hq hlen hfits
  have hrp := popSlice_rp_le hpop
  rw [length_take, min_eq_left hkq] at hrp
  obtain ⟨r', rfl, hret⟩ := pop_returns hpop
  exact ⟨k, r', hk, hklen, hkq, hret, hring, by omega⟩

lemma pop_overflow (h : r.Holds q) (hcap : cap < 2 ^ 63) (hq : q ≠ []) (hlen : len < 2 ^ 64)
    (hover : 2 ^ 64 ≤ r.ring.rp + len) :
    (pop len).Fails r .undefined r :=
  pop_fails (RingBuffer.Represents.popSlice_overflow h hq hlen hover hcap)

end ByteRing.Holds

/-! ## From a user's buffer into the ring -/

variable {q m rest : List (BitVec 8)}

/-- A copy that has nothing to take or finds no room. -/
lemma copyIn_idle {src : UserBuffer} {pos : ℕ} (fuel : ℕ)
    (h : min (src.bytes.length - pos) r.ring.writableContiguous = 0) :
    (copyIn src fuel pos).Returns r pos r := by
  cases fuel with
  | zero => rfl
  | succ fuel =>
    change (ite (min (src.bytes.length - pos) r.ring.writableContiguous = 0) _ _ :
      Transfer cap ℕ).Returns r pos r
    rw [if_pos h]
    rfl

/-- A part of a buffer that can be accessed. -/
lemma reachable_part {base : Option ℕ} {pos n len : ℕ} (h : reachable base 0 len = true)
    (hle : pos + n ≤ len) : reachable base pos n = true := by
  cases base with
  | none => rfl
  | some base =>
    have hall := of_decide_eq_true h
    refine decide_eq_true ?_
    simp only [wadd, kernelBaseAddr] at hall ⊢
    omega

/-- The copy takes what fits. -/
lemma copyIn_holds (src : UserBuffer) (pos : ℕ) (hcap : cap < 2 ^ 63) (h : r.Holds q)
    (hfuel : src.bytes.length ≤ pos + fuel) :
    (copyIn src fuel pos).Ends r
      (fun n r' => n = pos + min (src.bytes.length - pos) (cap - q.length) ∧
        r'.Holds (q ++ (src.bytes.drop pos).take (cap - q.length)))
      fun e _ => e = .EFAULT ∧ reachable src.base 0 src.bytes.length = false := by
  induction fuel generalizing pos r q with
  | zero =>
    refine ends_pure ⟨by omega, ?_⟩
    rw [drop_eq_nil_of_le (by omega), take_nil, append_nil]
    exact h
  | succ fuel ih =>
    obtain ⟨hfree, hfull, -⟩ := RingBuffer.Represents.writableContiguous_spec h
    rw [copyIn, ends_get_bind]
    dsimp only
    generalize hcopied : min (src.bytes.length - pos) r.ring.writableContiguous = copied
    split_ifs with hzero hreach
    · -- the user's buffer is used up or the ring is full
      have hnone : (src.bytes.drop pos).take (cap - q.length) = [] := by
        rw [take_eq_nil_iff, drop_eq_nil_iff]
        omega
      refine ends_pure ⟨by omega, ?_⟩
      rw [hnone, append_nil]
      exact h
    · refine ends_throw ⟨rfl, Bool.eq_false_iff.mpr fun hall => ?_⟩
      rw [reachable_part hall (by omega)] at hreach
      cases hreach
    · have hlen : ((src.bytes.drop pos).take copied).length = copied := by
        rw [length_take, length_drop]
        omega
      have hne : (src.bytes.drop pos).take copied ≠ [] := by
        rw [← length_pos_iff, hlen]
        omega
      have hnext := h.commit hcap hne (by omega)
      refine (ih (pos + copied) hnext (by omega)).mono ?_ fun _ _ he => he
      intro n r' hr
      rw [length_append, hlen] at hr
      obtain ⟨hn, hr'⟩ := hr
      refine ⟨by omega, ?_⟩
      have hsplit : (src.bytes.drop pos).take (cap - q.length) = (src.bytes.drop pos).take copied ++
          (src.bytes.drop (pos + copied)).take (cap - (q.length + copied)) := by
        rw [show cap - q.length = copied + (cap - (q.length + copied)) by omega, take_add,
          drop_drop]
      rw [hsplit, ← append_assoc]
      exact hr'

/-! ## From the ring into a user's buffer -/

/-- The number of bytes, counted from `pos`. -/
def countFrom (pos : ℕ) (x : Transfer cap (List (BitVec 8))) : Transfer cap ℕ := fun r =>
  ((x r).1.map fun bytes => pos + bytes.length, (x r).2)

lemma countFrom_bind {α : Type} (pos : ℕ) (x : Transfer cap α)
    (f : α → Transfer cap (List (BitVec 8))) :
    countFrom pos (x >>= f) = x >>= fun a => countFrom pos (f a) := by
  funext r
  change countFrom pos (Fallible.bind x f) r = Fallible.bind x _ r
  unfold countFrom Fallible.bind
  match x r with
  | (.ok a, r') | (.error e, r') => rfl

lemma countFrom_append (pos : ℕ) (data : List (BitVec 8)) (x : Transfer cap (List (BitVec 8))) :
    countFrom pos (x >>= fun rest => Pure.pure (data ++ rest)) =
      countFrom (pos + data.length) x := by
  funext r
  change countFrom pos (Fallible.bind x _) r = _
  unfold countFrom Fallible.bind
  match x r with
  | (.ok rest, r') =>
    refine Prod.ext ?_ rfl
    change Except.ok (pos + (data ++ rest).length) = Except.ok (pos + data.length + rest.length)
    rw [length_append, add_assoc]
  | (.error e, r') => rfl

section

variable (dst : UserBufferMut)
include dst

lemma copyOut_eq (fuel pos : ℕ) :
    (copyOut dst fuel pos : Transfer cap ℕ) = countFrom pos (copyOutBytes dst fuel pos) := by
  induction fuel generalizing pos with
  | zero => rfl
  | succ fuel ih =>
    rw [copyOut, copyOutBytes, countFrom_bind]
    congr 1
    funext data
    match data with
    | none => rfl
    | some data =>
      dsimp only
      split_ifs
      · rfl
      · rw [ih, countFrom_append]

lemma dgramPayload_eq (fuel remaining pos : ℕ) :
    (dgramPayload dst fuel remaining pos : Transfer cap ℕ) =
      countFrom pos (dgramPayloadBytes dst fuel remaining pos) := by
  induction fuel generalizing remaining pos with
  | zero => rfl
  | succ fuel ih =>
    rw [dgramPayload, dgramPayloadBytes]
    split_ifs
    · rfl
    · rw [countFrom_bind]
      rfl
    · rw [countFrom_bind]
      congr 1
      funext data
      cases data with
      | none => rfl
      | some data =>
        change (if _ then _ else _) = countFrom pos (if _ then _ else _)
        split_ifs
        · rfl
        · rw [ih, countFrom_append]

lemma dgramReadOne_eq :
    (dgramReadOne dst : Transfer cap ℕ) = countFrom 0 (dgramReadOneBytes dst) := by
  rw [dgramReadOne, dgramReadOneBytes, countFrom_bind]
  congr 1
  funext b0
  match b0 with
  | none => rfl
  | some b0 =>
    dsimp only
    rw [countFrom_bind]
    congr 1
    funext b1
    match b1 with
    | none => rfl
    | some b1 => exact dgramPayload_eq dst _ _ 0

/-- The copy takes as much as the user wants. -/
lemma copyOutBytes_holds (pos : ℕ) (hcap : cap < 2 ^ 63) (h : r.Holds q)
    (hfuel : dst.len ≤ pos + fuel) (hfits : q ≠ [] → r.ring.rp + (dst.len - pos) < 2 ^ 64) :
    (copyOutBytes dst fuel pos).Ends r
      (fun bytes r' => bytes = q.take (dst.len - pos) ∧ r'.Holds (q.drop (dst.len - pos)))
      fun e _ => e = .EFAULT := by
  induction fuel generalizing pos r q with
  | zero =>
    rw [show dst.len - pos = 0 by omega]
    exact ends_pure ⟨take_zero.symm, h⟩
  | succ fuel ih =>
    rw [copyOutBytes]
    by_cases hidle : q = [] ∨ dst.len - pos = 0
    · rw [(h.pop_idle hidle).bind_ends_iff]
      refine ends_pure ?_
      rcases hidle with rfl | hz
      · exact ⟨take_nil.symm, by rwa [drop_nil]⟩
      · rw [hz]
        exact ⟨take_zero.symm, h⟩
    · rw [not_or] at hidle
      obtain ⟨k, r₁, hk, hklen, hkq, hpop, hrest, hfits₁⟩ :=
        h.pop_front hcap hidle.1 hidle.2 (hfits hidle.1)
      have hdata : (q.take k).length = k := by rw [length_take, min_eq_left hkq]
      rw [hpop.bind_ends_iff]
      dsimp only
      rw [hdata]
      split_ifs
      · exact ends_throw rfl
      · refine (ih (pos + k) hrest (by omega) fun _ => ?_).bind ?_ fun _ _ he => he
        · rwa [← Nat.sub_sub]
        · rintro rest r' ⟨rfl, hr'⟩
          refine ends_pure ⟨?_, ?_⟩
          · rw [show dst.len - pos = k + (dst.len - (pos + k)) by omega, take_add]
          · rw [drop_drop] at hr'
            rwa [show dst.len - pos = k + (dst.len - (pos + k)) by omega]

end

lemma discard_holds (hcap : cap < 2 ^ 63) (h : r.Holds (m ++ rest)) (hfuel : m.length ≤ fuel)
    (hm : m.length < 2 ^ 63) :
    ∃ r', (discard fuel m.length).Returns r () r' ∧ r'.Holds rest := by
  induction fuel generalizing m r with
  | zero =>
    obtain rfl : m = [] := eq_nil_of_length_eq_zero (by omega)
    exact ⟨r, rfl, h⟩
  | succ fuel ih =>
    rw [discard]
    by_cases hz : m.length = 0
    · obtain rfl := eq_nil_of_length_eq_zero hz
      exact ⟨r, rfl, h⟩
    · rw [if_neg hz]
      have hrp := r.rp_lt
      have hne : m ++ rest ≠ [] := by
        intro hnil
        exact hz (by rw [(append_eq_nil_iff.mp hnil).1, length_nil])
      obtain ⟨k, r₁, hk, hkm, -, hpop, hrest, -⟩ := h.pop_front hcap hne hz (by omega)
      rw [take_append_of_le_length hkm] at hpop
      rw [drop_append_of_le_length hkm] at hrest
      have hlen : (m.take k).length = k := by rw [length_take, min_eq_left hkm]
      obtain ⟨r', hdiscard, hr'⟩ := ih hrest (by rw [length_drop]; omega)
        (by rw [length_drop]; omega)
      refine ⟨r', hpop.bind ?_, hr'⟩
      dsimp only
      rwa [hlen, ← length_drop]

/-- The payload fills the user's buffer and leaves the ring. -/
lemma dgramPayloadBytes_holds (dst : UserBufferMut) (pos : ℕ) (hcap : cap < 2 ^ 63)
    (h : r.Holds (m ++ rest)) (hfuel : m.length ≤ fuel) (hm : m.length < 2 ^ 63) :
    (dgramPayloadBytes dst fuel m.length pos).Ends r
      (fun bytes r' => bytes = m.take (dst.len - pos) ∧ r'.Holds rest)
      fun e _ => e = .EFAULT ∧ reachable dst.base 0 (min (pos + m.length) dst.len) = false := by
  induction fuel generalizing pos m r with
  | zero =>
    obtain rfl : m = [] := eq_nil_of_length_eq_zero (by omega)
    exact ends_pure ⟨take_nil.symm, h⟩
  | succ fuel ih =>
    rw [dgramPayloadBytes]
    by_cases hz : m.length = 0
    · obtain rfl := eq_nil_of_length_eq_zero hz
      exact ends_pure ⟨take_nil.symm, h⟩
    rw [if_neg hz]
    by_cases hfull : min m.length (dst.len - pos) = 0
    · rw [if_pos hfull]
      obtain ⟨r', hdiscard, hr'⟩ := discard_holds hcap h le_rfl hm
      rw [hdiscard.bind_ends_iff]
      refine ends_pure ⟨?_, hr'⟩
      rw [show dst.len - pos = 0 by omega, take_zero]
    · rw [if_neg hfull]
      have hrp := r.rp_lt
      have hne : m ++ rest ≠ [] := by
        intro hnil
        exact hz (by rw [(append_eq_nil_iff.mp hnil).1, length_nil])
      obtain ⟨k, r₁, hk, hkmin, -, hpop, hrest, -⟩ := h.pop_front hcap hne hfull (by omega)
      have hkm : k ≤ m.length := by omega
      rw [take_append_of_le_length hkm] at hpop
      rw [drop_append_of_le_length hkm] at hrest
      have hdata : (m.take k).length = k := by rw [length_take, min_eq_left hkm]
      rw [hpop.bind_ends_iff]
      dsimp only
      rw [hdata]
      split_ifs with hreach
      · refine ends_throw ⟨rfl, Bool.eq_false_iff.mpr fun hall => ?_⟩
        rw [reachable_part hall (by omega)] at hreach
        cases hreach
      · have hrest' := ih (pos + k) hrest (by rw [length_drop]; omega) (by rw [length_drop]; omega)
        rw [length_drop, add_assoc, Nat.add_sub_cancel' hkm] at hrest'
        refine hrest'.bind ?_ fun _ _ he => he
        rintro bytes r' ⟨rfl, hr'⟩
        refine ends_pure ⟨?_, hr'⟩
        rw [show dst.len - pos = k + (dst.len - (pos + k)) by omega, take_add]

end Kevlar.Watch
