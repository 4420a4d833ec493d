import Kevlar.MachineWord

/-!
# The ring buffer

`RingBuffer` keeps a queue in an array of fixed capacity with a read index, a
write index and a flag that tells a full buffer from an empty one. The model
follows the source segment by segment. Reading or handing out a range that is not
inside the array is undefined behaviour, which the model shows as `none`.

`Represents` ties a buffer to the queue it stands for: the elements lie in order
from the read index on, wrapping once. Every operation is compared with a bounded
queue, and the whole run with a run of the queue.
-/
namespace Kevlar
open List Nat Option

/-- The buffer; cells that were never written hold whatever was there. -/
structure RingBuffer (α : Type) (cap : ℕ) where
  buf : ℕ → α
  rp : ℕ
  wp : ℕ
  full : Bool

namespace RingBuffer

variable {α : Type} {cap : ℕ}

/-- `copy_from_slice` into the cells from `start` on. -/
def copyAt (buf : ℕ → α) (start : ℕ) (src : List α) : ℕ → α := fun i =>
  if start ≤ i then (src[i - start]?).getD (buf i) else buf i

/-- The cells of a range, which has to lie inside the array. -/
def slice (rb : RingBuffer α cap) (start stop : ℕ) : Option (List α) :=
  if start ≤ stop ∧ stop ≤ cap then
    some ((List.range (stop - start)).map fun i => rb.buf (start + i))
  else none

def new (cap : ℕ) (buf : ℕ → α) : RingBuffer α cap := ⟨buf, 0, 0, false⟩

def isWritable (rb : RingBuffer α cap) : Bool := !rb.full

def isReadable (rb : RingBuffer α cap) : Bool := rb.full || rb.rp != rb.wp

/-- The cells after copying and the number of elements taken. -/
def fill (rb : RingBuffer α cap) (data : List α) : (ℕ → α) × ℕ :=
  if rb.rp ≤ rb.wp then
    let src1 := data.take (min data.length (cap - rb.wp))
    let src2 := (data.take (min data.length (src1.length + rb.rp))).drop src1.length
    (copyAt (copyAt rb.buf rb.wp src1) 0 src2, src1.length + src2.length)
  else
    let src := data.take (min data.length (rb.rp - rb.wp))
    (copyAt rb.buf rb.wp src, src.length)

/-- `advance_write`. -/
def advanceWrite (rb : RingBuffer α cap) (n : ℕ) : RingBuffer α cap :=
  let wp := wadd rb.wp n % cap
  { rb with wp := wp, full := wp == rb.rp }

def pushSlice (rb : RingBuffer α cap) (data : List α) : ℕ × RingBuffer α cap :=
  if !rb.isWritable || data.isEmpty then (0, rb)
  else
    let r := rb.fill data
    (r.2, advanceWrite { rb with buf := r.1 } r.2)

def push (rb : RingBuffer α cap) (a : α) : Bool × RingBuffer α cap :=
  let r := rb.pushSlice [a]
  (r.1 != 0, r.2)

/-- `pop_slice`: a contiguous piece of at most `len` elements. -/
def popSlice (rb : RingBuffer α cap) (len : ℕ) :
    Option (Option (List α) × RingBuffer α cap) :=
  if !rb.isReadable || len == 0 then some (none, rb)
  else
    let stop := if rb.rp < rb.wp then min (wadd rb.rp len) rb.wp else min (wadd rb.rp len) cap
    let rb' := { rb with rp := wadd rb.rp (stop - rb.rp) % cap, full := false }
    (rb'.slice rb.rp stop).map fun data => (some data, rb')

def pop (rb : RingBuffer α cap) : Option (Option α × RingBuffer α cap) :=
  (rb.popSlice 1).map fun r => (r.1.bind (·.head?), r.2)

/-- The length of the slice that `writable_contiguous` hands out. -/
def writableContiguous (rb : RingBuffer α cap) : ℕ :=
  if rb.full then 0 else (if rb.rp ≤ rb.wp then cap else rb.rp) - rb.wp

def free (rb : RingBuffer α cap) : ℕ :=
  if rb.full then 0
  else if rb.rp ≤ rb.wp then (cap - rb.wp) + rb.rp
  else rb.rp - rb.wp

/-! ## Runs -/

/-- The operations of a user. In `writeContiguous` the whole slice is filled and
at most `want` elements of it are committed. -/
inductive Op (α : Type)
  | push (a : α)
  | pop
  | pushSlice (data : List α)
  | popSlice (len : ℕ)
  | writeContiguous (content : ℕ → α) (want : ℕ)
  | free
  | isReadable
  | isWritable

inductive Reply (α : Type)
  | flag (b : Bool)
  | count (n : ℕ)
  | one (a : Option α)
  | piece (data : Option (List α))
  deriving DecidableEq

def step (rb : RingBuffer α cap) : Op α → Option (Reply α × RingBuffer α cap)
  | .push a => some (.flag (rb.push a).1, (rb.push a).2)
  | .pop => rb.pop.map fun r => (.one r.1, r.2)
  | .pushSlice data => some (.count (rb.pushSlice data).1, (rb.pushSlice data).2)
  | .popSlice len => (rb.popSlice len).map fun r => (.piece r.1, r.2)
  | .writeContiguous content want =>
    let room := rb.writableContiguous
    if min want room = 0 then some (.count room, rb)
    else
      let buf := copyAt rb.buf rb.wp ((List.range room).map content)
      some (.count room, advanceWrite { rb with buf := buf } (min want room))
  | .free => some (.count rb.free, rb)
  | .isReadable => some (.flag rb.isReadable, rb)
  | .isWritable => some (.flag rb.isWritable, rb)

def run (rb : RingBuffer α cap) : List (Op α) → Option (List (Reply α) × RingBuffer α cap)
  | [] => some ([], rb)
  | op :: ops => (rb.step op).bind fun r => (run r.2 ops).map fun rest => (r.1 :: rest.1, rest.2)

/-! ## The bounded queue -/

/-- One operation on a queue of bounded length. A popped piece is some non-empty
front of the queue and the room offered for writing is some part of the free space. -/
inductive FifoStep (cap : ℕ) : List α → Op α → Reply α → List α → Prop
  | push {q a} : q.length < cap → FifoStep cap q (.push a) (.flag true) (q ++ [a])
  | pushFull {q a} : q.length = cap → FifoStep cap q (.push a) (.flag false) q
  | popEmpty : FifoStep cap [] .pop (.one none) []
  | pop {q a} : FifoStep cap (a :: q) .pop (.one (some a)) q
  | pushSlice {q data} : FifoStep cap q (.pushSlice data)
      (.count (min data.length (cap - q.length))) (q ++ data.take (cap - q.length))
  | popSliceNone {q len} : q = [] ∨ len = 0 → FifoStep cap q (.popSlice len) (.piece none) q
  | popSlice {q data len} : data ≠ [] → data.length ≤ len →
      FifoStep cap (data ++ q) (.popSlice len) (.piece (some data)) q
  | writeContiguous {q content want room} : room ≤ cap - q.length →
      (room = 0 ↔ q.length = cap) → FifoStep cap q (.writeContiguous content want) (.count room)
        (q ++ (List.range (min want room)).map content)
  | free {q} : FifoStep cap q .free (.count (cap - q.length)) q
  | isReadable {q} : FifoStep cap q .isReadable (.flag (decide (0 < q.length))) q
  | isWritable {q} : FifoStep cap q .isWritable (.flag (decide (q.length < cap))) q

inductive FifoRun (cap : ℕ) : List α → List (Op α) → List (Reply α) → List α → Prop
  | nil {q} : FifoRun cap q [] [] q
  | cons {q q' q'' op ops reply replies} : FifoStep cap q op reply q' →
      FifoRun cap q' ops replies q'' → FifoRun cap q (op :: ops) (reply :: replies) q''

/-- The buffer stands for the queue. -/
structure Represents (rb : RingBuffer α cap) (q : List α) : Prop where
  rp_lt : rb.rp < cap
  length_le : q.length ≤ cap
  wp_eq : rb.wp = (rb.rp + q.length) % cap
  full_eq : rb.full = decide (q.length = cap)
  cell : ∀ i (h : i < q.length), rb.buf ((rb.rp + i) % cap) = q[i]

variable {i start : ℕ} {buf : ℕ → α} {src q : List α} {rb : RingBuffer α cap} {ops : List (Op α)}

/-- An index below twice the capacity wraps at most once. -/
lemma mod_cap (h : i < 2 * cap) : i % cap = if i < cap then i else i - cap := by
  split
  · exact mod_eq_of_lt ‹_›
  · rw [mod_eq_sub_mod (by omega), mod_eq_of_lt (by omega)]

lemma copyAt_of_mem (h : start ≤ i) (hi : i - start < src.length) :
    copyAt buf start src i = src[i - start] := by
  simp [copyAt, h, hi]

lemma copyAt_of_not_mem (h : i < start ∨ start + src.length ≤ i) :
    copyAt buf start src i = buf i := by
  unfold copyAt
  split
  · rw [getElem?_eq_none (by omega), getD_none]
  · rfl

lemma represents_new (hcap : 0 < cap) (buf : ℕ → α) : (new cap buf).Represents [] where
  rp_lt := hcap
  length_le := zero_le _
  wp_eq := by simp [new]
  full_eq := by simp [new, hcap.ne]
  cell i h := absurd h (not_lt_zero i)

namespace Represents

variable {rb : RingBuffer α cap} {q : List α}

section

variable (h : rb.Represents q)
include h

lemma wp_cases :
    rb.wp = if rb.rp + q.length < cap then rb.rp + q.length else rb.rp + q.length - cap := by
  have hrp := h.rp_lt
  have hlen := h.length_le
  rw [h.wp_eq, mod_cap (by omega)]

lemma full_iff : rb.full = true ↔ q.length = cap := by
  rw [h.full_eq, decide_eq_true_iff]

lemma isWritable_eq : rb.isWritable = decide (q.length < cap) := by
  have hlen := h.length_le
  rw [isWritable, h.full_eq]
  by_cases hfull : q.length = cap
  · simp [hfull]
  · simp [hfull, lt_of_le_of_ne hlen hfull]

lemma isReadable_eq : rb.isReadable = decide (0 < q.length) := by
  have hrp := h.rp_lt
  have hwp := h.wp_cases
  rw [isReadable, h.full_eq]
  by_cases hfull : q.length = cap
  · have hpos : 0 < q.length := by omega
    simp [hfull, hfull ▸ hpos]
  · have hne : rb.rp ≠ rb.wp ↔ 0 < q.length := by
      split_ifs at hwp <;> omega
    by_cases hz : 0 < q.length
    · simp [hfull, hz, hne.mpr hz]
    · have heq : rb.rp = rb.wp := by
        by_contra hne'
        exact hz (hne.mp hne')
      simp [hfull, hz, heq]

lemma free_eq : rb.free = cap - q.length := by
  have hlen := h.length_le
  have hwp := h.wp_cases
  unfold free
  by_cases hfull : q.length = cap
  · rw [if_pos (h.full_iff.mpr hfull)]
    omega
  · rw [if_neg (mt h.full_iff.mp hfull)]
    split_ifs at hwp ⊢ <;> omega

end

/-- Cells behind the queue are filled and the write index moves over them. -/
lemma advance (h : rb.Represents q) (hcap : cap < 2 ^ 63) {data : List α} {buf : ℕ → α}
    (hpos : data ≠ []) (hroom : q.length + data.length ≤ cap)
    (hnew : ∀ j (hj : j < data.length), buf ((rb.wp + j) % cap) = data[j])
    (hold : ∀ i < q.length, buf ((rb.rp + i) % cap) = rb.buf ((rb.rp + i) % cap)) :
    (advanceWrite ({ rb with buf := buf } : RingBuffer α cap) data.length).Represents
      (q ++ data) := by
  have hrp := h.rp_lt
  have hdata : 0 < data.length := length_pos_iff.mpr hpos
  have hwp_lt : rb.wp < cap := by
    rw [h.wp_eq]
    exact mod_lt _ (by omega)
  have hwp : wadd rb.wp data.length % cap = (rb.rp + (q.length + data.length)) % cap := by
    rw [wadd_of_lt (by omega), h.wp_eq, mod_add_mod, add_assoc]
  refine ⟨hrp, by simpa using hroom, ?_, ?_, fun i hi => ?_⟩
  · simp only [advanceWrite, hwp, length_append]
  · simp only [advanceWrite, hwp, length_append]
    rw [mod_cap (by omega)]
    by_cases hfull : q.length + data.length = cap
    · rw [hfull, if_neg (by omega)]
      simp
    · rw [decide_eq_false hfull]
      split_ifs
      all_goals
        rw [beq_eq_false_iff_ne]
        omega
  · by_cases hiq : i < q.length
    · rw [getElem_append_left hiq, ← h.cell i hiq]
      exact hold i hiq
    · rw [getElem_append_right (by omega), ← hnew (i - q.length) (by simp at hi; omega)]
      change buf ((rb.rp + i) % cap) = _
      rw [h.wp_eq, mod_add_mod]
      congr 2
      omega

/-- `push_slice` on a buffer with room. -/
lemma fill_spec (h : rb.Represents q) (hlt : q.length < cap) (data : List α) :
    (rb.fill data).2 = min data.length (cap - q.length) ∧
      (∀ j (hj : j < (data.take (cap - q.length)).length),
        (rb.fill data).1 ((rb.wp + j) % cap) = (data.take (cap - q.length))[j]) ∧
      ∀ i < q.length, (rb.fill data).1 ((rb.rp + i) % cap) = rb.buf ((rb.rp + i) % cap) := by
  have hrp := h.rp_lt
  have hwp := h.wp_cases
  by_cases hle : rb.rp ≤ rb.wp
  · have hwrap : rb.wp = rb.rp + q.length ∧ rb.rp + q.length < cap := by
      split_ifs at hwp <;> omega
    obtain ⟨hwp, hlin⟩ := hwrap
    simp only [fill, if_pos hle]
    generalize hsrc1 : data.take (min data.length (cap - rb.wp)) = src1
    have hlen1 : src1.length = min data.length (cap - rb.wp) := by
      rw [← hsrc1, length_take]
      omega
    generalize hsrc2 : (data.take (min data.length (src1.length + rb.rp))).drop src1.length = src2
    have hlen2 : src2.length = min data.length (src1.length + rb.rp) - src1.length := by
      rw [← hsrc2, length_drop, length_take]
      omega
    refine ⟨by omega, fun j hj => ?_, fun i hi => ?_⟩
    · rw [length_take] at hj
      rw [mod_cap (by omega), getElem_take]
      split_ifs with hj1
      · rw [copyAt_of_not_mem (by omega), copyAt_of_mem (by omega) (by omega)]
        subst hsrc1
        rw [getElem_take]
        congr 1
        omega
      · rw [copyAt_of_mem (by omega) (by omega)]
        subst hsrc2
        rw [getElem_drop, getElem_take]
        congr 1
        omega
    · rw [mod_cap (by omega), if_pos (by omega), copyAt_of_not_mem (by omega),
        copyAt_of_not_mem (by omega)]
  · have hwrap : rb.wp + cap = rb.rp + q.length := by
      split_ifs at hwp <;> omega
    simp only [fill, if_neg hle]
    generalize hsrc : data.take (min data.length (rb.rp - rb.wp)) = src
    have hlen : src.length = min data.length (rb.rp - rb.wp) := by
      rw [← hsrc, length_take]
      omega
    refine ⟨by omega, fun j hj => ?_, fun i hi => ?_⟩
    · rw [length_take] at hj
      rw [mod_cap (by omega), if_pos (by omega), getElem_take,
        copyAt_of_mem (by omega) (by omega)]
      subst hsrc
      rw [getElem_take]
      congr 1
      omega
    · rw [mod_cap (by omega)]
      split_ifs
      all_goals rw [copyAt_of_not_mem (by omega)]

lemma pushSlice_spec (h : rb.Represents q) (hcap : cap < 2 ^ 63) (data : List α) :
    (rb.pushSlice data).1 = min data.length (cap - q.length) ∧
      (rb.pushSlice data).2.Represents (q ++ data.take (cap - q.length)) := by
  unfold pushSlice
  by_cases hskip : (!rb.isWritable || data.isEmpty) = true
  · have hnone : data.take (cap - q.length) = [] := by
      rw [h.isWritable_eq] at hskip
      rcases Bool.or_eq_true_iff.mp hskip with hfull | hempty
      · have hz : cap - q.length = 0 := by
          simp at hfull
          omega
        rw [hz, take_zero]
      · rw [isEmpty_iff.mp hempty, take_nil]
    rw [if_pos hskip, hnone, append_nil]
    have hcount := congrArg length hnone
    rw [length_take, length_nil] at hcount
    exact ⟨by omega, h⟩
  · have hlt : q.length < cap ∧ data ≠ [] := by
      rw [h.isWritable_eq] at hskip
      simpa using hskip
    obtain ⟨hlt, hne⟩ := hlt
    obtain ⟨hcount, hnew, hold⟩ := h.fill_spec hlt data
    have htake : (data.take (cap - q.length)).length = (rb.fill data).2 := by
      rw [hcount, length_take, min_comm]
    have hpos : data.take (cap - q.length) ≠ [] := by
      rw [ne_eq, take_eq_nil_iff]
      rintro (hz | hz)
      · omega
      · exact hne hz
    rw [if_neg hskip]
    refine ⟨hcount, ?_⟩
    have hadv := h.advance hcap hpos (by rw [length_take]; omega) hnew hold
    rw [htake] at hadv
    exact hadv

lemma writableContiguous_spec (h : rb.Represents q) :
    rb.writableContiguous ≤ cap - q.length ∧ (rb.writableContiguous = 0 ↔ q.length = cap) ∧
      rb.wp + rb.writableContiguous ≤ cap := by
  have hrp := h.rp_lt
  have hlen := h.length_le
  have hwp := h.wp_cases
  unfold writableContiguous
  by_cases hfull : q.length = cap
  · rw [if_pos (h.full_iff.mpr hfull)]
    split_ifs at hwp <;> omega
  · rw [if_neg (mt h.full_iff.mp hfull)]
    split_ifs at hwp ⊢ <;> omega

variable {k len : ℕ}

section

variable (h : rb.Represents q)
include h

/-- The front of the queue leaves and the read index moves over it. -/
lemma retreat (hcap : cap < 2 ^ 63) (hk : 0 < k) (hkq : k ≤ q.length) :
    ({ rb with rp := wadd rb.rp k % cap, full := false } : RingBuffer α cap).Represents
      (q.drop k) := by
  have hrp := h.rp_lt
  have hlen := h.length_le
  have hwadd : wadd rb.rp k = rb.rp + k := wadd_of_lt (by omega)
  refine ⟨mod_lt _ (by omega), by rw [length_drop]; omega, ?_, ?_, fun i hi => ?_⟩
  · simp only [hwadd, mod_add_mod, length_drop]
    rw [h.wp_eq]
    congr 1
    omega
  · rw [eq_comm, decide_eq_false_iff_not, length_drop]
    omega
  · rw [length_drop] at hi
    rw [getElem_drop, ← h.cell (k + i) (by omega)]
    simp only [hwadd, mod_add_mod, add_assoc]

lemma slice_front (hkq : k ≤ q.length) (hstop : rb.rp + k ≤ cap) :
    rb.slice rb.rp (rb.rp + k) = some (q.take k) := by
  rw [slice, if_pos ⟨Nat.le_add_right _ _, hstop⟩, Nat.add_sub_cancel_left]
  congr 1
  refine ext_getElem (by rw [length_map, length_range, length_take]; omega)
    fun i hi _ => ?_
  rw [length_map, length_range] at hi
  rw [getElem_map, getElem_range, getElem_take, ← h.cell i (by omega),
    mod_eq_of_lt (by omega)]

/-- `pop_slice` whose end does not overflow takes a non-empty front of the queue. -/
lemma popSlice_spec (hcap : cap < 2 ^ 63) (hq : q ≠ []) (hlen : len ≠ 0)
    (hno : rb.rp + len < 2 ^ 64) : ∃ k rb', 0 < k ∧ k ≤ len ∧ k ≤ q.length ∧
      rb.popSlice len = some (some (q.take k), rb') ∧ rb'.Represents (q.drop k) := by
  have hrp := h.rp_lt
  have hle := h.length_le
  have hwp := h.wp_cases
  have hpos : 0 < q.length := length_pos_iff.mpr hq
  have hread : (!rb.isReadable || len == 0) = false := by
    simp [h.isReadable_eq, hpos, hlen]
  have hgo : ∀ k, 0 < k → k ≤ len → k ≤ q.length → rb.rp + k ≤ cap →
      (if rb.rp < rb.wp then min (wadd rb.rp len) rb.wp else min (wadd rb.rp len) cap) =
        rb.rp + k → ∃ k rb', 0 < k ∧ k ≤ len ∧ k ≤ q.length ∧
      rb.popSlice len = some (some (q.take k), rb') ∧ rb'.Represents (q.drop k) := by
    intro k hk hklen hkq hkcap hstop
    refine ⟨k, _, hk, hklen, hkq, ?_, h.retreat hcap hk hkq⟩
    simp only [popSlice, hread, Bool.false_eq_true, if_false, hstop, Nat.add_sub_cancel_left]
    have hslice := h.slice_front hkq hkcap
    simp only [slice] at hslice ⊢
    rw [hslice, map_some]
  rw [wadd_of_lt hno] at hgo
  by_cases hlin : rb.rp < rb.wp
  · rw [if_pos hlin] at hgo
    refine hgo (min len (rb.wp - rb.rp)) ?_ ?_ ?_ ?_ ?_ <;> split_ifs at hwp <;> omega
  · rw [if_neg hlin] at hgo
    refine hgo (min len (cap - rb.rp)) ?_ ?_ ?_ ?_ ?_ <;> split_ifs at hwp <;> omega

/-- `pop_slice` whose end overflows hands out a range outside the array. -/
lemma popSlice_overflow (hq : q ≠ []) (hlen : len < 2 ^ 64) (hover : 2 ^ 64 ≤ rb.rp + len)
    (hcap : cap < 2 ^ 63) : rb.popSlice len = none := by
  have hrp := h.rp_lt
  have hpos : 0 < q.length := length_pos_iff.mpr hq
  have hz : len ≠ 0 := by omega
  have hread : (!rb.isReadable || len == 0) = false := by
    simp [h.isReadable_eq, hpos, hz]
  have hwrap : wadd rb.rp len < rb.rp := by
    unfold wadd
    omega
  have hstop : (if rb.rp < rb.wp then min (wadd rb.rp len) rb.wp
      else min (wadd rb.rp len) cap) < rb.rp := by
    split_ifs <;> omega
  simp only [popSlice, hread, Bool.false_eq_true, if_false, slice]
  generalize (if rb.rp < rb.wp then min (wadd rb.rp len) rb.wp
    else min (wadd rb.rp len) cap) = stop at hstop ⊢
  rw [if_neg (by omega), map_none]

lemma popSlice_idle (hidle : q = [] ∨ len = 0) : rb.popSlice len = some (none, rb) := by
  have hskip : (!rb.isReadable || len == 0) = true := by
    rw [h.isReadable_eq]
    rcases hidle with rfl | rfl <;> simp
  rw [popSlice, if_pos hskip]

end

end Represents

/-! ## Refinement -/

/-- The end of the piece that `pop_slice` computes does not overflow. -/
def EndFits (rb : RingBuffer α cap) : Op α → Prop
  | .popSlice len => rb.isReadable = true → rb.rp + len < 2 ^ 64
  | _ => True

/-- A length that a caller passes is a machine word. -/
def Op.IsWord : Op α → Prop
  | .popSlice len => len < 2 ^ 64
  | _ => True

/-- One operation is one operation of the queue. -/
lemma Represents.step {rb : RingBuffer α cap} {q : List α} (h : rb.Represents q)
    (hcap : cap < 2 ^ 63) {op : Op α} (hfits : rb.EndFits op) :
    ∃ reply rb' q', rb.step op = some (reply, rb') ∧ FifoStep cap q op reply q' ∧
      rb'.Represents q' := by
  have hrp := h.rp_lt
  have hlen := h.length_le
  cases op with
  | push a =>
    obtain ⟨hcount, hrep⟩ := h.pushSlice_spec hcap [a]
    by_cases hfull : q.length = cap
    · refine ⟨_, _, q, rfl, ?_, ?_⟩
      · have hflag : (rb.push a).1 = false := by
          simp [push, hcount, hfull]
        rw [hflag]
        exact .pushFull hfull
      · rw [hfull, Nat.sub_self, take_zero, append_nil] at hrep
        exact hrep
    · refine ⟨_, _, q ++ [a], rfl, ?_, ?_⟩
      · have hflag : (rb.push a).1 = true := by
          simp only [push, hcount, length_singleton, bne_iff_ne]
          omega
        rw [hflag]
        exact .push (by omega)
      · rw [take_of_length_le (by rw [length_singleton]; omega)] at hrep
        exact hrep
  | pop =>
    cases q with
    | nil =>
      refine ⟨.one none, rb, [], ?_, .popEmpty, h⟩
      simp [RingBuffer.step, RingBuffer.pop, h.popSlice_idle (.inl rfl)]
    | cons a q =>
      obtain ⟨k, rb', hk, hk1, -, hpop, hrep⟩ :=
        h.popSlice_spec hcap (cons_ne_nil a q) one_ne_zero (by omega)
      obtain rfl : k = 1 := by omega
      refine ⟨.one (some a), rb', q, ?_, .pop, hrep⟩
      simp [RingBuffer.step, RingBuffer.pop, hpop]
  | pushSlice data =>
    obtain ⟨hcount, hrep⟩ := h.pushSlice_spec hcap data
    refine ⟨_, _, _, rfl, ?_, hrep⟩
    rw [hcount]
    exact .pushSlice
  | popSlice len =>
    by_cases hidle : q = [] ∨ len = 0
    · refine ⟨.piece none, rb, q, ?_, .popSliceNone hidle, h⟩
      simp [RingBuffer.step, h.popSlice_idle hidle]
    · rw [not_or] at hidle
      have hread : rb.isReadable = true := by
        rw [h.isReadable_eq, decide_eq_true_iff]
        exact length_pos_iff.mpr hidle.1
      obtain ⟨k, rb', hk, hklen, hkq, hpop, hrep⟩ :=
        h.popSlice_spec hcap hidle.1 hidle.2 (hfits hread)
      refine ⟨.piece (some (q.take k)), rb', q.drop k, by simp [RingBuffer.step, hpop], ?_, hrep⟩
      have hstep : FifoStep cap (q.take k ++ q.drop k) (.popSlice len)
          (.piece (some (q.take k))) (q.drop k) := by
        refine .popSlice ?_ (by rw [length_take]; omega)
        rw [ne_eq, take_eq_nil_iff]
        rintro (hz | hz)
        · omega
        · exact hidle.1 hz
      rwa [take_append_drop] at hstep
  | writeContiguous content want =>
    obtain ⟨hroom, hzero, hstop⟩ := h.writableContiguous_spec
    by_cases hmin : min want rb.writableContiguous = 0
    · refine ⟨.count rb.writableContiguous, rb, q, by simp [RingBuffer.step, hmin], ?_, h⟩
      have hstep := @FifoStep.writeContiguous α cap q content want _ hroom hzero
      rwa [hmin, range_zero, map_nil, append_nil] at hstep
    · refine ⟨.count rb.writableContiguous, _, _, if_neg hmin,
        .writeContiguous hroom hzero, ?_⟩
      have hlength : ((range (min want rb.writableContiguous)).map content).length =
          min want rb.writableContiguous := by
        rw [length_map, length_range]
      have hadv := @advance α cap rb q h hcap
        ((range (min want rb.writableContiguous)).map content)
        (copyAt rb.buf rb.wp ((range rb.writableContiguous).map content))
        (by simpa using hmin) (by omega) (fun j hj => ?_) (fun i hi => ?_)
      · rwa [hlength] at hadv
      · rw [mod_cap (by omega), if_pos (by omega), copyAt_of_mem (by omega) (by simp; omega)]
        simp
      · have hwp := h.wp_cases
        rw [mod_cap (by omega)]
        refine copyAt_of_not_mem ?_
        rw [length_map, length_range]
        split_ifs at hwp ⊢ <;> omega
  | free => exact ⟨_, rb, q, rfl, by rw [h.free_eq]; exact .free, h⟩
  | isReadable => exact ⟨_, rb, q, rfl, by rw [h.isReadable_eq]; exact .isReadable, h⟩
  | isWritable => exact ⟨_, rb, q, rfl, by rw [h.isWritable_eq]; exact .isWritable, h⟩

/-- No piece taken along the run has an end that overflows. -/
def AllFit (rb : RingBuffer α cap) : List (Op α) → Prop
  | [] => True
  | op :: ops => rb.EndFits op ∧ ∀ reply rb', rb.step op = some (reply, rb') → AllFit rb' ops

lemma Represents.run (h : rb.Represents q) (hcap : cap < 2 ^ 63) (hfit : rb.AllFit ops) :
    ∃ replies rb' q', rb.run ops = some (replies, rb') ∧ FifoRun cap q ops replies q' ∧
      rb'.Represents q' := by
  induction ops generalizing rb q with
  | nil => exact ⟨[], rb, q, rfl, .nil, h⟩
  | cons op ops ih =>
    obtain ⟨hop, hrest⟩ := hfit
    obtain ⟨reply, rb₁, q₁, hstep, hfifo, hrep₁⟩ := h.step hcap hop
    obtain ⟨replies, rb', q', hrun, hfifo', hrep'⟩ := ih hrep₁ (hrest reply rb₁ hstep)
    refine ⟨reply :: replies, rb', q', ?_, .cons hfifo hfifo', hrep'⟩
    simp [RingBuffer.run, hstep, hrun]

/-- A run that stays defined never computes an end that overflows. -/
lemma Represents.allFit_of_run (h : rb.Represents q) (hcap : cap < 2 ^ 63)
    (hops : ∀ op ∈ ops, op.IsWord) (hrun : (rb.run ops).isSome) : rb.AllFit ops := by
  induction ops generalizing rb q with
  | nil => trivial
  | cons op ops ih =>
    have hfits : rb.EndFits op := by
      cases op with
      | popSlice len =>
        intro hread
        by_contra hover
        have hq : q ≠ [] := by
          rintro rfl
          simp [h.isReadable_eq] at hread
        have hnone := h.popSlice_overflow hq (hops (.popSlice len) mem_cons_self)
          (not_lt.mp hover) hcap
        simp [RingBuffer.run, RingBuffer.step, hnone] at hrun
      | _ => trivial
    obtain ⟨reply, rb₁, q₁, hstep, -, hrep₁⟩ := h.step hcap hfits
    refine ⟨hfits, fun reply' rb' hstep' => ?_⟩
    rw [hstep, some.injEq, Prod.mk.injEq] at hstep'
    obtain ⟨rfl, rfl⟩ := hstep'
    refine ih hrep₁ (fun op hop => hops op (mem_cons_of_mem _ hop)) ?_
    simpa [RingBuffer.run, hstep] using hrun

/-- A run from the empty buffer is a run of the bounded queue exactly if no end of
a popped piece overflows. -/
theorem run_refines_fifo_iff (cap : ℕ) (hpos : 0 < cap) (hcap : cap < 2 ^ 63) (buf : ℕ → α)
    (ops : List (Op α)) (hops : ∀ op ∈ ops, op.IsWord) :
    (∃ replies rb q, (new cap buf).run ops = some (replies, rb) ∧
      FifoRun cap [] ops replies q ∧ rb.Represents q) ↔ (new cap buf).AllFit ops := by
  have hnew := represents_new hpos buf
  constructor
  · rintro ⟨replies, rb, q, hrun, -, -⟩
    exact hnew.allFit_of_run hcap hops (by rw [hrun]; rfl)
  · intro hfit
    exact hnew.run hcap hfit

/-- A buffer of two cells through a wrap of both indices. -/
theorem run_refines_fifo_wrapping : ∃ replies rb q,
    (new 2 fun _ => (0 : ℕ)).run [.pushSlice [1, 2], .popSlice 1, .push 3, .popSlice 5, .free] =
      some (replies, rb) ∧
    FifoRun 2 [] [.pushSlice [1, 2], .popSlice 1, .push 3, .popSlice 5, .free] replies q ∧
    rb.Represents q := by
  refine (run_refines_fifo_iff 2 (by decide) (by decide) _ _ ?_).mpr ?_
  · simp [Op.IsWord]
  · simp [AllFit, EndFits, step, pushSlice, push, popSlice, fill, copyAt, slice, advanceWrite, new,
      isReadable, isWritable, wadd]

/-- Popping as much as a word can say from a buffer whose read index has moved
leaves the array, where the queue hands out its one element. -/
theorem run_popSlice_max :
    (new 2 fun _ => (0 : ℕ)).run [.push 1, .pop, .push 2, .popSlice (2 ^ 64 - 1)] = none ∧
      FifoRun 2 [] [.push 1, .pop, .push 2, .popSlice (2 ^ 64 - 1)]
        [.flag true, .one (some 1), .flag true, .piece (some [2])] [] := by
  constructor
  · rfl
  · have hpop : FifoStep 2 ([2] ++ []) (.popSlice (2 ^ 64 - 1)) (.piece (some [2])) [] :=
      .popSlice (by decide) (by decide)
    exact .cons (.push (by decide)) (.cons .pop (.cons (.push (by decide)) (.cons hpop .nil)))

end RingBuffer

end Kevlar
