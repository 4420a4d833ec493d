import Kevlar.MemoryImage
import Kevlar.VmArea

/-!
# Bytes that a function produces into a buffer

`UserBufWriter::write_with` hands a kernel buffer to the function as it is. The bytes for
user memory go through a chunk on the stack, and all of the chunk is stored.
-/
namespace Kevlar.UserBufWriter
open List ByteBuffer

/-- The function that produces the bytes. Call number `i` leaves bytes in the slice it is
given and says how many of them it has produced. -/
structure Producer (ε : Type) where
  call : ℕ → List (BitVec 8) → List (BitVec 8) × Except ε ℕ
  length_eq : ∀ i buf, (call i buf).1.length = buf.length
  count_le : ∀ {i buf bytes n}, call i buf = (bytes, .ok n) → n ≤ bytes.length

variable {ε : Type} (f : Producer ε) (fault : ε) (base len : ℕ)

/-- The loop for user memory, with the position and the memory. -/
def userLoop : ℕ → ℕ → ℕ → List (BitVec 8) → ℕ → Bytes → Except ε ℕ × ℕ × Bytes
  | 0, _, total, _, pos, mem => (.ok total, pos, mem)
  | fuel + 1, i, total, buf, pos, mem =>
    let copyLen := min buf.length (len - total)
    match f.call i (buf.take copyLen) with
    | (_, .error e) => (.error e, pos, mem)
    | (chunk, .ok written) =>
      if written = 0 then (.ok total, pos, mem)
      else if accessOk (base + pos) copyLen then
        userLoop fuel (i + 1) (total + written) (chunk ++ buf.drop copyLen) (pos + written)
          (store mem (base + pos) chunk)
      else (.error fault, pos, mem)

/-- `write_with`. The loop for user memory ends within `len + 1` rounds. -/
def writeWith (user : Bool) (pos : ℕ) (mem : Bytes) : Except ε ℕ × ℕ × Bytes :=
  if user then userLoop f fault base len (len + 1) 0 0 (List.replicate 256 0) pos mem
  else
    match f.call 0 (slice mem (base + pos) (len - pos)) with
    | (buf, .error e) => (.error e, pos, store mem (base + pos) buf)
    | (buf, .ok n) => (.ok n, pos + n, store mem (base + pos) buf)

/-! ## What the function produces -/

/-- What `f` answers, as long as it produces something, when it is given at most 256 bytes of
what is left of `len` after its own counts: the slice it leaves and the count. -/
def answers : ℕ → ℕ → ℕ → List (BitVec 8) → List (List (BitVec 8) × ℕ)
  | 0, _, _, _ => []
  | fuel + 1, i, total, buf =>
    let copyLen := min buf.length (len - total)
    match f.call i (buf.take copyLen) with
    | (_, .error _) => []
    | (chunk, .ok written) =>
      if written = 0 then []
      else (chunk, written) :: answers fuel (i + 1) (total + written) (chunk ++ buf.drop copyLen)

/-- The bytes of all answers, each cut to its count. -/
def produced (rounds : List (List (BitVec 8) × ℕ)) : List (BitVec 8) :=
  rounds.flatMap fun r => r.1.take r.2

/-- What the last answer leaves behind its count. -/
def excess (rounds : List (List (BitVec 8) × ℕ)) : List (BitVec 8) :=
  (rounds.getLast?.map fun r => r.1.drop r.2).getD []

/-- The count of an answer, none for an error. -/
def count : Except ε ℕ → ℕ
  | .ok n => n
  | .error _ => 0

/-- The bytes that `f` produces for `write_with`. -/
def bytesOf (user : Bool) (pos : ℕ) (mem : Bytes) : List (BitVec 8) :=
  if user then produced (answers f len (len + 1) 0 0 (List.replicate 256 0))
  else
    let r := f.call 0 (slice mem (base + pos) (len - pos))
    r.1.take (count r.2)

/-- The bytes are written in order from the position, no other byte of the buffer and none
outside of it changes, and a call that returns has advanced the position by their number,
which it returns. -/
structure Exact (pos : ℕ) (mem : Bytes) (bytes : List (BitVec 8)) (r : Except ε ℕ × ℕ × Bytes) :
    Prop where
  mem_eq : r.2.2 = store mem (base + pos) bytes
  outside : ∀ a, a < base ∨ base + len ≤ a → r.2.2 a = mem a
  count : ∀ n, r.1 = .ok n → n = bytes.length ∧ r.2.1 = pos + n

/-- For user memory: the counts end inside of the buffer and the last answer is full. For a
kernel buffer: `f` changes nothing behind its count. -/
def Fits (user : Bool) (pos : ℕ) : Prop :=
  if user then
    let rounds := answers f len (len + 1) 0 0 (List.replicate 256 0)
    pos + (produced rounds).length ≤ len ∧ excess rounds = []
  else
    ∀ buf, buf.length = len - pos →
      (f.call 0 buf).1.drop (count (f.call 0 buf).2) = buf.drop (count (f.call 0 buf).2)

section

variable {mem : Bytes} {a : ℕ} {bytes more : List (BitVec 8)}

lemma store_append :
    store mem a (bytes ++ more) = store (store mem a bytes) (a + bytes.length) more := by
  simpa using (store_take_drop mem a (bytes ++ more) (n := bytes.length) (by simp)).symm

/-- A longer store hides a shorter one. -/
lemma store_store (h : bytes.length ≤ more.length) :
    store (store mem a bytes) a more = store mem a more := by
  funext j
  by_cases hj : j < a ∨ a + more.length ≤ j
  · rw [store_apply_of_outside hj, store_apply_of_outside hj, store_apply_of_outside (by omega)]
  · obtain ⟨i, rfl⟩ := Nat.exists_eq_add_of_le (show a ≤ j by omega)
    rw [store_apply (by omega), store_apply (by omega)]

end

variable {pos : ℕ} {mem : Bytes}

lemma produced_cons (r : List (BitVec 8) × ℕ) (rounds : List (List (BitVec 8) × ℕ)) :
    produced (r :: rounds) = r.1.take r.2 ++ produced rounds := rfl

lemma excess_cons (r : List (BitVec 8) × ℕ) (rounds : List (List (BitVec 8) × ℕ)) :
    excess (r :: rounds) = if rounds = [] then r.1.drop r.2 else excess rounds := by
  cases rounds <;> rfl

/-- What a loop leaves that starts behind bytes produced before (`front`) and the rest of the
answer that they came from (`rest`). -/
structure Leaves (front rest : List (BitVec 8)) (rounds : List (List (BitVec 8) × ℕ))
    (r : Except ε ℕ × ℕ × Bytes) : Prop where
  mem_eq : r.2.2 = store mem (base + pos)
    (front ++ produced rounds ++ if rounds = [] then rest else excess rounds)
  count : ∀ n, r.1 = .ok n → n = (front ++ produced rounds).length ∧ r.2.1 = pos + n

lemma leaves_userLoop {fuel i : ℕ} {buf front rest : List (BitVec 8)}
    (haccess : accessOk (base + pos) len = true) (hfuel : len - front.length < fuel)
    (hrest : rest.length ≤ min buf.length (len - front.length)) (hfront : front.length ≤ len) :
    @Leaves ε base pos mem front rest (answers f len fuel i front.length buf)
      (userLoop f fault base len fuel i front.length buf (pos + front.length)
        (store mem (base + pos) (front ++ rest))) := by
  induction fuel generalizing i buf front rest with
  | zero => omega
  | succ fuel ih =>
    have hlen := f.length_eq i (buf.take (min buf.length (len - front.length)))
    rw [length_take, min_eq_left (min_le_left _ _)] at hlen
    rw [userLoop, answers]
    split
    · exact ⟨by simp [produced], nofun⟩
    next chunk written hcall =>
    rw [hcall] at hlen
    have hwritten := f.count_le hcall
    have htake : (front ++ chunk.take written).length = front.length + written := by
      rw [length_append, length_take_of_le hwritten]
    dsimp only at hlen
    rw [accessOk, decide_eq_true_eq] at haccess
    split_ifs with hzero hchunk
    · refine ⟨by simp [produced], ?_⟩
      rintro _ ⟨⟩
      exact ⟨by simp [produced], rfl⟩
    · have hnext := @ih (i + 1) (chunk ++ buf.drop (min buf.length (len - front.length)))
        (front ++ chunk.take written) (chunk.drop written) (by omega)
        (by rw [htake, length_drop, length_append, length_drop]; omega) (by omega)
      have hmem : store mem (base + pos) (front ++ chunk.take written ++ chunk.drop written) =
          store (store mem (base + pos) (front ++ rest)) (base + (pos + front.length)) chunk := by
        rw [append_assoc, take_append_drop, store_append, store_append, add_assoc,
          store_store (by omega)]
      rw [htake, hmem, ← add_assoc] at hnext
      refine ⟨?_, ?_⟩
      · rw [hnext.mem_eq, produced_cons, excess_cons, if_neg (cons_ne_nil _ _), ← append_assoc]
      · rw [produced_cons, ← append_assoc]
        exact hnext.count
    · rw [accessOk, decide_eq_true_eq] at hchunk
      omega

lemma leaves_writeWith (haccess : accessOk (base + pos) len = true) :
    @Leaves ε base pos mem [] [] (answers f len (len + 1) 0 0 (List.replicate 256 0))
      (writeWith f fault base len true pos mem) := by
  have h := @leaves_userLoop ε f fault base len pos mem (len + 1) 0 (List.replicate 256 0) [] []
    haccess (by rw [length_nil]; omega) (Nat.zero_le _) (Nat.zero_le _)
  rwa [append_nil, store_nil] at h

lemma fits_user_iff (hpos : pos ≤ len) (haccess : accessOk (base + pos) len = true) :
    (∀ mem, Exact base len pos mem (bytesOf f base len true pos mem)
      (writeWith f fault base len true pos mem)) ↔ Fits f len true pos := by
  simp only [bytesOf, Fits, if_true]
  have hleaves := fun mem => @leaves_writeWith ε f fault base len pos mem haccess
  generalize answers f len (len + 1) 0 0 (List.replicate 256 0) = rounds at hleaves ⊢
  have hmem : ∀ mem, (writeWith f fault base len true pos mem).2.2 =
      store mem (base + pos) (produced rounds ++ excess rounds) := by
    intro mem
    rw [(hleaves mem).mem_eq]
    cases rounds <;> rfl
  constructor
  · intro h
    constructor
    · by_contra hlong
      have hi : len - pos < (produced rounds).length := by omega
      -- the byte at the end of the buffer is one that was produced
      have hexact := h fun _ => (produced rounds)[len - pos] + 1
      have hout := hexact.outside (base + len) (.inr le_rfl)
      rw [hexact.mem_eq, show base + len = base + pos + (len - pos) by omega,
        store_apply hi] at hout
      simp at hout
    · by_contra hne
      obtain ⟨b, rest, hb⟩ := exists_cons_of_ne_nil hne
      have hexact := (h fun _ => b + 1).mem_eq
      rw [hmem, hb] at hexact
      have hat := congrFun hexact (base + pos + (produced rounds).length)
      rw [store_apply (by simp), store_apply_of_outside (.inr le_rfl)] at hat
      simp at hat
  · rintro ⟨hlen, hnil⟩ mem
    rw [hnil, append_nil] at hmem
    refine ⟨hmem mem, fun a ha => ?_, fun n hn => by simpa using (hleaves mem).count n hn⟩
    rw [hmem mem, store_apply_of_outside (by omega)]


/-- A store of bytes does no more than one of the first `n` where the others were there. -/
lemma store_take_eq_iff {a n : ℕ} {bytes : List (BitVec 8)} :
    store mem a bytes = store mem a (bytes.take n) ↔
      bytes.drop n = (slice mem a bytes.length).drop n := by
  constructor
  · intro h
    refine ext_getElem (by simp [slice]) fun i hi _ => ?_
    rw [length_drop] at hi
    have hat := congrFun h (a + (n + i))
    rw [store_apply (by omega), store_apply_of_outside (by rw [length_take]; omega)] at hat
    simpa [slice] using hat
  · intro h
    funext j
    by_cases hj : j < a ∨ a + bytes.length ≤ j
    · rw [store_apply_of_outside hj, store_apply_of_outside (by rw [length_take]; omega)]
    obtain ⟨i, rfl⟩ := Nat.exists_eq_add_of_le (show a ≤ j by omega)
    rw [store_apply (by omega)]
    by_cases hi : i < n
    · rw [store_apply (by rw [length_take]; omega), getElem_take]
    · rw [store_apply_of_outside (by rw [length_take]; omega)]
      have hat := congrArg (·[i - n]?) h
      have hback : n + (i - n) = i := by omega
      simpa [slice, hback, show i < bytes.length by omega] using hat

lemma writeWith_kernel : writeWith f fault base len false pos mem =
    ((f.call 0 (slice mem (base + pos) (len - pos))).2,
      pos + count (f.call 0 (slice mem (base + pos) (len - pos))).2,
      store mem (base + pos) (f.call 0 (slice mem (base + pos) (len - pos))).1) := by
  simp only [writeWith, Bool.false_eq_true, if_false]
  split
  all_goals
    next h =>
      rw [h]
      rfl

lemma slice_store {a : ℕ} {buf : List (BitVec 8)} :
    slice (store mem a buf) a buf.length = buf := by
  refine ext_getElem (by simp [slice]) fun i hi hi' => ?_
  simp only [slice, getElem_map, getElem_range, store_apply hi']

lemma fits_kernel_iff (hpos : pos ≤ len) :
    (∀ mem, Exact base len pos mem (bytesOf f base len false pos mem)
      (writeWith f fault base len false pos mem)) ↔ Fits f len false pos := by
  simp only [bytesOf, Fits, Bool.false_eq_true, if_false, writeWith_kernel]
  have hlen : ∀ mem, (slice mem (base + pos) (len - pos)).length = len - pos := by simp [slice]
  constructor
  · intro h buf hbuf
    have hexact := (h (store zeros (base + pos) buf)).mem_eq
    rw [store_take_eq_iff, f.length_eq, hlen, ← hbuf, slice_store] at hexact
    exact hexact
  · intro h mem
    have hcall := f.length_eq 0 (slice mem (base + pos) (len - pos))
    rw [hlen] at hcall
    refine ⟨?_, fun a ha => ?_, fun n hn => ?_⟩
    · rw [store_take_eq_iff, hcall]
      exact h _ (hlen mem)
    · exact store_apply_of_outside (by rw [hcall]; omega)
    · simp only at hn
      have hle := f.count_le
        (show f.call 0 (slice mem (base + pos) (len - pos)) = (_, .ok n) from Prod.ext rfl hn)
      rw [hn]
      exact ⟨(length_take_of_le hle).symm, rfl⟩

/-- The call writes exactly what `f` produces, whatever the memory holds, exactly when what
`f` answers fits. -/
theorem writeWith_exact_iff (user : Bool) (hpos : pos ≤ len)
    (haccess : user = true → accessOk (base + pos) len = true) :
    (∀ mem, Exact base len pos mem (bytesOf f base len user pos mem)
      (writeWith f fault base len user pos mem)) ↔ Fits f len user pos := by
  cases user with
  | true => exact fits_user_iff f fault base len hpos (haccess rfl)
  | false => exact fits_kernel_iff f fault base len hpos

/-- Fills every slice that it is given. -/
def fill : Producer Unit where
  call _ buf := (buf.map fun _ => 7, .ok buf.length)
  length_eq _ buf := length_map _
  count_le h := by cases h; exact (length_map _).ge

/-- An empty buffer of 300 bytes is filled in two rounds. -/
theorem writeWith_exact_fill :
    accessOk 4096 300 = true ∧ ∀ mem, Exact 4096 300 0 mem (bytesOf fill 4096 300 true 0 mem)
      (writeWith fill () 4096 300 true 0 mem) := by
  have haccess : accessOk 4096 300 = true := by decide
  refine ⟨haccess,
    (writeWith_exact_iff fill () 4096 300 true (Nat.zero_le _) fun _ => haccess).mpr ?_⟩
  simp only [Fits, if_true]
  decide +kernel

/-- A buffer of four bytes that has two left ends at 4100, and the byte there is changed. -/
theorem writeWith_past_buffer : (writeWith fill () 4096 4 true 2 zeros).2.2 4100 = 7 := by
  decide +kernel

end Kevlar.UserBufWriter
