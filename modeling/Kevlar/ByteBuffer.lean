import Mathlib.Tactic

/-!
# Byte buffers with little-endian fields

A buffer gives a byte for every offset; how long it is is known to whoever uses it.
Fields of two and four bytes are read and written at an offset, low byte first.
What a store does to the other bytes is said once per operation, and reading a
field only depends on its own bytes.
-/
namespace ByteBuffer
open Function List

abbrev Bytes : Type := ℕ → BitVec 8

def zeros : Bytes := fun _ => 0

def readU16 (data : Bytes) (offset : ℕ) : ℕ :=
  (data offset).toNat + 256 * (data (offset + 1)).toNat

def readU32 (data : Bytes) (offset : ℕ) : ℕ :=
  readU16 data offset + 65536 * readU16 data (offset + 2)

def writeU16 (data : Bytes) (offset val : ℕ) : Bytes :=
  update (update data offset (BitVec.ofNat 8 val)) (offset + 1)
    (BitVec.ofNat 8 (val / 256))

def writeU32 (data : Bytes) (offset val : ℕ) : Bytes :=
  writeU16 (writeU16 data offset val) (offset + 2) (val / 65536)

/-- Bytes copied within a buffer, by way of a temporary. -/
def copyWithin (data : Bytes) (src dst len : ℕ) : Bytes :=
  fun j => if dst ≤ j ∧ j < dst + len then data (src + (j - dst)) else data j

/-- A list of bytes stored at an offset. -/
def store (data : Bytes) (offset : ℕ) (bytes : List (BitVec 8)) : Bytes :=
  fun j => if offset ≤ j then bytes[j - offset]?.getD (data j) else data j

/-- The bytes of a range. -/
def slice (data : Bytes) (offset len : ℕ) : List (BitVec 8) :=
  (List.range len).map fun i => data (offset + i)

lemma readU16_lt (data : Bytes) (offset : ℕ) : readU16 data offset < 2 ^ 16 := by
  unfold readU16
  omega

lemma readU32_lt (data : Bytes) (offset : ℕ) : readU32 data offset < 2 ^ 32 := by
  have h₀ := readU16_lt data offset
  have h₁ := readU16_lt data (offset + 2)
  unfold readU32
  omega

variable {data : Bytes} {offset offset' val j : ℕ}

lemma readU16_congr {data' : Bytes} (h : ∀ i < 2, data' (offset' + i) = data (offset + i)) :
    readU16 data' offset' = readU16 data offset := by
  have h₀ := h 0 (by omega)
  have h₁ := h 1 (by omega)
  rw [add_zero, add_zero] at h₀
  rw [readU16, readU16, h₀, h₁]

lemma readU32_congr {data' : Bytes} (h : ∀ i < 4, data' (offset' + i) = data (offset + i)) :
    readU32 data' offset' = readU32 data offset := by
  have hlow : readU16 data' offset' = readU16 data offset :=
    readU16_congr fun i hi => h i (by omega)
  have hhigh : readU16 data' (offset' + 2) = readU16 data (offset + 2) := by
    refine readU16_congr fun i hi => ?_
    rw [add_assoc, add_assoc]
    exact h (2 + i) (by omega)
  rw [readU32, readU32, hlow, hhigh]

lemma writeU16_apply_of_outside (h : j < offset ∨ offset + 2 ≤ j) :
    writeU16 data offset val j = data j := by
  rw [writeU16, update_of_ne (by omega), update_of_ne (by omega)]

lemma writeU32_apply_of_outside (h : j < offset ∨ offset + 4 ≤ j) :
    writeU32 data offset val j = data j := by
  rw [writeU32, writeU16_apply_of_outside (by omega), writeU16_apply_of_outside (by omega)]

lemma readU16_writeU16 (data : Bytes) (offset val : ℕ) :
    readU16 (writeU16 data offset val) offset = val % 2 ^ 16 := by
  rw [readU16, writeU16, update_self, update_of_ne (by omega),
    update_self, BitVec.toNat_ofNat, BitVec.toNat_ofNat]
  omega

lemma readU32_writeU32 : readU32 (writeU32 data offset val) offset = val % 2 ^ 32 := by
  have hlow : readU16 (writeU32 data offset val) offset = val % 2 ^ 16 := by
    rw [← readU16_writeU16 data offset val]
    refine readU16_congr fun i hi => ?_
    rw [writeU32, writeU16_apply_of_outside (by omega)]
  rw [readU32, hlow, writeU32, readU16_writeU16]
  omega

lemma readU16_writeU16_of_disjoint (h : offset' + 2 ≤ offset ∨ offset + 2 ≤ offset') :
    readU16 (writeU16 data offset val) offset' = readU16 data offset' :=
  readU16_congr fun i hi => writeU16_apply_of_outside (by omega)

lemma readU32_writeU16_of_disjoint (h : offset' + 4 ≤ offset ∨ offset + 2 ≤ offset') :
    readU32 (writeU16 data offset val) offset' = readU32 data offset' :=
  readU32_congr fun i hi => writeU16_apply_of_outside (by omega)

lemma readU16_writeU32_of_disjoint (h : offset' + 2 ≤ offset ∨ offset + 4 ≤ offset') :
    readU16 (writeU32 data offset val) offset' = readU16 data offset' :=
  readU16_congr fun i hi => writeU32_apply_of_outside (by omega)

lemma readU32_writeU32_of_disjoint (h : offset' + 4 ≤ offset ∨ offset + 4 ≤ offset') :
    readU32 (writeU32 data offset val) offset' = readU32 data offset' :=
  readU32_congr fun i hi => writeU32_apply_of_outside (by omega)

lemma copyWithin_apply_of_outside {src dst len : ℕ} (h : j < dst ∨ dst + len ≤ j) :
    copyWithin data src dst len j = data j := by
  rw [copyWithin, if_neg (by omega)]

lemma copyWithin_apply {src dst len i : ℕ} (h : i < len) :
    copyWithin data src dst len (dst + i) = data (src + i) := by
  rw [copyWithin, if_pos (by omega), Nat.add_sub_cancel_left]

lemma store_apply_of_outside {bytes : List (BitVec 8)}
    (h : j < offset ∨ offset + bytes.length ≤ j) : store data offset bytes j = data j := by
  rw [store]
  by_cases hj : offset ≤ j
  · rw [if_pos hj, getElem?_eq_none (by omega), Option.getD_none]
  · rw [if_neg hj]

lemma store_apply {data : Bytes} {offset i : ℕ} {bytes : List (BitVec 8)} (h : i < bytes.length) :
    store data offset bytes (offset + i) = bytes[i] := by
  rw [store, if_pos (Nat.le_add_right offset i), Nat.add_sub_cancel_left,
    getElem?_eq_getElem h, Option.getD_some]

@[simp] lemma store_nil : store data offset [] = data := by
  funext j
  exact store_apply_of_outside (by simp; omega)

/-- Storing a list is storing a first part of it and then the rest behind it. -/
lemma store_take_drop (data : Bytes) (offset : ℕ) (bytes : List (BitVec 8)) {n : ℕ}
    (h : n ≤ bytes.length) :
    store (store data offset (bytes.take n)) (offset + n) (bytes.drop n) =
      store data offset bytes := by
  have htake : (bytes.take n).length = n := length_take_of_le h
  have hdrop : (bytes.drop n).length = bytes.length - n := length_drop
  funext j
  by_cases hlow : j < offset
  · rw [store_apply_of_outside (by omega), store_apply_of_outside (by omega),
      store_apply_of_outside (by omega)]
  obtain ⟨i, rfl⟩ := Nat.exists_eq_add_of_le (not_lt.mp hlow)
  by_cases hin : i < n
  · rw [store_apply_of_outside (by omega), store_apply (by omega), store_apply (by omega),
      getElem_take]
  · by_cases hend : i < bytes.length
    · obtain ⟨k, rfl⟩ := Nat.exists_eq_add_of_le (not_lt.mp hin)
      rw [← add_assoc, store_apply (by omega), getElem_drop, add_assoc, store_apply hend]
    · rw [store_apply_of_outside (by omega), store_apply_of_outside (by omega),
        store_apply_of_outside (by omega)]

lemma slice_add (n k : ℕ) :
    slice data offset (n + k) = slice data offset n ++ slice data (offset + n) k := by
  simp only [slice, range_add, map_append, map_map, comp_def, add_assoc]

@[simp] lemma length_slice (len : ℕ) : (slice data offset len).length = len := by
  rw [slice, length_map, length_range]

end ByteBuffer
