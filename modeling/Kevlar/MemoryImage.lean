import Kevlar.ByteBuffer

/-!
# Byte images in memory

`Holds` says which bytes a memory has from an address on. Words of any width are
written as little-endian byte lists and read back byte by byte. The readers below
(words up to a zero word, pairs up to a zero key, strings up to a zero byte) take a
bound on the number of steps, and what they return is read off the image that the
memory holds.
-/
namespace ByteBuffer
open List Nat

/-- The memory has these bytes from the address on. -/
def Holds (data : Bytes) : ℕ → List (BitVec 8) → Prop
  | _, [] => True
  | a, b :: bytes => data a = b ∧ Holds data (a + 1) bytes

@[simp] lemma holds_nil (data : Bytes) (a : ℕ) : Holds data a [] := trivial

variable {data : Bytes} {a : ℕ} {bytes : List (BitVec 8)}

@[simp] lemma holds_cons {b : BitVec 8} :
    Holds data a (b :: bytes) ↔ data a = b ∧ Holds data (a + 1) bytes := .rfl

lemma holds_append {front back : List (BitVec 8)} :
    Holds data a (front ++ back) ↔
      Holds data a front ∧ Holds data (a + front.length) back := by
  induction front generalizing a with
  | nil => simp
  | cons b front ih =>
    simp only [cons_append, holds_cons, ih, length_cons, and_assoc]
    rw [add_assoc, add_comm 1]

lemma Holds.congr {data' : Bytes} {a' : ℕ} (h : Holds data a bytes)
    (hsame : ∀ i < bytes.length, data' (a' + i) = data (a + i)) :
    Holds data' a' bytes := by
  induction bytes generalizing a a' with
  | nil => trivial
  | cons b bytes ih =>
    constructor
    · rw [← h.1]
      exact hsame 0 (by simp)
    · apply ih h.2
      intro i hi
      rw [add_assoc, add_assoc, add_comm 1 i]
      exact hsame (i + 1) (by simp; omega)

lemma holds_store (data : Bytes) (a : ℕ) (bytes : List (BitVec 8)) :
    Holds (store data a bytes) a bytes := by
  induction bytes generalizing data a with
  | nil => trivial
  | cons b bytes ih =>
    constructor
    · exact @store_apply data a 0 (b :: bytes) (by simp)
    · rw [← store_take_drop data a (b :: bytes) (n := 1) (by simp)]
      exact ih _ (a + 1)

lemma Holds.store_below {a' : ℕ} {front : List (BitVec 8)} (h : Holds data a bytes)
    (hbelow : a' + front.length ≤ a) :
    Holds (store data a' front) a bytes :=
  h.congr fun _ _ => store_apply_of_outside (by omega)

lemma holds_slice (data : Bytes) (a len : ℕ) : Holds data a (slice data a len) := by
  induction len generalizing a with
  | zero => trivial
  | succ len ih =>
    rw [add_comm, slice_add]
    exact holds_append.mpr ⟨⟨rfl, trivial⟩, by simpa using ih (a + 1)⟩

lemma Holds.apply (h : Holds data a bytes) {i : ℕ} (hi : i < bytes.length) :
    data (a + i) = bytes[i] := by
  induction bytes generalizing a i with
  | nil => simp at hi
  | cons b bytes ih =>
    cases i with
    | zero => exact h.1
    | succ i => rw [getElem_cons_succ, ← ih h.2 (by simpa using hi), add_assoc, add_comm 1]

/-! ## Words -/

def littleEndian : ℕ → ℕ → List (BitVec 8)
  | 0, _ => []
  | width + 1, value => BitVec.ofNat 8 value :: littleEndian width (value / 256)

def readWord (data : Bytes) : ℕ → ℕ → ℕ
  | _, 0 => 0
  | a, width + 1 => (data a).toNat + 256 * readWord data (a + 1) width

@[simp] lemma length_littleEndian (width value : ℕ) :
    (littleEndian width value).length = width := by
  induction width generalizing value with
  | zero => rfl
  | succ width ih => simp [littleEndian, ih]

@[simp] lemma length_flatMap_littleEndian (width : ℕ) (words : List ℕ) :
    (words.flatMap (littleEndian width)).length = width * words.length := by
  induction words with
  | nil => simp
  | cons w words ih => simp [ih, mul_add, add_comm]

lemma Holds.readWord_eq {data : Bytes} {a width value : ℕ}
    (h : Holds data a (littleEndian width value)) :
    readWord data a width = value % 256 ^ width := by
  induction width generalizing a value with
  | zero => simp [readWord, mod_one]
  | succ width ih =>
    calc readWord data a (width + 1)
        = value % 256 + 256 * (value / 256 % 256 ^ width) := by
          simp [readWord, ih h.2, h.1]
      _ = value % 256 ^ (width + 1) := by rw [← mod_mul, ← pow_succ']

/-- The words from an address on, up to a zero word, and the address behind it. -/
def wordsUntilZero (data : Bytes) : ℕ → ℕ → Option (List ℕ × ℕ)
  | 0, _ => none
  | fuel + 1, a =>
    if readWord data a 8 = 0 then some ([], a + 8)
    else (wordsUntilZero data fuel (a + 8)).map fun r => (readWord data a 8 :: r.1, r.2)

/-- The pairs of words from an address on, up to one with a zero key. -/
def pairsUntilZero (data : Bytes) : ℕ → ℕ → Option (List (ℕ × ℕ))
  | 0, _ => none
  | fuel + 1, a =>
    if readWord data a 8 = 0 then some []
    else (pairsUntilZero data fuel (a + 16)).map ((readWord data a 8, readWord data (a + 8) 8) :: ·)

/-- The bytes from an address on, up to a zero byte. -/
def cString (data : Bytes) : ℕ → ℕ → Option (List (BitVec 8))
  | 0, _ => none
  | fuel + 1, a => if data a = 0 then some [] else (cString data fuel (a + 1)).map (data a :: ·)

lemma wordsUntilZero_of_holds {data : Bytes} {a fuel : ℕ} {words : List ℕ}
    (h : Holds data a (words.flatMap (littleEndian 8) ++ littleEndian 8 0))
    (hwords : ∀ w ∈ words, 0 < w ∧ w < 2 ^ 64) (hfuel : words.length < fuel) :
    wordsUntilZero data fuel a = some (words, a + 8 * words.length + 8) := by
  induction words generalizing a fuel with
  | nil =>
    obtain ⟨fuel, rfl⟩ := Nat.exists_eq_add_of_lt hfuel
    have hzero : readWord data a 8 = 0 := h.readWord_eq
    simp [wordsUntilZero, hzero]
  | cons w words ih =>
    obtain ⟨fuel, rfl⟩ := Nat.exists_eq_add_of_lt hfuel
    rw [flatMap_cons, append_assoc, holds_append] at h
    obtain ⟨hpos, hlt⟩ := hwords w (by simp)
    have hread : readWord data a 8 = w := by
      rw [h.1.readWord_eq]
      exact mod_eq_of_lt (by simpa using hlt)
    have htail := @ih (a + 8) (words.length + 1 + fuel) (by simpa using h.2)
      (fun v hv => hwords v (mem_cons_of_mem w hv)) (by omega)
    have hne : ¬ w = 0 := by omega
    simp only [length_cons, wordsUntilZero, hread, if_neg hne, htail, Option.map_some,
      Option.some.injEq, Prod.mk.injEq, true_and]
    omega

/-- The bytes of a list of pairs, the key of each below its value. -/
def pairBytes (pairs : List (ℕ × ℕ)) : List (BitVec 8) :=
  pairs.flatMap fun p => littleEndian 8 p.1 ++ littleEndian 8 p.2

@[simp] lemma length_pairBytes (pairs : List (ℕ × ℕ)) :
    (pairBytes pairs).length = 16 * pairs.length := by
  induction pairs with
  | nil => rfl
  | cons p pairs ih => simp_all [pairBytes]; omega

lemma pairsUntilZero_of_holds {data : Bytes} {a fuel : ℕ} {pairs : List (ℕ × ℕ)}
    (h : Holds data a (pairBytes pairs ++ littleEndian 8 0))
    (hpairs : ∀ p ∈ pairs, p.1 < 2 ^ 64 ∧ p.2 < 2 ^ 64) (hfuel : pairs.length < fuel) :
    pairsUntilZero data fuel a = some (pairs.takeWhile fun p => p.1 ≠ 0) := by
  induction pairs generalizing a fuel with
  | nil =>
    obtain ⟨fuel, rfl⟩ := Nat.exists_eq_add_of_lt hfuel
    have hzero : readWord data a 8 = 0 := h.readWord_eq
    simp [pairsUntilZero, hzero]
  | cons p pairs ih =>
    obtain ⟨fuel, rfl⟩ := Nat.exists_eq_add_of_lt hfuel
    obtain ⟨hkey, hval⟩ := hpairs p (by simp)
    rw [pairBytes, flatMap_cons, append_assoc, append_assoc, holds_append, holds_append] at h
    simp only [length_littleEndian] at h
    have hreadKey : readWord data a 8 = p.1 := by
      rw [h.1.readWord_eq]
      exact mod_eq_of_lt (by simpa using hkey)
    have hreadVal : readWord data (a + 8) 8 = p.2 := by
      rw [h.2.1.readWord_eq]
      exact mod_eq_of_lt (by simpa using hval)
    have htail := @ih (a + 8 + 8) (pairs.length + 1 + fuel) h.2.2
      (fun q hq => hpairs q (mem_cons_of_mem p hq)) (by omega)
    rw [length_cons, pairsUntilZero, hreadKey, hreadVal]
    by_cases hzero : p.1 = 0
    · simp [hzero]
    · rw [if_neg hzero, show a + 16 = a + 8 + 8 by omega, htail]
      simp [hzero]

lemma cString_of_holds {fuel : ℕ} {str : List (BitVec 8)} (h : Holds data a (str ++ [0]))
    (hfuel : str.length < fuel) :
    cString data fuel a = some (str.takeWhile (· ≠ 0)) := by
  induction str generalizing a fuel with
  | nil =>
    obtain ⟨fuel, rfl⟩ := Nat.exists_eq_add_of_lt hfuel
    simp [cString, h.1]
  | cons b str ih =>
    obtain ⟨fuel, rfl⟩ := Nat.exists_eq_add_of_lt hfuel
    have htail := @ih (a + 1) (str.length + 1 + fuel) h.2 (by omega)
    rw [length_cons, cString, h.1]
    by_cases hzero : b = 0
    · simp [hzero]
    · rw [if_neg hzero, htail, takeWhile_cons_of_pos (by simpa using hzero)]
      rfl

end ByteBuffer
