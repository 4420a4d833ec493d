import Mathlib.Data.Nat.Bitwise
import Kevlar.BuddyAllocator
import Kevlar.DisjointRegions

/-!
# Blocks, buddies and the allocation bitmap

The arithmetic of naturally aligned power-of-two blocks and what the bitmap
helpers do to the bit of each page.
-/
namespace Kevlar.Buddy
open List Nat BuddyAllocator Function

structure Block where
  ptr : ℕ
  order : ℕ
  deriving Repr, DecidableEq

namespace Block

def size (b : Block) : ℕ := 2 ^ b.order * pageSize

def holds (a : ℕ) (b : Block) : Bool := decide (b.ptr ≤ a) && decide (a < b.ptr + b.size)

@[simp] lemma holds_iff (a : ℕ) (b : Block) :
    b.holds a = true ↔ b.ptr ≤ a ∧ a < b.ptr + b.size := by
  simp [holds]

lemma size_pos (b : Block) : 0 < b.size :=
  Nat.mul_pos (Nat.two_pow_pos _) (by decide)

lemma holds_ptr (b : Block) : b.holds b.ptr = true := by
  have := b.size_pos
  rw [holds_iff]
  omega

/-- Naturally aligned, of an order that has a free list. -/
def Aligned (b : Block) : Prop := b.ptr % b.size = 0 ∧ b.order ≤ maxOrder

lemma size_succ (ptr ptr' order : ℕ) : size ⟨ptr, order + 1⟩ = 2 * size ⟨ptr', order⟩ := by
  simp only [size, pow_succ]
  ring

lemma Aligned.ptr_mod {b : Block} (h : b.Aligned) : b.ptr % pageSize = 0 :=
  mod_eq_zero_of_dvd ((Dvd.intro_left _ rfl).trans (dvd_of_mod_eq_zero h.1))

/-- The halves of a block hold its addresses between them. -/
lemma countP_halves (a ptr order : ℕ) :
    [(⟨ptr, order + 1⟩ : Block)].countP (holds a) =
      [(⟨ptr, order⟩ : Block), ⟨ptr + 2 ^ order * pageSize, order⟩].countP (holds a) := by
  have hsize := size_succ ptr ptr order
  have hhalf : size ⟨ptr + 2 ^ order * pageSize, order⟩ = size ⟨ptr, order⟩ := rfl
  have hdef : size ⟨ptr, order⟩ = 2 ^ order * pageSize := rfl
  simp only [countP_cons, countP_nil, holds_iff, hsize, hhalf]
  split_ifs <;> omega

variable {ptr order : ℕ}

lemma Aligned.lower (h : Aligned ⟨ptr, order + 1⟩) : Aligned ⟨ptr, order⟩ := by
  obtain ⟨hmod, horder⟩ := h
  refine ⟨?_, by simp only at horder ⊢; omega⟩
  rw [size_succ ptr ptr] at hmod
  exact mod_eq_zero_of_dvd ((Dvd.intro_left _ rfl).trans (dvd_of_mod_eq_zero hmod))

lemma Aligned.upper (h : Aligned ⟨ptr, order + 1⟩) :
    Aligned ⟨ptr + 2 ^ order * pageSize, order⟩ := by
  obtain ⟨hmod, horder⟩ := h.lower
  refine ⟨?_, horder⟩
  have hsize : size ⟨ptr + 2 ^ order * pageSize, order⟩ = 2 ^ order * pageSize := rfl
  rw [hsize, add_mod_right]
  exact hmod

end Block

variable {ptr order paddr page : ℕ} {b : Block}

/-- Flipping the bit of its own size moves an aligned address to the other half
of the block of twice the size. -/
lemma xor_size (h : ptr % (2 ^ order * pageSize) = 0) :
    (ptr % (2 ^ (order + 1) * pageSize) = 0 ∧
      ptr ^^^ (2 ^ order * pageSize) = ptr + 2 ^ order * pageSize) ∨
    (2 ^ order * pageSize ≤ ptr ∧
      (ptr - 2 ^ order * pageSize) % (2 ^ (order + 1) * pageSize) = 0 ∧
      ptr ^^^ (2 ^ order * pageSize) = ptr - 2 ^ order * pageSize) := by
  have hpow : 2 ^ order * pageSize = 2 ^ (order + 12) := by
    rw [pow_add]
    rfl
  have hpow' : 2 ^ (order + 1) * pageSize = 2 ^ (order + 12) * 2 := by
    rw [pow_succ, mul_right_comm, hpow]
  rw [hpow] at h ⊢
  rw [hpow']
  obtain ⟨q, rfl⟩ := dvd_of_mod_eq_zero h
  have hxor : (2 ^ (order + 12) * q) ^^^ 2 ^ (order + 12) = 2 ^ (order + 12) * (q ^^^ 1) := by
    have hdistrib := shiftLeft_xor_distrib (a := q) (b := 1) (i := order + 12)
    simp only [shiftLeft_eq, one_mul] at hdistrib
    rw [mul_comm, ← hdistrib, mul_comm]
  rw [hxor]
  rcases even_or_odd' q with ⟨m, rfl | rfl⟩
  · left
    rw [xor_one_of_even (even_two_mul m), Nat.mul_mod_mul_left]
    exact ⟨by simp, by ring⟩
  · right
    rw [Nat.xor_one_of_odd (odd_two_mul_add_one m)]
    have hsub : 2 ^ (order + 12) * (2 * m + 1) - 2 ^ (order + 12) = 2 ^ (order + 12) * (2 * m) := by
      rw [mul_add, mul_one, Nat.add_sub_cancel]
    rw [hsub, Nat.mul_mod_mul_left]
    exact ⟨Nat.le_mul_of_pos_right _ (by omega), by simp, by simp⟩

/-- A block and its buddy make up the block that the merge continues with. -/
lemma merge_buddy (h : Block.Aligned ⟨ptr, order⟩) (horder : order < maxOrder) {buddy : ℕ}
    (hbuddy : buddy = ptr ^^^ (2 ^ order * pageSize)) :
    Block.Aligned ⟨if ptr < buddy then ptr else buddy, order + 1⟩ ∧
      ∀ a, [(⟨ptr, order⟩ : Block), ⟨buddy, order⟩].countP (Block.holds a) =
        [(⟨if ptr < buddy then ptr else buddy, order + 1⟩ : Block)].countP (Block.holds a) := by
  have hpos : 0 < 2 ^ order * pageSize := Block.size_pos ⟨ptr, order⟩
  have halign : ptr % (2 ^ order * pageSize) = 0 := h.1
  rcases xor_size halign with ⟨hmod, hxor⟩ | ⟨hle, hmod, hxor⟩
  · rw [hxor] at hbuddy
    subst hbuddy
    rw [if_pos (by omega)]
    exact ⟨⟨hmod, horder⟩, fun a => (Block.countP_halves a ptr order).symm⟩
  · rw [hxor] at hbuddy
    have hptr : ptr = buddy + 2 ^ order * pageSize := by omega
    rw [if_neg (by omega)]
    refine ⟨⟨by rw [hbuddy]; exact hmod, horder⟩, fun a => ?_⟩
    rw [Block.countP_halves, ← hptr]
    exact (List.Perm.swap _ _ _).countP_eq _

lemma bitmapIsAllocated_eq (bitmap : Bitmap) (h : paddr < maxBitmapPages * pageSize) :
    bitmapIsAllocated bitmap paddr =
      (bitmap (paddr / pageSize / 8)).getLsbD (paddr / pageSize % 8) := by
  have hidx : paddr / pageSize < maxBitmapPages := (div_lt_iff_lt_mul (by decide)).mpr h
  have hlt : paddr / pageSize % 8 < 8 := mod_lt _ (by norm_num)
  rw [bitmapIsAllocated, if_neg (by omega), bitMask, ← BitVec.twoPow_eq, BitVec.and_twoPow]
  split_ifs with hbit
  · rw [hbit, bne_iff_ne]
    intro hzero
    have hget := BitVec.getLsbD_twoPow (w := 8) (paddr / pageSize % 8) (paddr / pageSize % 8)
    rw [hzero] at hget
    simp [hlt] at hget
  · rw [Bool.not_eq_true] at hbit
    rw [hbit]
    rfl

section

variable (bitmap : Bitmap) (hpage : page < maxBitmapPages * pageSize)
  (h : paddr < maxBitmapPages * pageSize)
include bitmap hpage h

/-- Setting the bit of a page leaves the bits of all other pages alone. -/
lemma bitmapIsAllocated_set : bitmapIsAllocated (bitmapSetAllocated bitmap page) paddr =
      (decide (paddr / pageSize = page / pageSize) || bitmapIsAllocated bitmap paddr) := by
  have hidx : page / pageSize < maxBitmapPages := (div_lt_iff_lt_mul (by decide)).mpr hpage
  rw [bitmapIsAllocated_eq _ h, bitmapIsAllocated_eq _ h, bitmapSetAllocated, if_neg (by omega),
    bitMask, ← BitVec.twoPow_eq]
  by_cases hbyte : paddr / pageSize / 8 = page / pageSize / 8
  · rw [hbyte, update_self, BitVec.getLsbD_or, BitVec.getLsbD_twoPow, Bool.or_comm]
    congr 1
    rw [Bool.eq_iff_iff]
    simp only [Bool.and_eq_true, decide_eq_true_eq]
    omega
  · rw [update_of_ne hbyte, decide_eq_false (by omega), Bool.false_or]

lemma bitmapIsAllocated_clear : bitmapIsAllocated (bitmapClearAllocated bitmap page) paddr =
      (!decide (paddr / pageSize = page / pageSize) && bitmapIsAllocated bitmap paddr) := by
  have hidx : page / pageSize < maxBitmapPages := (div_lt_iff_lt_mul (by decide)).mpr hpage
  have hlt : paddr / pageSize % 8 < 8 := mod_lt _ (by norm_num)
  rw [bitmapIsAllocated_eq _ h, bitmapIsAllocated_eq _ h, bitmapClearAllocated,
    if_neg (by omega), bitMask, ← BitVec.twoPow_eq]
  by_cases hbyte : paddr / pageSize / 8 = page / pageSize / 8
  · rw [hbyte, update_self, BitVec.getLsbD_and, BitVec.getLsbD_not,
      BitVec.getLsbD_twoPow, Bool.and_comm]
    congr 1
    rw [Bool.eq_iff_iff]
    simp only [hlt, decide_true, Bool.true_and, Bool.not_eq_true', Bool.and_eq_false_iff,
      decide_eq_false_iff_not]
    omega
  · rw [update_of_ne hbyte, decide_eq_false (by omega), Bool.not_false, Bool.true_and]

end

section

variable (bitmap : Bitmap) (pages : List ℕ)
  (hpages : ∀ page ∈ pages, page < maxBitmapPages * pageSize)
  (hnodup : (pages.map (· / pageSize)).Nodup)
include bitmap pages hpages hnodup

/-- Marking distinct clear pages never fails and sets exactly their bits. -/
lemma markAllocated_eq (hclear : ∀ page ∈ pages, bitmapIsAllocated bitmap page = false) :
    ∃ bitmap', markAllocated bitmap pages = some bitmap' ∧
      ∀ a, a < maxBitmapPages * pageSize → bitmapIsAllocated bitmap' a =
        (decide (a / pageSize ∈ pages.map (· / pageSize)) || bitmapIsAllocated bitmap a) := by
  induction pages generalizing bitmap with
  | nil => exact ⟨bitmap, rfl, fun a _ => by simp⟩
  | cons page pages ih =>
    have hpage := hpages page (by simp)
    rw [map_cons, nodup_cons] at hnodup
    obtain ⟨bitmap', hmark, hbits⟩ := ih (bitmapSetAllocated bitmap page)
      (fun p hp => hpages p (by simp [hp])) hnodup.2 (by
        intro p hp
        have hne : ¬p / pageSize = page / pageSize := fun heq =>
          hnodup.1 (mem_map.mpr ⟨p, hp, heq⟩)
        rw [bitmapIsAllocated_set _ hpage (hpages p (by simp [hp])), decide_eq_false hne,
          hclear p (by simp [hp])]
        rfl)
    refine ⟨bitmap', ?_, ?_⟩
    · rw [markAllocated, hclear page (by simp)]
      exact hmark
    · intro a ha
      rw [hbits a ha, bitmapIsAllocated_set _ hpage ha, map_cons, ← Bool.or_assoc]
      congr 1
      simp only [mem_cons, Bool.decide_or]
      exact Bool.or_comm _ _

/-- Freeing distinct allocated pages never fails and clears exactly their bits. -/
lemma markFree_eq (hset : ∀ page ∈ pages, bitmapIsAllocated bitmap page = true) :
    ∃ bitmap', markFree bitmap pages = some bitmap' ∧
      ∀ a, a < maxBitmapPages * pageSize → bitmapIsAllocated bitmap' a =
        (!decide (a / pageSize ∈ pages.map (· / pageSize)) && bitmapIsAllocated bitmap a) := by
  induction pages generalizing bitmap with
  | nil => exact ⟨bitmap, rfl, fun a _ => by simp⟩
  | cons page pages ih =>
    have hpage := hpages page (by simp)
    rw [map_cons, nodup_cons] at hnodup
    obtain ⟨bitmap', hmark, hbits⟩ := ih (bitmapClearAllocated bitmap page)
      (fun p hp => hpages p (by simp [hp])) hnodup.2 (by
        intro p hp
        have hne : ¬p / pageSize = page / pageSize := fun heq =>
          hnodup.1 (mem_map.mpr ⟨p, hp, heq⟩)
        rw [bitmapIsAllocated_clear _ hpage (hpages p (by simp [hp])), decide_eq_false hne,
          hset p (by simp [hp])]
        rfl)
    refine ⟨bitmap', ?_, ?_⟩
    · rw [markFree, hset page (by simp)]
      exact hmark
    · intro a ha
      rw [hbits a ha, bitmapIsAllocated_clear _ hpage ha, map_cons, ← Bool.and_assoc]
      congr 1
      simp only [mem_cons, Bool.decide_or, Bool.not_or]
      exact Bool.and_comm _ _

end

/-- The pages of a block, numbered. -/
lemma map_div_blockPages (b : Block) :
    (blockPages b.ptr b.order).map (· / pageSize) =
      range' (b.ptr / pageSize) (2 ^ b.order) := by
  rw [blockPages, map_map, range'_eq_map_range]
  refine map_congr_left fun i _ => ?_
  simp only [comp_apply]
  rw [add_mul_div_right _ _ (by decide)]

lemma mem_blockPages_div_iff (h : b.Aligned) {a : ℕ} :
    a / pageSize ∈ (blockPages b.ptr b.order).map (· / pageSize) ↔
      b.holds a = true := by
  have hmod := h.ptr_mod
  rw [map_div_blockPages, mem_range'_1, Block.holds_iff, Block.size]
  simp only [pageSize] at hmod ⊢
  omega

end Kevlar.Buddy
