import Mathlib.Tactic

/-!
# Wrapping machine words

Both build profiles switch overflow checks off, so `usize` arithmetic is
arithmetic modulo `2 ^ 64`. Values are natural numbers and every addition or
subtraction that the source performs on unchecked operands goes through `wadd`
and `wsub`. The alignment helpers are only ever called with a power of two,
for which masking and rounding agree.
-/
namespace Kevlar

def pageSize : ℕ := 4096

lemma pageSize_pos : 0 < pageSize := by norm_num [pageSize]

/-- A 2 MB page: 512 pages of 4 KB. -/
def hugePageSize : ℕ := 512 * pageSize

def wadd (a b : ℕ) : ℕ := (a + b) % 2 ^ 64

def wsub (a b : ℕ) : ℕ := (a + 2 ^ 64 - b) % 2 ^ 64

lemma wadd_of_lt {a b : ℕ} (h : a + b < 2 ^ 64) : wadd a b = a + b :=
  Nat.mod_eq_of_lt h

lemma wadd_lt (a b : ℕ) : wadd a b < 2 ^ 64 := Nat.mod_lt _ (by norm_num)

lemma wsub_lt (a b : ℕ) : wsub a b < 2 ^ 64 := Nat.mod_lt _ (by norm_num)

lemma wsub_of_le {a b : ℕ} (h : b ≤ a) (ha : a < 2 ^ 64) : wsub a b = a - b := by
  unfold wsub
  omega

/-- Shifting a base and shortening the distance leave the position fixed. -/
lemma wadd_wadd_sub (base shift d : ℕ) (h : shift ≤ d) :
    wadd (wadd base shift) (d - shift) = wadd base d := by
  unfold wadd
  omega

def alignDown (value align : ℕ) : ℕ := value - value % align

def alignUp (value align : ℕ) : ℕ := alignDown (wadd value (align - 1)) align

def isAligned (value align : ℕ) : Bool := value % align == 0

@[simp] lemma isAligned_iff (value align : ℕ) :
    isAligned value align = true ↔ value % align = 0 := by
  simp [isAligned]

lemma alignDown_le (value align : ℕ) : alignDown value align ≤ value := Nat.sub_le _ _

lemma alignDown_mod (value align : ℕ) : alignDown value align % align = 0 := by
  exact Nat.sub_mod_eq_zero_of_mod_eq (Nat.mod_mod _ _).symm

end Kevlar
