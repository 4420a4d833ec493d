import Mathlib.Tactic

/-!
# Lists of pairwise disjoint regions

A region is anything with a membership relation to points. Disjointness survives
permuting, appending and replacing, and it is the same as no point being counted
twice.
-/
namespace Kevlar.DisjointRegions
open List

variable {α β : Type*} {mem : α → β → Prop}

/-- No point belongs to two regions at different positions of the list. -/
def DisjointOn (mem : α → β → Prop) (l : List α) : Prop :=
  l.Pairwise fun x y => ∀ p, ¬(mem x p ∧ mem y p)

variable {x : α} {l : List α}

lemma apart_symm {y : α} (h : ∀ p, ¬(mem x p ∧ mem y p)) : ∀ p, ¬(mem y p ∧ mem x p) :=
  fun p hp => h p hp.symm

lemma DisjointOn.perm {l' : List α} (h : DisjointOn mem l) (hp : l.Perm l') :
    DisjointOn mem l' :=
  List.Pairwise.perm h hp fun hxy => apart_symm hxy

lemma disjointOn_cons :
    DisjointOn mem (x :: l) ↔ (∀ y ∈ l, ∀ p, ¬(mem x p ∧ mem y p)) ∧ DisjointOn mem l :=
  pairwise_cons

lemma disjointOn_concat :
    DisjointOn mem (l ++ [x]) ↔ DisjointOn mem l ∧ ∀ y ∈ l, ∀ p, ¬(mem y p ∧ mem x p) := by
  simp [DisjointOn, pairwise_append]

/-- Replacing one region by another that stays clear of the rest. -/
lemma DisjointOn.replace {pre post : List α} {y : α} (h : DisjointOn mem (pre ++ x :: post))
    (hy : ∀ z ∈ pre ++ post, ∀ p, ¬(mem y p ∧ mem z p)) :
    DisjointOn mem (pre ++ y :: post) := by
  have hpre := (h.perm perm_middle)
  refine DisjointOn.perm ?_ perm_middle.symm
  exact disjointOn_cons.mpr ⟨hy, (disjointOn_cons.mp hpre).2⟩

/-- Disjointness counted point by point: no point selects two positions. -/
lemma disjointOn_iff_length_filter_le_one {q : β → α → Bool}
    (hq : ∀ p x, q p x = true ↔ mem x p) :
    DisjointOn mem l ↔ ∀ p, (l.filter (q p)).length ≤ 1 := by
  induction l with
  | nil => simp [DisjointOn]
  | cons x l ih =>
    rw [disjointOn_cons, ih]
    constructor
    · rintro ⟨hx, hl⟩ p
      by_cases hxp : q p x = true
      · have hnil : l.filter (q p) = [] := by
          rw [filter_eq_nil_iff]
          intro y hy hyp
          exact hx y hy p ⟨(hq p x).mp hxp, (hq p y).mp hyp⟩
        rw [filter_cons_of_pos hxp, hnil, length_singleton]
      · rw [filter_cons_of_neg hxp]
        exact hl p
    · intro h
      constructor
      · rintro y hy p ⟨hxp, hyp⟩
        have hlen := h p
        rw [filter_cons_of_pos ((hq p x).mpr hxp), length_cons] at hlen
        have hmem : y ∈ l.filter (q p) := mem_filter.mpr ⟨hy, (hq p y).mpr hyp⟩
        have hpos := length_pos_of_mem hmem
        omega
      · intro p
        have hsub := ((sublist_cons_self x l).filter (q p)).length_le
        exact hsub.trans (h p)

/-- The regions tile `inside`: a point inside belongs to one region of the list
and a point outside to none, both counted by position. -/
def Tiles (q : β → α → Bool) (inside : β → Prop) [DecidablePred inside] (l : List α) : Prop :=
  ∀ p, l.countP (q p) = if inside p then 1 else 0

section Tiling

variable {q : β → α → Bool} {inside : β → Prop} [DecidablePred inside]

variable {l : List α} {p : β}

lemma Tiles.perm {l' : List α} (h : Tiles q inside l) (hp : l.Perm l') : Tiles q inside l' :=
  fun p => (hp.countP_eq (q p)).symm.trans (h p)

section

variable (h : Tiles q inside l)
include h

lemma Tiles.disjointOn : DisjointOn (fun x p => q p x = true) l := by
  refine (disjointOn_iff_length_filter_le_one (fun _ _ => .rfl)).mpr fun p => ?_
  rw [← countP_eq_length_filter, h p]
  split_ifs <;> omega

lemma Tiles.exists_mem (hp : inside p) : ∃ x ∈ l, q p x = true := by
  refine countP_pos_iff.mp ?_
  rw [h p, if_pos hp]
  exact Nat.one_pos

lemma Tiles.inside_of_mem {x : α} (hx : x ∈ l) (hp : q p x = true) : inside p := by
  have hpos : 0 < l.countP (q p) := countP_pos_iff.mpr ⟨x, hx, hp⟩
  by_contra hout
  rw [h p, if_neg hout] at hpos
  omega

/-- Regions of a tiling that share a point are equal. -/
lemma Tiles.eq_of_mem {x y : α} (hx : x ∈ l) (hy : y ∈ l) (hxp : q p x = true)
    (hyp : q p y = true) : x = y := by
  have hlen : (l.filter (q p)).length ≤ 1 := by
    rw [← countP_eq_length_filter, h p]
    split_ifs <;> omega
  have hx' : x ∈ l.filter (q p) := mem_filter.mpr ⟨hx, hxp⟩
  have hy' : y ∈ l.filter (q p) := mem_filter.mpr ⟨hy, hyp⟩
  obtain ⟨z, hz⟩ := length_eq_one_iff.mp (le_antisymm hlen (length_pos_of_mem hx'))
  rw [hz, mem_singleton] at hx' hy'
  rw [hx', hy']

end

/-- Exchanging some regions for others with the same points. -/
lemma Tiles.exchange {pre mid post : List α} (mid' : List α)
    (h : Tiles q inside (pre ++ (mid ++ post)))
    (hmid : ∀ p, mid.countP (q p) = mid'.countP (q p)) :
    Tiles q inside (pre ++ (mid' ++ post)) := by
  intro p
  have hp := h p
  rw [countP_append, countP_append] at hp ⊢
  rw [← hmid p, hp]

end Tiling

end Kevlar.DisjointRegions
