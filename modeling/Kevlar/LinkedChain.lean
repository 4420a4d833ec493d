import Mathlib.Data.List.Basic

/-!
# Singly linked lists threaded through a memory

`next` gives the link stored at a node and `null` ends a list. A chain is the
list of nodes met from a head. The lemmas take the memory after a store as
another link function that agrees with the first one where nothing was stored.
-/
namespace Kevlar.LinkedChain

variable {α : Type*} {null : α} {next next' : α → α}

/-- Following `next` from `head` visits exactly `xs` and then reaches `null`. -/
def Chain (null : α) (next : α → α) : α → List α → Prop
  | head, [] => head = null
  | head, x :: xs => head = x ∧ x ≠ null ∧ Chain null next (next x) xs

variable {head : α} {xs : List α}

lemma Chain.congr (h : Chain null next head xs) (hnext : ∀ x ∈ xs, next' x = next x) :
    Chain null next' head xs := by
  induction xs generalizing head with
  | nil => exact h
  | cons x xs ih =>
    obtain ⟨hhead, hx, htail⟩ := h
    refine ⟨hhead, hx, ?_⟩
    rw [hnext x (by simp)]
    exact ih htail fun y hy => hnext y (by simp [hy])

lemma Chain.push {x : α} (h : Chain null next head xs) (hx : x ≠ null) (hlink : next' x = head)
    (hnext : ∀ y ∈ xs, next' y = next y) :
    Chain null next' x (x :: xs) := by
  refine ⟨rfl, hx, ?_⟩
  rw [hlink]
  exact h.congr hnext

/-- A head that is not `null` is the first node, and its link heads the rest. -/
lemma Chain.pop (h : Chain null next head xs) (hne : head ≠ null) :
    ∃ tail, xs = head :: tail ∧ Chain null next (next head) tail := by
  cases xs with
  | nil => exact absurd h hne
  | cons x tail =>
    obtain ⟨rfl, -, htail⟩ := h
    exact ⟨tail, rfl, htail⟩

lemma Chain.eq_nil (h : Chain null next null xs) : xs = [] := by
  cases xs with
  | nil => rfl
  | cons x xs => exact absurd h.1.symm h.2.1

/-- Bypassing the node behind `x`. -/
lemma Chain.unlink {x y : α} {pre post : List α}
    (h : Chain null next head (pre ++ x :: y :: post)) (hlink : next' x = next y)
    (hpre : ∀ z ∈ pre, next' z = next z) (hpost : ∀ z ∈ post, next' z = next z) :
    Chain null next' head (pre ++ x :: post) := by
  induction pre generalizing head with
  | nil =>
    obtain ⟨hhead, hx, hnext, hy, htail⟩ := h
    refine ⟨hhead, hx, ?_⟩
    rw [hlink]
    exact htail.congr hpost
  | cons z pre ih =>
    obtain ⟨hhead, hz, htail⟩ := h
    refine ⟨hhead, hz, ?_⟩
    rw [hpre z (by simp)]
    exact ih htail fun w hw => hpre w (by simp [hw])

/-- The nodes met from a head, at most `fuel` of them. -/
def nodes [DecidableEq α] (null : α) (next : α → α) : ℕ → α → List α
  | 0, _ => []
  | fuel + 1, head => if head = null then [] else head :: nodes null next fuel (next head)

lemma Chain.nodes_eq [DecidableEq α] (h : Chain null next head xs) {fuel : ℕ}
    (hfuel : xs.length ≤ fuel) : nodes null next fuel head = xs := by
  induction xs generalizing head fuel with
  | nil =>
    obtain rfl : head = null := h
    cases fuel with
    | zero => rfl
    | succ fuel => simp [nodes]
  | cons x xs ih =>
    obtain ⟨rfl, hx, htail⟩ := h
    cases fuel with
    | zero => simp at hfuel
    | succ fuel => rw [nodes, if_neg hx, ih htail (by simpa using hfuel)]

end Kevlar.LinkedChain
