import Mathlib.Tactic

/-!
# Radix trees laid out in memory

A node is a block of `b` words and a word may refer to a child node. The node
`q` of depth `d` is reached from the root along the base-`b` digits of `q`.
What a word at depth `d` refers to is a parameter, and it may depend on the
position of the word in the tree, so that part of the root can be left out.
-/
namespace Radix

variable {F E : Type*} (b : ℕ)

/-- The node at depth `d` with path number `q`, if the walk gets that far. -/
def node (child : ℕ → ℕ → E → Option F) (m : F → ℕ → E) (root : F) : ℕ → ℕ → Option F
  | 0, q => if q = 0 then some root else none
  | d + 1, q => (node child m root d (q / b)).bind fun t => child d q (m t (q % b))

/-- No block serves as two nodes. -/
def Distinct (child : ℕ → ℕ → E → Option F) (m : F → ℕ → E) (root : F) : Prop :=
  ∀ d q d' q' t, node b child m root d q = some t → node b child m root d' q' = some t →
    d = d' ∧ q = q'

def IsNode (child : ℕ → ℕ → E → Option F) (m : F → ℕ → E) (root f : F) : Prop :=
  ∃ d q, node b child m root d q = some f

variable {b} {child child' : ℕ → ℕ → E → Option F} {m m' : F → ℕ → E} {root : F}

variable {d q d₀ q₀ : ℕ} {t c : F}

lemma node_succ (h : node b child m root d (q / b) = some t) :
    node b child m root (d + 1) q = child d q (m t (q % b)) := by
  simp [node, h]

lemma node_succ_none (h : node b child m root d (q / b) = none) :
    node b child m root (d + 1) q = none := by
  simp [node, h]

lemma exists_parent (h : node b child m root (d + 1) q = some t) :
    ∃ s, node b child m root d (q / b) = some s ∧ child d q (m s (q % b)) = some t :=
  Option.bind_eq_some_iff.mp h

/-- Two memories whose nodes refer to the same children have the same nodes. -/
lemma node_congr (h : ∀ d q t, node b child m root d (q / b) = some t →
      child' d q (m' t (q % b)) = child d q (m t (q % b))) :
    node b child' m' root = node b child m root := by
  funext d
  induction d with
  | zero => rfl
  | succ d ih =>
    funext q
    cases ht : node b child m root d (q / b) with
    | none => rw [node_succ_none ht, node_succ_none (by rw [ih]; exact ht)]
    | some t => rw [node_succ ht, node_succ (by rw [ih]; exact ht), h d q t ht]

lemma Distinct.congr (hdist : Distinct b child m root)
    (h : node b child' m' root = node b child m root) : Distinct b child' m' root := by
  unfold Distinct
  rw [h]
  exact hdist

lemma isNode_congr (h : node b child' m' root = node b child m root) (f : F) :
    IsNode b child' m' root f ↔ IsNode b child m root f := by
  unfold IsNode
  rw [h]

/-- Filling a word that referred to nothing with a fresh childless block adds
exactly that block to the tree. -/
lemma node_link {t₀ : F} (hdist : Distinct b child m root)
    (ht₀ : node b child m root d₀ (q₀ / b) = some t₀) (hfresh : ¬IsNode b child m root c)
    (hold : child d₀ q₀ (m t₀ (q₀ % b)) = none) (hnew : child d₀ q₀ (m' t₀ (q₀ % b)) = some c)
    (hleaf : ∀ q i, child (d₀ + 1) q (m' c i) = none)
    (hother : ∀ t i, t ≠ c → ¬(t = t₀ ∧ i = q₀ % b) → m' t i = m t i) (d q : ℕ) :
    node b child m' root d q =
      if d = d₀ + 1 ∧ q = q₀ then some c else node b child m root d q := by
  induction d generalizing q with
  | zero => rw [if_neg (by omega)]; rfl
  | succ d ih =>
    by_cases hbelow : d = d₀ + 1 ∧ q / b = q₀
    · have hnode : node b child m' root d (q / b) = some c := by rw [ih, if_pos hbelow]
      have hgone : node b child m root d (q / b) = none := by
        rw [hbelow.1, hbelow.2, node_succ ht₀, hold]
      rw [if_neg (by omega), node_succ_none hgone, node_succ hnode, hbelow.1, hleaf]
    · have hih : node b child m' root d (q / b) = node b child m root d (q / b) := by
        rw [ih, if_neg hbelow]
      cases ht : node b child m root d (q / b) with
      | none =>
        have hq : ¬(d + 1 = d₀ + 1 ∧ q = q₀) := by
          rintro ⟨hd, rfl⟩
          rw [add_right_cancel hd, ht₀] at ht
          cases ht
        rw [if_neg hq, node_succ_none ht, node_succ_none (hih.trans ht)]
      | some t =>
        have htc : t ≠ c := fun h => hfresh ⟨d, q / b, h ▸ ht⟩
        rw [node_succ (hih.trans ht), node_succ ht]
        by_cases hslot : t = t₀ ∧ q % b = q₀ % b
        · have hsame := hdist d (q / b) d₀ (q₀ / b) t₀ (hslot.1 ▸ ht) ht₀
          have hq : q = q₀ := by
            rw [← Nat.div_add_mod q b, ← Nat.div_add_mod q₀ b, hsame.2, hslot.2]
          rw [if_pos ⟨by omega, hq⟩, hsame.1, hq, hslot.1, hnew]
        · have hq : ¬(d + 1 = d₀ + 1 ∧ q = q₀) := by
            rintro ⟨hd, rfl⟩
            rw [add_right_cancel hd, ht₀] at ht
            exact hslot ⟨(Option.some.inj ht).symm, rfl⟩
          rw [if_neg hq, hother t _ htc hslot]

/-- Adding one block at an unused position keeps the blocks distinct. -/
lemma Distinct.link (hdist : Distinct b child m root) (hfresh : ¬IsNode b child m root c)
    (hnode : ∀ d q, node b child m' root d q =
      if d = d₀ ∧ q = q₀ then some c else node b child m root d q) :
    Distinct b child m' root := by
  intro d q d' q' t h h'
  rw [hnode] at h h'
  split_ifs at h h' with hq hq' hq'
  · exact ⟨hq.1.trans hq'.1.symm, hq.2.trans hq'.2.symm⟩
  · exact absurd ⟨d', q', Option.some.inj h ▸ h'⟩ hfresh
  · exact absurd ⟨d, q, Option.some.inj h' ▸ h⟩ hfresh
  · exact hdist d q d' q' t h h'

/-! ## Walks -/

/-- A depth-first walk over tables of level `L` and below: what is noted on entering a table, on
leaving it, and of the words that lead to no table. -/
def walk {A : Type*} (b : ℕ) (child : ℕ → ℕ → E → Option F) (enter leave : F → List A)
    (g : ℕ → ℕ → E → List A) (m : F → ℕ → E) : ℕ → F → List A
  | 0, _ => []
  | L + 1, t => enter t ++ (List.range b).flatMap (fun i =>
      (child (L + 1) i (m t i)).elim (g (L + 1) i (m t i))
        (walk b child enter leave g m L)) ++ leave t

/-- The tables, each before those under it. -/
def nodes (b : ℕ) (child : ℕ → ℕ → E → Option F) (m : F → ℕ → E) : ℕ → F → List F :=
  walk b child (fun t => [t]) (fun _ => []) (fun _ _ _ => []) m

end Radix
