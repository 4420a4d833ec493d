import Mathlib.Tactic

/-!
# Moving a subtree

A relation `r` from parents to children, and the relation `r'` after one node `q` has been
hung below the node `p`. Cycles appear exactly if `p` was below `q`; otherwise everything
that could be reached from a node above `p` still can.
-/
namespace Regraft

open Relation (ReflTransGen TransGen)

variable {α : Type*} {r r' : α → α → Prop} {p q : α}

/-- No node is below itself. -/
def Acyclic (r : α → α → Prop) : Prop := ∀ a, ¬ TransGen r a a

/-- A path after the move is a path from before, or it goes over the new edge. -/
lemma transGen_or (h : ∀ a b, r' a b → r a b ∨ a = p ∧ b = q) {a b : α}
    (hab : TransGen r' a b) : TransGen r a b ∨ ReflTransGen r a p ∧ ReflTransGen r q b := by
  induction hab with
  | single hedge =>
    rcases h _ _ hedge with hold | ⟨rfl, rfl⟩
    · exact .inl (.single hold)
    · exact .inr ⟨.refl, .refl⟩
  | tail _ hedge ih =>
    rcases h _ _ hedge with hold | ⟨rfl, rfl⟩
    · rcases ih with hpath | ⟨hup, hdown⟩
      · exact .inl (hpath.tail hold)
      · exact .inr ⟨hup, hdown.tail hold⟩
    · rcases ih with hpath | ⟨hup, _⟩
      · exact .inr ⟨hpath.to_reflTransGen, .refl⟩
      · exact .inr ⟨hup, .refl⟩

/-- Hanging a node below one that is not below it makes no cycle. -/
lemma Acyclic.regraft (hr : Acyclic r) (h : ∀ a b, r' a b → r a b ∨ a = p ∧ b = q)
    (hqp : ¬ ReflTransGen r q p) : Acyclic r' := by
  intro a ha
  rcases transGen_or h ha with hcycle | ⟨hup, hdown⟩
  · exact hr a hcycle
  · exact hqp (hdown.trans hup)

/-- Heights that fall along every edge. -/
def Ranked (r : α → α → Prop) (f : α → ℕ) : Prop := ∀ a b, r a b → f b < f a

section

variable {f : α → ℕ} (hf : Ranked r f)
include hf

lemma Ranked.lt {a b : α} (h : TransGen r a b) : f b < f a := by
  induction h with
  | single hedge => exact hf _ _ hedge
  | tail _ hedge ih => exact (hf _ _ hedge).trans ih

lemma Ranked.acyclic : Acyclic r :=
  fun _ ha => lt_irrefl _ (hf.lt ha)

/-- Heights after a move: whatever is above the new parent is lifted above the node. -/
lemma Ranked.regraft (h : ∀ a b, r' a b → r a b ∨ a = p ∧ b = q) (hqp : ¬ ReflTransGen r q p) :
    ∃ f', Ranked r' f' := by
  classical
  refine ⟨fun a => if ReflTransGen r a p then f a + f q + 1 else f a, ?_⟩
  intro a b hab
  rcases h a b hab with hold | ⟨rfl, rfl⟩
  · have hlt := hf a b hold
    by_cases hb : ReflTransGen r b p
    · simp [hb, ReflTransGen.head hold hb, hlt]
    · by_cases ha : ReflTransGen r a p <;> simp [hb, ha] <;> omega
  · simp only [hqp, ReflTransGen.refl, if_true, if_false]
    omega

end

/-- Hanging a node below one of its own descendants makes a cycle. The edges that may go away
with the move are those to the node itself and some out of its new parent. -/
lemma transGen_self_of_reach (hr : Acyclic r)
    (hkeep : ∀ a b, r a b → b ≠ q → a ≠ p → r' a b) (hnew : r' p q)
    (hqp : ReflTransGen r q p) : TransGen r' q q := by
  have hpath : ∀ b, ReflTransGen r b p → ReflTransGen r q b → ReflTransGen r' b p := by
    intro b hbp
    induction hbp using ReflTransGen.head_induction_on with
    | refl => exact fun _ => .refl
    | head hedge hrest ih =>
      intro hqa
      rename_i a c
      by_cases hap : a = p
      · exact hap ▸ .refl
      · have hcq : c ≠ q := by
          intro hc
          rw [hc] at hedge
          exact hr q (TransGen.tail' hqa hedge)
        exact .head (hkeep a c hedge hcq hap) (ih (hqa.tail hedge))
  exact TransGen.tail' (hpath q hqp .refl) hnew

/-- What could be reached from `root` still can after a move to a place that could be reached
itself, except the childless nodes that the move has put out. -/
lemma reach_of_regraft {root : α} (out : α → Prop)
    (hkeep : ∀ a b, r a b → b ≠ q → ¬ out b → r' a b) (hnew : r' p q)
    (hleaf : ∀ a b, out a → ¬ r a b) (hp : ¬ out p) (hrp : ReflTransGen r root p)
    (hqp : ¬ ReflTransGen r q p) {b : α} (hb : ReflTransGen r root b) (hout : ¬ out b) :
    ReflTransGen r' root b := by
  -- the path to the new parent does not go through the node that moves
  have habove : ∀ c, ReflTransGen r root c → ReflTransGen r c p → ReflTransGen r' root c := by
    intro c hc
    induction hc with
    | refl => exact fun _ => .refl
    | tail _ hedge ih =>
      intro hcp
      have hq : _ ≠ q := fun hc => hqp (hc ▸ hcp)
      refine (ih (.head hedge hcp)).tail (hkeep _ _ hedge hq ?_)
      intro ho
      rcases ReflTransGen.cases_head hcp with heq | ⟨d, hd, _⟩
      · exact hp (heq ▸ ho)
      · exact hleaf _ d ho hd
  induction hb with
  | refl => exact .refl
  | @tail a c _ hedge ih =>
    have ha := ih fun ho => hleaf a c ho hedge
    by_cases hc : c = q
    · exact hc ▸ (habove p hrp .refl).tail hnew
    · exact ha.tail (hkeep a c hedge hc hout)

end Regraft
