import Mathlib.Data.Nat.Notation

/-!
# Runs of a partial step function

The states that a step function reaches, and the rule that carries an invariant
from the first state over every run.
-/
namespace Kevlar

/-- The states reached from `s₀` by steps that all meet `ok`. -/
inductive Reached {S E : Type} (step : S → E → Option S) (ok : S → E → Prop) (s₀ : S) : S → Prop
  | start : Reached step ok s₀ s₀
  | next {s s' : S} {e : E} (h : Reached step ok s₀ s) (hok : ok s e)
      (hstep : step s e = some s') : Reached step ok s₀ s'

namespace Reached

variable {S E : Type} {step : S → E → Option S} {ok : S → E → Prop} {s₀ s s' : S}

lemma invariant {P : S → Prop} (h : Reached step ok s₀ s) (hstart : P s₀)
    (hnext : ∀ s e s', P s → ok s e → step s e = some s' → P s') : P s := by
  induction h with
  | start => exact hstart
  | next _ hok hstep ih => exact hnext _ _ _ ih hok hstep

lemma play (h : Reached step (fun _ _ => True) s₀ s) (events : List E)
    (hrun : events.foldlM step s = some s') : Reached step (fun _ _ => True) s₀ s' := by
  induction events generalizing s with
  | nil =>
    cases hrun
    exact h
  | cons e rest ih =>
    obtain ⟨u, hu, hrest⟩ := Option.bind_eq_some_iff.mp hrun
    exact ih (h.next trivial hu) hrest

end Reached

end Kevlar
