import Mathlib.Tactic

/-!
# Programs that change a state and may fail

A failure keeps the changes made before it, as an early return with an error does.
`Returns` and `Fails` say how a run ends; the rules take a run apart along the
program.
-/

/-- A program over states `S` that returns a value or fails with an error. -/
def Fallible (E S α : Type) : Type := S → Except E α × S

namespace Fallible

variable {E S α β : Type}

def pure (a : α) : Fallible E S α := fun s => (.ok a, s)

def bind (x : Fallible E S α) (f : α → Fallible E S β) : Fallible E S β := fun s =>
  match x s with
  | (.ok a, u) => f a u
  | (.error e, u) => (.error e, u)

instance : Monad (Fallible E S) where
  pure := pure
  bind := bind

def throw (e : E) : Fallible E S α := fun s => (.error e, s)

def get : Fallible E S S := fun s => (.ok s, s)

def modify (f : S → S) : Fallible E S Unit := fun s => (.ok (), f s)

/-- The run from `s` returns `a` in `s'`. -/
def Returns (x : Fallible E S α) (s : S) (a : α) (s' : S) : Prop := x s = (.ok a, s')

/-- The run from `s` fails with `e` in `s'`. -/
def Fails (x : Fallible E S α) (s : S) (e : E) (s' : S) : Prop := x s = (.error e, s')

variable {a : α} {s s' : S} {x : Fallible E S α} {f : α → Fallible E S β} {b : β} {e : E}

@[simp] lemma returns_pure {b : α} :
    (Pure.pure a : Fallible E S α).Returns s b s' ↔ b = a ∧ s' = s := by
  constructor
  · intro h
    cases h
    exact ⟨rfl, rfl⟩
  · rintro ⟨rfl, rfl⟩
    rfl

lemma returns_bind :
    (x >>= f).Returns s b s' ↔ ∃ a u, x.Returns s a u ∧ (f a).Returns u b s' := by
  change bind x f s = _ ↔ _
  unfold bind Returns
  constructor
  · intro h
    match hx : x s with
    | (.ok a, u) =>
      rw [hx] at h
      exact ⟨a, u, rfl, h⟩
    | (.error e, u) =>
      rw [hx] at h
      cases h
  · rintro ⟨a, u, hx, hf⟩
    rw [hx]
    exact hf

@[simp] lemma returns_throw :
    (throw e : Fallible E S α).Returns s a s' ↔ False := by
  constructor
  · intro h
    cases h
  · exact False.elim

@[simp] lemma returns_modify {f : S → S} {u : Unit} :
    (modify f : Fallible E S Unit).Returns s u s' ↔ s' = f s := by
  constructor
  · intro h
    cases h
    rfl
  · rintro rfl
    rfl

@[simp] lemma returns_get_bind {f : S → Fallible E S β} :
    (get >>= f).Returns s b s' ↔ (f s).Returns s b s' := .rfl

@[simp] lemma returns_modify_bind {k : S → S} {f : Unit → Fallible E S β} :
    (modify k >>= f).Returns s b s' ↔ (f ()).Returns (k s) b s' := .rfl

/-- The state of a run whose value was evaluated. -/
lemma returns_snd (h : (x s).1 = .ok a) :
    x.Returns s a (x s).2 :=
  Prod.ext h rfl

@[simp] lemma fails_throw {e' : E} :
    (throw e : Fallible E S α).Fails s e' s' ↔ e' = e ∧ s' = s := by
  constructor
  · intro h
    cases h
    exact ⟨rfl, rfl⟩
  · rintro ⟨rfl, rfl⟩
    rfl

lemma fails_get_bind {f : S → Fallible E S β} :
    (get >>= f).Fails s e s' ↔ (f s).Fails s e s' := .rfl

lemma Returns.bind {u : S} (hx : x.Returns s a u) (hf : (f a).Returns u b s') :
    (x >>= f).Returns s b s' :=
  returns_bind.mpr ⟨a, u, hx, hf⟩

lemma Fails.bind (hx : x.Fails s e s') (f : α → Fallible E S β) : (x >>= f).Fails s e s' := by
  change Fallible.bind x f s = _
  rw [Fallible.bind, hx]

lemma Returns.bind_fails {u : S} (hx : x.Returns s a u) (hf : (f a).Fails u e s') :
    (x >>= f).Fails s e s' := by
  change Fallible.bind x f s = _
  rw [Fallible.bind, hx]
  exact hf

/-- Run a program for its effect on the state and drop its result or error. -/
def ignore (x : Fallible E S α) : Fallible E S Unit := fun s => (.ok (), (x s).2)

lemma Returns.ignore (hx : x.Returns s a s') :
    x.ignore.Returns s () s' := by
  rw [Returns, Fallible.ignore, hx]

/-! ## Both ends of a run -/

/-- The run from `s` returns with `Q` or fails with `R`. -/
def Ends (x : Fallible E S α) (s : S) (Q : α → S → Prop) (R : E → S → Prop) : Prop :=
  match x s with
  | (.ok a, s') => Q a s'
  | (.error e, s') => R e s'

section Ends

variable {x : Fallible E S α} {s s' : S} {Q Q' : α → S → Prop} {R R' : E → S → Prop}

lemma ends_of (hQ : ∀ a s', x.Returns s a s' → Q a s') (hR : ∀ e s', x.Fails s e s' → R e s') :
    x.Ends s Q R := by
  unfold Ends
  match hx : x s with
  | (.ok a, s') => exact hQ a s' hx
  | (.error e, s') => exact hR e s' hx

instance (x : Fallible E S α) (s : S) (Q : α → S → Prop) (R : E → S → Prop)
    [∀ a s', Decidable (Q a s')] [∀ e s', Decidable (R e s')] : Decidable (x.Ends s Q R) :=
  match h : x s with
  | (.ok a, s') => decidable_of_iff (Q a s') (by rw [Ends, h])
  | (.error e, s') => decidable_of_iff (R e s') (by rw [Ends, h])

variable {a : α} {e : E} {f : α → Fallible E S β} {P : β → S → Prop}

lemma Ends.returns (h : x.Ends s Q R) (hx : x.Returns s a s') : Q a s' := by
  unfold Ends at h
  rw [hx] at h
  exact h

lemma Ends.fails (h : x.Ends s Q R) (hx : x.Fails s e s') : R e s' := by
  unfold Ends at h
  rw [hx] at h
  exact h

lemma Returns.ends_iff (hx : x.Returns s a s') : x.Ends s Q R ↔ Q a s' := by
  rw [Ends, hx]

lemma Fails.ends_iff (hx : x.Fails s e s') : x.Ends s Q R ↔ R e s' := by
  rw [Ends, hx]

lemma Ends.mono (h : x.Ends s Q R) (hQ : ∀ a s', Q a s' → Q' a s')
    (hR : ∀ e s', R e s' → R' e s') : x.Ends s Q' R' :=
  ends_of (fun a s' hx => hQ a s' (h.returns hx)) fun e s' hx => hR e s' (h.fails hx)

lemma ends_pure (h : Q a s) : (Pure.pure a : Fallible E S α).Ends s Q R := h

lemma ends_throw (h : R e s) : (throw e : Fallible E S α).Ends s Q R := h

lemma Ends.bind (h : x.Ends s Q R) (hf : ∀ a u, Q a u → (f a).Ends u P R')
    (hR : ∀ e u, R e u → R' e u) :
    (x >>= f).Ends s P R' := by
  change Fallible.Ends (Fallible.bind x f) s P R'
  unfold Ends Fallible.bind
  match hx : x s with
  | (.ok a, u) => exact hf a u (h.returns hx)
  | (.error e, u) => exact hR e u (h.fails hx)

lemma ends_get_bind {f : S → Fallible E S β} :
    (get >>= f).Ends s P R ↔ (f s).Ends s P R := .rfl

lemma Returns.bind_ends_iff (hx : x.Returns s a s') :
    (x >>= f).Ends s P R ↔ (f a).Ends s' P R := by
  change Fallible.Ends (Fallible.bind x f) s P R ↔ _
  rw [Ends, Fallible.bind, hx]
  exact .rfl

lemma ends_pure_bind (h : (f a).Ends s P R) :
    ((Pure.pure a : Fallible E S α) >>= f).Ends s P R := h

end Ends

/-! ## Parts of the state that a program leaves alone -/

/-- Whatever the run does, `f` has the value of the state that it started in. -/
def Preserves {γ : Type} (f : S → γ) (x : Fallible E S α) : Prop := ∀ s, f (x s).2 = f s

section Preserves

variable {γ : Type} {f : S → γ} {x : Fallible E S α}

lemma preserves_pure (a : α) : Preserves f (Pure.pure a : Fallible E S α) := fun _ => rfl

lemma preserves_throw (e : E) : Preserves f (throw e : Fallible E S α) := fun _ => rfl

lemma preserves_get : Preserves f (get : Fallible E S S) := fun _ => rfl

lemma preserves_modify {k : S → S} (h : ∀ s, f (k s) = f s) :
    Preserves f (modify k : Fallible E S Unit) := h

lemma Preserves.bind {g : α → Fallible E S β} (hx : Preserves f x)
    (hg : ∀ a, Preserves f (g a)) : Preserves f (x >>= g) := by
  intro s
  change f (Fallible.bind x g s).2 = f s
  unfold Fallible.bind
  match h : x s with
  | (.ok a, u) =>
    have hu := hx s
    rw [h] at hu
    exact (hg a u).trans hu
  | (.error e, u) =>
    have hu := hx s
    rw [h] at hu
    exact hu

lemma preserves_ite {c : Prop} [Decidable c] {y : Fallible E S α} (hx : Preserves f x)
    (hy : Preserves f y) : Preserves f (if c then x else y) := by
  split_ifs
  · exact hx
  · exact hy

end Preserves

end Fallible
