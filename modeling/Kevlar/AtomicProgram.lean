import Mathlib.Tactic

/-!
# Programs of atomic operations and their interleavings

A program is a tree that performs one operation at a time and goes on with the
answer. What an operation does to the state is a relation, so that an operation
may be nondeterministic or may block. Programs are run alone (`Exec`, with the
precondition transformer `wp`) or side by side on one shared state
(`System.Step`, which interleaves single operations).

For the interleavings there is one proof rule. Each thread carries a token, what
it knows and owns, and an invariant ties the shared state to all tokens. `Safe`
says that a program can be executed with a token that changes along it while the
invariant is kept, and `Discipline.reaches` derives from that the invariant in
every reachable configuration.
-/
namespace Concurrent

open Function

/-- A program over operations `Op`, where the answer to `o` has type `Ans o`. -/
inductive Prog (Op : Type) (Ans : Op → Type) (α : Type)
  | ret (a : α)
  | act (o : Op) (next : Ans o → Prog Op Ans α)

namespace Prog

variable {Op : Type} {Ans : Op → Type} {α β : Type}

/-- Run the first program, then the one chosen by its result. -/
def bind : Prog Op Ans α → (α → Prog Op Ans β) → Prog Op Ans β
  | ret a, k => k a
  | act o next, k => act o fun x => (next x).bind k

instance : Monad (Prog Op Ans) where
  pure := ret
  bind := bind

end Prog

section Alone

variable {Op : Type} {Ans : Op → Type} {S α β : Type}
variable (sem : S → (o : Op) → Ans o → S → Prop)

/-- The runs of one program to its end. -/
inductive Exec : Prog Op Ans α → S → α → S → Prop
  | ret (a : α) (s : S) : Exec (.ret a) s a s
  | act {o : Op} {next : Ans o → Prog Op Ans α} {x : Ans o} {a : α} {s u s' : S} :
      sem s o x u → Exec (next x) u a s' → Exec (.act o next) s a s'

/-- The run of a program whose operations have one outcome, if none of them blocks. -/
def run (exec : S → (o : Op) → Option (Ans o × S)) : Prog Op Ans α → S → Option (α × S)
  | .ret a, s => some (a, s)
  | .act o next, s => (exec s o).bind fun r => run exec (next r.1) r.2

lemma run_act {exec : S → (o : Op) → Option (Ans o × S)} {o : Op}
    {next : Ans o → Prog Op Ans α} {x : Ans o} {s s' : S} (h : exec s o = some (x, s')) :
    run exec (.act o next) s = run exec (next x) s' := by
  rw [run, h, Option.bind_some]

/-- The weakest precondition: every run of the program from the state ends in `Q`. -/
def wp : Prog Op Ans α → (α → S → Prop) → S → Prop
  | .ret a, Q, s => Q a s
  | .act o next, Q, s => ∀ x s', sem s o x s' → wp (next x) Q s'

variable {sem}

variable {Q : α → S → Prop} {k : α → Prog Op Ans β} {I : S → Op → Prop}

lemma Exec.of_wp {p : Prog Op Ans α} {s s' : S} {a : α} (h : Exec sem p s a s')
    (hq : wp sem p Q s) : Q a s' := by
  induction h with
  | ret => exact hq
  | act hstep _ ih => exact ih (hq _ _ hstep)

lemma wp_bind {p : Prog Op Ans α} {Q : β → S → Prop} {s : S}
    (h : wp sem p (fun a u => wp sem (k a) Q u) s) : wp sem (p >>= k) Q s := by
  induction p generalizing s with
  | ret a => exact h
  | act o next ih =>
    intro x s' hs
    exact ih x (h x s' hs)

lemma wp_mono {p : Prog Op Ans α} {R : α → S → Prop} {s : S} (h : wp sem p Q s)
    (hqr : ∀ a u, Q a u → R a u) : wp sem p R s := by
  induction p generalizing s with
  | ret a => exact hqr a s h
  | act o next ih =>
    intro x s' hs
    exact ih x (h x s' hs)

/-- Every operation of a run of the program is performed in a state in which it may
be (`I`), and the run ends in `Q`. -/
def wpAlways (sem : S → (o : Op) → Ans o → S → Prop) (I : S → Op → Prop) :
    Prog Op Ans α → (α → S → Prop) → S → Prop
  | .ret a, Q, s => Q a s
  | .act o next, Q, s => I s o ∧ ∀ x s', sem s o x s' → wpAlways sem I (next x) Q s'

lemma wpAlways_bind {p : Prog Op Ans α} {Q : β → S → Prop} {s : S}
    (h : wpAlways sem I p (fun a u => wpAlways sem I (k a) Q u) s) :
    wpAlways sem I (p >>= k) Q s := by
  induction p generalizing s with
  | ret a => exact h
  | act o next ih => exact ⟨h.1, fun x s' hs => ih x (h.2 x s' hs)⟩

/-- Calls made one after the other: the states reached from `start`, each with the
rest of the call that is being executed. -/
inductive History (sem : S → (o : Op) → Ans o → S → Prop) (calls : Prog Op Ans α → Prop)
    (start : S → Prop) : S → Option (Prog Op Ans α) → Prop
  | start {s} : start s → History sem calls start s none
  | call {s p} : History sem calls start s none → calls p → History sem calls start s (some p)
  | step {s s' o next x} : History sem calls start s (some (.act o next)) → sem s o x s' →
      History sem calls start s' (some (next x))
  | done {s a} : History sem calls start s (some (.ret a)) → History sem calls start s none

/-- An invariant of calls: it holds between them, and what remains of a call leads
back to it. -/
lemma History.always {calls : Prog Op Ans α → Prop} {start inv : S → Prop}
    (hstart : ∀ s, start s → inv s)
    (hcall : ∀ p s, calls p → inv s → wpAlways sem I p (fun _ u => inv u) s) {s : S}
    {rest : Option (Prog Op Ans α)} (h : History sem calls start s rest) :
    match rest with
    | none => inv s
    | some p => wpAlways sem I p (fun _ u => inv u) s := by
  induction h with
  | start hs => exact hstart _ hs
  | call _ hp ih => exact hcall _ _ hp ih
  | step _ hsem ih => exact ih.2 _ _ hsem
  | done _ ih => exact ih

end Alone

/-- Threads that each run a program on a shared state. A thread has a context
fixed when it starts; steps of the rest of the world are given by `other`. -/
structure System (S C Op : Type) (Ans : Op → Type) (α : Type) where
  sem : ℕ → C → S → (o : Op) → Ans o → S → Prop
  start : C → Prog Op Ans α
  other : S → S → Prop

variable {S C Op : Type} {Ans : Op → Type} {α β γ : Type}

/-- The running threads, each with its context and the rest of its program. -/
abbrev Pool (C Op : Type) (Ans : Op → Type) (α : Type) : Type :=
  ℕ → Option (C × Prog Op Ans α)

namespace System

/-- One step: a thread starts, performs one operation or ends, or the rest of the
world moves. -/
inductive Step (sys : System S C Op Ans α) :
    S × Pool C Op Ans α → S × Pool C Op Ans α → Prop
  | spawn {s pool} (t : ℕ) (c : C) : pool t = none →
      Step sys (s, pool) (s, update pool t (some (c, sys.start c)))
  | act {s s' pool} (t : ℕ) {c : C} {o : Op} {next : Ans o → Prog Op Ans α} (x : Ans o) :
      pool t = some (c, .act o next) → sys.sem t c s o x s' →
      Step sys (s, pool) (s', update pool t (some (c, next x)))
  | exit {s pool} (t : ℕ) {c : C} {a : α} : pool t = some (c, .ret a) →
      Step sys (s, pool) (s, update pool t none)
  | other {s s' pool} : sys.other s s' → Step sys (s, pool) (s', pool)

/-- Reachability from a state in which no thread runs. -/
def Reaches (sys : System S C Op Ans α) (s₀ : S) (s : S) (pool : Pool C Op Ans α) : Prop :=
  Relation.ReflTransGen sys.Step (s₀, fun _ => none) (s, pool)

/-- The runs in which every operation and every step of the rest of the world
meets a condition. -/
def restrict (sys : System S C Op Ans α) (guard : ℕ → C → S → (o : Op) → Ans o → Prop)
    (guardOther : S → S → Prop) : System S C Op Ans α where
  sem t c s o x s' := sys.sem t c s o x s' ∧ guard t c s o x
  start := sys.start
  other s s' := sys.other s s' ∧ guardOther s s'

variable {sys : System S C Op Ans α} {guard : ℕ → C → S → (o : Op) → Ans o → Prop}
  {guardOther : S → S → Prop}

lemma Step.of_restrict {cfg cfg' : S × Pool C Op Ans α}
    (h : (sys.restrict guard guardOther).Step cfg cfg') :
    sys.Step cfg cfg' := by
  cases h with
  | spawn t c hpool => exact .spawn t c hpool
  | act t x hpool hsem => exact .act t x hpool hsem.1
  | exit t hpool => exact .exit t hpool
  | other hother => exact .other hother.1

lemma Reaches.of_restrict {s₀ s : S} {pool : Pool C Op Ans α}
    (h : (sys.restrict guard guardOther).Reaches s₀ s pool) :
    sys.Reaches s₀ s pool :=
  Relation.ReflTransGen.mono (fun _ _ => Step.of_restrict) _ _ h

/-- The threads perform operations in the given order of turns, each with the
outcome that `exec` gives it. -/
def play (exec : ℕ → S → (o : Op) → Option (Ans o × S)) :
    List ℕ → S × Pool C Op Ans α → Option (S × Pool C Op Ans α)
  | [], cfg => some cfg
  | t :: turns, (s, pool) =>
    match pool t with
    | some (c, .act o next) =>
      match exec t s o with
      | some (x, s') => play exec turns (s', update pool t (some (c, next x)))
      | none => none
    | _ => none

lemma play_steps {sys : System S C Op Ans α} {exec : ℕ → S → (o : Op) → Option (Ans o × S)}
    (hexec : ∀ t c s o x s', exec t s o = some (x, s') → sys.sem t c s o x s') {turns : List ℕ}
    {cfg cfg' : S × Pool C Op Ans α} (h : play exec turns cfg = some cfg') :
    Relation.ReflTransGen sys.Step cfg cfg' := by
  induction turns generalizing cfg with
  | nil =>
    obtain rfl : cfg = cfg' := Option.some.inj h
    exact .refl
  | cons t turns ih =>
    obtain ⟨s, pool⟩ := cfg
    rw [play] at h
    split at h
    · rename_i c o next hpool
      split at h
      · rename_i x s' hx
        exact .head (.act t x hpool (hexec t c s o x s' hx)) (ih h)
      · cases h
    · cases h

end System

section Safe

variable {Tok : Type}

/-- A thread with the token may perform the operation: whatever the state and the
answer, it can change its token such that the invariant and `K` hold. -/
def Lets (sys : System S C Op Ans α) (inv : S → (ℕ → Option (C × Tok)) → Prop) (c : C)
    (tok : Tok) (o : Op) (K : Ans o → Tok → Prop) : Prop :=
  ∀ t s s' toks x, inv s toks → toks t = some (c, tok) → sys.sem t c s o x s' →
    ∃ tok', inv s' (update toks t (some (c, tok'))) ∧ K x tok'

/-- Execution of a program under tokens: every operation is let, with a token under
which the rest is safe, and the program ends in `Q`. -/
def Safe (sys : System S C Op Ans α) (inv : S → (ℕ → Option (C × Tok)) → Prop) (c : C) :
    Prog Op Ans β → (β → Tok → Prop) → Tok → Prop
  | .ret b, Q, tok => Q b tok
  | .act o next, Q, tok => Lets sys inv c tok o fun x tok' => Safe sys inv c (next x) Q tok'

lemma Safe.bind {sys : System S C Op Ans α} {inv : S → (ℕ → Option (C × Tok)) → Prop} {c : C}
    {p : Prog Op Ans β} {k : β → Prog Op Ans γ} {Q : γ → Tok → Prop} {tok : Tok}
    (h : Safe sys inv c p (fun b tok' => Safe sys inv c (k b) Q tok') tok) :
    Safe sys inv c (p >>= k) Q tok := by
  induction p generalizing tok with
  | ret b => exact h
  | act o next ih =>
    intro t s s' toks x hinv ht hsem
    obtain ⟨tok', hinv', hnext⟩ := h t s s' toks x hinv ht hsem
    exact ⟨tok', hinv', ih x hnext⟩

/-- A token discipline for a system: an invariant of the shared state and all
tokens under which every program that a thread may start is safe. -/
structure Discipline (sys : System S C Op Ans α) (Tok : Type) where
  inv : S → (ℕ → Option (C × Tok)) → Prop
  init : Tok
  done : Tok → Prop
  inv_spawn : ∀ {s toks t} c, inv s toks → toks t = none →
    inv s (update toks t (some (c, init)))
  inv_exit : ∀ {s toks t c tok}, inv s toks → toks t = some (c, tok) → done tok →
    inv s (update toks t none)
  inv_other : ∀ {s s' toks}, inv s toks → sys.other s s' → inv s' toks
  safe_start : ∀ c, Safe sys inv c (sys.start c) (fun _ tok => done tok) init

namespace Discipline

variable {sys : System S C Op Ans α}

/-- Every running thread has a token under which the rest of its program is safe. -/
def Agree (d : Discipline sys Tok) (pool : Pool C Op Ans α) (toks : ℕ → Option (C × Tok)) :
    Prop :=
  (∀ t, pool t = none ↔ toks t = none) ∧
  ∀ t c p, pool t = some (c, p) →
    ∃ tok, toks t = some (c, tok) ∧ Safe sys d.inv c p (fun _ tok' => d.done tok') tok

variable {d : Discipline sys Tok} {pool : Pool C Op Ans α} {toks : ℕ → Option (C × Tok)}

lemma Agree.set (h : d.Agree pool toks) (t : ℕ) {x : Option (C × Prog Op Ans α)}
    {y : Option (C × Tok)} (hnone : x = none ↔ y = none) (hsafe : ∀ c p, x = some (c, p) →
      ∃ tok, y = some (c, tok) ∧ Safe sys d.inv c p (fun _ tok' => d.done tok') tok) :
    d.Agree (update pool t x) (update toks t y) := by
  refine ⟨fun u => ?_, fun u => ?_⟩
  · by_cases hut : u = t
    · simpa [hut] using hnone
    · simpa [update_of_ne hut] using h.1 u
  · by_cases hut : u = t
    · simpa [hut] using hsafe
    · simpa only [update_of_ne hut] using h.2 u

/-- The rule: the invariant holds in every reachable configuration, with a token
for each thread under which the rest of its program is safe. -/
lemma reaches (d : Discipline sys Tok) {s₀ s : S} (h₀ : d.inv s₀ fun _ => none)
    (h : sys.Reaches s₀ s pool) :
    ∃ toks, d.inv s toks ∧ d.Agree pool toks := by
  have key : ∀ cfg, Relation.ReflTransGen sys.Step (s₀, fun _ => none) cfg →
      ∃ toks, d.inv cfg.1 toks ∧ d.Agree cfg.2 toks := by
    intro cfg hcfg
    induction hcfg with
    | refl => exact ⟨fun _ => none, h₀, by simp [Agree]⟩
    | tail _ hstep ih =>
      obtain ⟨toks, hinv, hagree⟩ := ih
      cases hstep with
      | spawn t c hpool =>
        exact ⟨_, d.inv_spawn c hinv ((hagree.1 t).1 hpool),
          hagree.set t (by simp) (by rintro _ _ ⟨⟩; exact ⟨_, rfl, d.safe_start c⟩)⟩
      | act t x hpool hsem =>
        obtain ⟨tok, htok, hsafe⟩ := hagree.2 _ _ _ hpool
        obtain ⟨tok', hinv', hsafe'⟩ := hsafe t _ _ toks x hinv htok hsem
        exact ⟨_, hinv', hagree.set t (by simp) (by rintro _ _ ⟨⟩; exact ⟨_, rfl, hsafe'⟩)⟩
      | exit t hpool =>
        obtain ⟨tok, htok, hdone⟩ := hagree.2 _ _ _ hpool
        exact ⟨_, d.inv_exit hinv htok hdone, hagree.set t (by simp) (by simp)⟩
      | other hother => exact ⟨toks, d.inv_other hinv hother, hagree⟩
  exact key _ h

end Discipline

end Safe

end Concurrent
