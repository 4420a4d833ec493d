import Mathlib.Tactic

/-!
# Agents with stacks of instructions

Agents share one state. Each of them has a stack of instructions and executes the
top one in an atomic step, which may replace it by further instructions; an agent
with an empty stack makes the next call. Loops are instructions that push themselves
again, so that programs need not end. What an instruction leaves open is given by a
choice, so that a step is a function and a run can be replayed.

Runs are restricted by a condition on their moves. `Machine.Runs.invariant` reduces
an invariant of all such runs to calls, single instructions and steps of the rest of
the world.
-/
namespace Concurrent
open Function Option

/-- Calls `C` of agents `A` are lists of instructions `I`, executed on states `S` with
choices `X`; `E` are the steps of the rest of the world. -/
structure Machine (S A C I X E : Type) where
  body : A → C → Option (List I)
  exec : S → A → I → X → Option (S × List I)
  world : S → E → Option S

structure Config (S A I : Type) where
  shared : S
  stack : A → List I

inductive Move (A C X E : Type)
  | call (a : A) (c : C)
  | act (a : A) (x : X)
  | world (e : E)

namespace Machine

variable {S A C I X E : Type} [DecidableEq A] (m : Machine S A C I X E)

def step (cfg : Config S A I) : Move A C X E → Option (Config S A I)
  | .call a c =>
    match cfg.stack a, m.body a c with
    | [], some is => some { cfg with stack := update cfg.stack a is }
    | _, _ => none
  | .act a x =>
    match cfg.stack a with
    | [] => none
    | i :: rest =>
      match m.exec cfg.shared a i x with
      | some (s, more) => some ⟨s, update cfg.stack a (more ++ rest)⟩
      | none => none
  | .world e =>
    match m.world cfg.shared e with
    | some s => some { cfg with shared := s }
    | none => none

/-- A step that meets the condition. -/
def Next (ok : Config S A I → Move A C X E → Prop) (cfg cfg' : Config S A I) : Prop :=
  ∃ move, ok cfg move ∧ m.step cfg move = some cfg'

/-- The runs all of whose steps meet the condition. -/
abbrev Runs (ok : Config S A I → Move A C X E → Prop) :
    Config S A I → Config S A I → Prop :=
  Relation.ReflTransGen (m.Next ok)

/-- A run with the list of its moves. -/
inductive Path (ok : Config S A I → Move A C X E → Prop) (cfg : Config S A I) :
    List (Move A C X E) → Config S A I → Prop
  | nil : Path ok cfg [] cfg
  | snoc {moves : List (Move A C X E)} {move : Move A C X E} {cfg₁ cfg₂ : Config S A I} :
      Path ok cfg moves cfg₁ → ok cfg₁ move → m.step cfg₁ move = some cfg₂ →
      Path ok cfg (moves ++ [move]) cfg₂

variable {m} {ok : Config S A I → Move A C X E → Prop} {cfg cfg' : Config S A I}

variable {a : A} {x : X} {allow : Config S A I → Move A C X E → Bool} {moves : List (Move A C X E)}

lemma step_call {c : C} (h : m.step cfg (.call a c) = some cfg') :
    ∃ is, cfg.stack a = [] ∧ m.body a c = some is ∧
      cfg' = { cfg with stack := update cfg.stack a is } := by
  rw [step] at h
  split at h
  · rename_i is hstack hbody
    exact ⟨is, hstack, hbody, (some.inj h).symm⟩
  · cases h

lemma step_act (h : m.step cfg (.act a x) = some cfg') :
    ∃ i rest s more, cfg.stack a = i :: rest ∧ m.exec cfg.shared a i x = some (s, more) ∧
      cfg' = ⟨s, update cfg.stack a (more ++ rest)⟩ := by
  rw [step] at h
  split at h
  · cases h
  · rename_i i rest hstack
    split at h
    · rename_i s more hexec
      exact ⟨i, rest, s, more, hstack, hexec, (some.inj h).symm⟩
    · cases h

lemma step_eq_of_exec {i : I} {rest more : List I} {s : S} (hstack : cfg.stack a = i :: rest)
    (hexec : m.exec cfg.shared a i x = some (s, more)) :
    m.step cfg (.act a x) = some ⟨s, update cfg.stack a (more ++ rest)⟩ := by
  simp only [step, hstack, hexec]

lemma step_world {e : E} (h : m.step cfg (.world e) = some cfg') :
    ∃ s, m.world cfg.shared e = some s ∧ cfg' = { cfg with shared := s } := by
  rw [step] at h
  split at h
  · rename_i s hs
    exact ⟨s, hs, (some.inj h).symm⟩
  · cases h

lemma Next.mono {ok' : Config S A I → Move A C X E → Prop}
    (hok : ∀ cfg move, ok cfg move → ok' cfg move) (h : m.Next ok cfg cfg') :
    m.Next ok' cfg cfg' := by
  obtain ⟨move, hmove, hstep⟩ := h
  exact ⟨move, hok cfg move hmove, hstep⟩

lemma Runs.mono {ok' : Config S A I → Move A C X E → Prop}
    (hok : ∀ cfg move, ok cfg move → ok' cfg move) (h : m.Runs ok cfg cfg') :
    m.Runs ok' cfg cfg' :=
  Relation.ReflTransGen.mono (fun _ _ => Next.mono hok) _ _ h

lemma Path.cons {move : Move A C X E} {moves : List (Move A C X E)}
    {cfg₁ cfg₂ : Config S A I} (hok : ok cfg move) (hstep : m.step cfg move = some cfg₁)
    (h : m.Path ok cfg₁ moves cfg₂) : m.Path ok cfg (move :: moves) cfg₂ := by
  induction h with
  | nil => exact Path.nil.snoc hok hstep
  | snoc _ hok' hstep' ih => exact ih.snoc hok' hstep'

lemma Path.mono {ok' : Config S A I → Move A C X E → Prop} {moves : List (Move A C X E)}
    (hok : ∀ cfg move, ok cfg move → ok' cfg move) (h : m.Path ok cfg moves cfg') :
    m.Path ok' cfg moves cfg' := by
  induction h with
  | nil => exact .nil
  | snoc _ hmove hstep ih => exact ih.snoc (hok _ _ hmove) hstep

/-- An invariant is kept by every run if every step keeps it. -/
lemma Runs.invariant (inv : Config S A I → Prop)
    (hcall : ∀ cfg a c is, inv cfg → ok cfg (.call a c) → cfg.stack a = [] →
      m.body a c = some is → inv { cfg with stack := update cfg.stack a is })
    (hact : ∀ cfg a x i rest s more, inv cfg → ok cfg (.act a x) → cfg.stack a = i :: rest →
      m.exec cfg.shared a i x = some (s, more) →
      inv ⟨s, update cfg.stack a (more ++ rest)⟩)
    (hworld : ∀ cfg e s, inv cfg → ok cfg (.world e) → m.world cfg.shared e = some s →
      inv { cfg with shared := s })
    (h : m.Runs ok cfg cfg') (hinv : inv cfg) : inv cfg' := by
  induction h with
  | refl => exact hinv
  | tail _ hnext ih =>
    obtain ⟨move, hok, hstep⟩ := hnext
    cases move with
    | call a c =>
      obtain ⟨is, hstack, hbody, rfl⟩ := step_call hstep
      exact hcall _ a c is ih hok hstack hbody
    | act a x =>
      obtain ⟨i, rest, s, more, hstack, hexec, rfl⟩ := step_act hstep
      exact hact _ a x i rest s more ih hok hstack hexec
    | world e =>
      obtain ⟨s, hworld', rfl⟩ := step_world hstep
      exact hworld _ e s ih hok hworld'

/-- A property of single stacks is kept by every run if it holds of the bodies and every
instruction keeps it. -/
lemma Runs.stacks (P : A → List I → Prop) (hbody : ∀ a c is, m.body a c = some is → P a is)
    (hexec : ∀ s a x i rest s' more, P a (i :: rest) → m.exec s a i x = some (s', more) →
      P a (more ++ rest))
    (h : m.Runs ok cfg cfg') (hstacks : ∀ a, P a (cfg.stack a)) : ∀ a, P a (cfg'.stack a) := by
  refine Runs.invariant (fun cfg => ∀ a, P a (cfg.stack a)) ?_ ?_ ?_ h hstacks
  · intro cfg a c is hinv _ _ his
    exact (forall_update_iff _ P).mpr ⟨hbody a c is his, fun b _ => hinv b⟩
  · intro cfg a x i rest s more hinv _ hstack hmore
    have hold := hinv a
    rw [hstack] at hold
    exact (forall_update_iff _ P).mpr
      ⟨hexec _ a x i rest s more hold hmore, fun b _ => hinv b⟩
  · exact fun cfg e s hinv _ _ => hinv

variable (m) in
/-- The moves of a list, one after the other, each of which has to be allowed. -/
def play (allow : Config S A I → Move A C X E → Bool) :
    Config S A I → List (Move A C X E) → Option (Config S A I)
  | cfg, [] => some cfg
  | cfg, move :: moves =>
    if allow cfg move then
      match m.step cfg move with
      | some cfg' => play allow cfg' moves
      | none => none
    else none

lemma path_of_play (hallow : ∀ cfg move, allow cfg move = true → ok cfg move)
    (h : m.play allow cfg moves = some cfg') : m.Path ok cfg moves cfg' := by
  induction moves generalizing cfg with
  | nil =>
    obtain rfl : cfg = cfg' := some.inj h
    exact .nil
  | cons move moves ih =>
    rw [play] at h
    split at h
    · rename_i hmove
      split at h
      · rename_i u hu
        exact .cons (hallow cfg move hmove) hu (ih h)
      · cases h
    · cases h

lemma Path.runs (h : m.Path ok cfg moves cfg') :
    m.Runs ok cfg cfg' := by
  induction h with
  | nil => exact .refl
  | snoc _ hok hstep ih => exact ih.tail ⟨_, hok, hstep⟩

lemma runs_of_play (hallow : ∀ cfg move, allow cfg move = true → ok cfg move)
    (h : m.play allow cfg moves = some cfg') : m.Runs ok cfg cfg' :=
  (path_of_play hallow h).runs

/-- A run that can be replayed, with what holds at its end. -/
lemma exists_runs_of_play (allow : Config S A I → Move A C X E → Bool)
    (hallow : ∀ cfg move, allow cfg move = true → ok cfg move) (moves : List (Move A C X E))
    {P : Config S A I → Prop} [DecidablePred P]
    (h : (m.play allow cfg moves).any (fun cfg' => P cfg') = true) :
    ∃ cfg', m.Runs ok cfg cfg' ∧ P cfg' := by
  obtain ⟨cfg', hplay, hP⟩ := (any_eq_true _ _).mp h
  exact ⟨cfg', runs_of_play hallow hplay, of_decide_eq_true hP⟩

end Machine

end Concurrent
