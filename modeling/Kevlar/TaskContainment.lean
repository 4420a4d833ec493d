import Mathlib.Tactic

/-!
# The cgroup and the namespaces of a new task

A task holds its cgroup and its namespaces as options; the accessors answer the root ones for
`None`. `fork`, `vfork` and `spawn` write what the accessors of the parent answer into the
child. `new_thread`, which `clone` takes for every call with `CLONE_VM`, leaves both `None`,
and so its child is where the machine booted, wherever the caller was.
-/
namespace Kevlar.Containment
open Function Option

/-- The root cgroup, the root namespaces and `clone_with_flags`, which makes new namespaces. -/
structure Env (C N : Type*) where
  cgroupRoot : C
  rootNamespaceSet : N
  cloneWithFlags : N → BitVec 64 → Option N

/-- The fields of a task that say where it is, and the task that created it. -/
structure Process (C N : Type*) where
  cgroup : Option C
  namespaces : Option N
  creator : Option ℕ

variable {C N : Type*}

namespace Process

/-- What the accessors `cgroup()` and `namespaces()` answer. -/
def place (env : Env C N) (p : Process C N) : C × N :=
  (p.cgroup.getD env.cgroupRoot, p.namespaces.getD env.rootNamespaceSet)

/-- The child of the task `id` that starts in the place of its parent. -/
def inheriting (env : Env C N) (id : ℕ) (parent : Process C N) : Process C N :=
  ⟨some (parent.place env).1, some (parent.place env).2, some id⟩

def forkImpl (env : Env C N) : ℕ → Process C N → Process C N := inheriting env

def vfork (env : Env C N) : ℕ → Process C N → Process C N := inheriting env

def spawn (env : Env C N) : ℕ → Process C N → Process C N := inheriting env

def newThread (id : ℕ) : Process C N := ⟨none, none, some id⟩

end Process

def cloneVm : BitVec 64 := 0x00000100

def cloneVfork : BitVec 64 := 0x00004000

def cloneNewnet : BitVec 64 := 0x40000000

/-- `CLONE_NEWUTS | CLONE_NEWPID | CLONE_NEWNS | CLONE_NEWNET`. -/
def cloneNew : BitVec 64 := 0x04000000 ||| 0x20000000 ||| 0x00020000 ||| cloneNewnet

/-- The child that `clone` creates; `none` is an error. -/
def sysClone (env : Env C N) (flags childStack : BitVec 64) (id : ℕ) (parent : Process C N) :
    Option (Process C N) :=
  if flags &&& cloneVm ≠ 0 then
    if childStack = 0 ∧ flags &&& cloneVfork = 0 then none else some (Process.newThread id)
  else if flags &&& cloneNewnet ≠ 0 then none
  else
    let child := Process.forkImpl env id parent
    if flags &&& cloneNew ≠ 0 then
      (env.cloneWithFlags (parent.place env).2 (flags &&& cloneNew)).map fun ns =>
        { child with namespaces := some ns }
    else some child

/-- The calls that create a task. -/
inductive Call
  | fork
  | vfork
  | spawn
  | clone (flags childStack : BitVec 64)

namespace Call

def create (env : Env C N) (id : ℕ) (parent : Process C N) : Call → Option (Process C N)
  | fork => some (Process.forkImpl env id parent)
  | vfork => some (Process.vfork env id parent)
  | spawn => some (Process.spawn env id parent)
  | clone flags childStack => sysClone env flags childStack id parent

/-- The call asks for no new namespace. -/
def Plain : Call → Prop
  | clone flags _ => flags &&& cloneNew = 0
  | _ => True

/-- The call goes to `new_thread`. -/
def SharesVm : Call → Prop
  | clone flags _ => flags &&& cloneVm ≠ 0
  | _ => False

/-- The call does not go to `new_thread`, or its caller is where a thread would be put. -/
def KeepsPlace (env : Env C N) (parent : Process C N) (call : Call) : Prop :=
  call.SharesVm → parent.place env = (env.cgroupRoot, env.rootNamespaceSet)

end Call

lemma Process.inheriting_place (env : Env C N) (id : ℕ) (parent : Process C N) :
    (inheriting env id parent).place env = parent.place env := by
  simp [inheriting, place]

/-- What a successful call makes: a child of the caller, in the place of the caller exactly if
the call keeps the place. -/
lemma Call.create_spec (env : Env C N) (id : ℕ) (parent child : Process C N) (call : Call)
    (hplain : call.Plain) (h : call.create env id parent = some child) :
    child.creator = some id ∧
      (child.place env = parent.place env ↔ call.KeepsPlace env parent) := by
  have hinherit : child = Process.inheriting env id parent → ¬ call.SharesVm →
      child.creator = some id ∧
        (child.place env = parent.place env ↔ call.KeepsPlace env parent) := by
    intro hc hv
    rw [hc, Process.inheriting_place]
    simp [Process.inheriting, Call.KeepsPlace, hv]
  cases call with
  | fork | vfork | spawn => exact hinherit (some.inj h).symm not_false
  | clone flags childStack =>
    simp only [Call.create, sysClone] at h
    by_cases hvm : flags &&& cloneVm ≠ 0
    · rw [if_pos hvm] at h
      split at h
      · simp at h
      · have hc : child = Process.newThread id := (some.inj h).symm
        have hkeeps : (Call.clone flags childStack).KeepsPlace env parent ↔
            parent.place env = (env.cgroupRoot, env.rootNamespaceSet) := forall_prop_of_true hvm
        rw [hc, hkeeps, eq_comm (a := parent.place env)]
        simp [Process.newThread, Process.place]
    · have hnew : flags &&& cloneNew = 0 := hplain
      rw [if_neg hvm] at h
      split at h
      · simp at h
      · simp only [hnew, ne_eq, not_true_eq_false, if_false, some.injEq] at h
        exact hinherit h.symm hvm

/-- All the tasks that there have been, by an identity that is never used again. An exit
changes neither the place nor the creator. -/
abbrev Tasks (C N : Type*) := ℕ → Option (Process C N)

/-- A run, with the caller and the call of every creation in it. No `cgroup.procs` write,
no `unshare` and no `CLONE_NEW*` flag is in it. -/
inductive Run (env : Env C N) (start : Tasks C N) :
    List (Process C N × Call) → Tasks C N → Prop
  | refl : Run env start [] start
  | create (log ts id parent call child new) : Run env start log ts →
      ts id = some parent → call.Plain → call.create env id parent = some child →
      ts new = none → Run env start ((parent, call) :: log) (update ts new (some child))

/-- The task `a` created the task `b`. -/
def Creates (ts : Tasks C N) (a b : ℕ) : Prop := ∃ q, ts b = some q ∧ q.creator = some a

/-- Every task is where each task is that created it, directly or through others. -/
def Contained (env : Env C N) (ts : Tasks C N) : Prop :=
  ∀ a b p q, Relation.TransGen (Creates ts) a b → ts a = some p → ts b = some q →
    q.place env = p.place env

/-- Creators are tasks. -/
def Rooted (ts : Tasks C N) : Prop := ∀ a b, Creates ts a b → ∃ p, ts a = some p

/-- Every task is where its creator is. -/
def Linked (env : Env C N) (ts : Tasks C N) : Prop :=
  ∀ a b p q, ts a = some p → ts b = some q → q.creator = some a → q.place env = p.place env

/-- Chains of creations need no more than single ones. -/
lemma contained_iff_linked (env : Env C N) (ts : Tasks C N) (hroot : Rooted ts) :
    Contained env ts ↔ Linked env ts := by
  constructor
  · intro h a b p q ha hb hq
    exact h a b p q (Relation.TransGen.single ⟨q, hb, hq⟩) ha hb
  · intro h a b p q hchain ha
    induction hchain generalizing q with
    | single hab =>
      intro hb
      obtain ⟨q', hb', hq⟩ := hab
      rw [hb, some.injEq] at hb'
      exact h _ _ p q ha hb (by rw [hb', hq])
    | tail _ hbc ih =>
      intro hc
      obtain ⟨m, hm⟩ := hroot _ _ hbc
      obtain ⟨q', hc', hq⟩ := hbc
      rw [hc, some.injEq] at hc'
      have hlast := h _ _ m q hm hc (by rw [hc', hq])
      rw [hlast, ih m hm]

section Create

variable {env : Env C N} {ts : Tasks C N} {id new : ℕ} {parent child : Process C N}

/-- The tasks there were are still there after a creation. -/
lemma update_of_some (child : Process C N) (hnew : ts new = none) {a : ℕ} {p : Process C N}
    (ha : ts a = some p) :
    update ts new (some child) a = some p := by
  have hne : a ≠ new := by
    intro h
    simp [h, hnew] at ha
  rw [update_of_ne hne, ha]

/-- What the table holds after a creation. -/
lemma update_eq_some_iff {b : ℕ} {q : Process C N} :
    update ts new (some child) b = some q ↔
      b = new ∧ q = child ∨ b ≠ new ∧ ts b = some q := by
  by_cases hb : b = new <;> simp [hb, eq_comm]

lemma Rooted.create (h : Rooted ts) (hid : ts id = some parent) (hnew : ts new = none)
    (hchild : child.creator = some id) :
    Rooted (update ts new (some child)) := by
  intro a b hab
  obtain ⟨q, hb, hq⟩ := hab
  rcases update_eq_some_iff.mp hb with ⟨_, hqc⟩ | ⟨_, hb'⟩
  · rw [hqc, hchild, some.injEq] at hq
    exact ⟨parent, hq ▸ update_of_some child hnew hid⟩
  · obtain ⟨p, hp⟩ := h a b ⟨q, hb', hq⟩
    exact ⟨p, update_of_some child hnew hp⟩

/-- A creation keeps the links exactly if the child is where its parent is. -/
lemma linked_create_iff (hroot : Rooted ts) (hid : ts id = some parent)
    (hnew : ts new = none) (hchild : child.creator = some id) :
    Linked env (update ts new (some child)) ↔
      child.place env = parent.place env ∧ Linked env ts := by
  constructor
  · intro h
    constructor
    · exact h id new parent child (update_of_some child hnew hid) (by simp) hchild
    · intro a b p q ha hb hq
      exact h a b p q (update_of_some child hnew ha) (update_of_some child hnew hb) hq
  · intro ⟨hplace, h⟩ a b p q ha hb hq
    -- a creator was there before its child, the new task has created nothing
    rcases update_eq_some_iff.mp hb with ⟨_, hqc⟩ | ⟨_, hb'⟩
    · rw [hqc, hchild, some.injEq] at hq
      have hp : p = parent := by
        have hpar := update_of_some child hnew hid
        rw [hq, ha] at hpar
        exact some.inj hpar
      rw [hqc, hp, hplace]
    · obtain ⟨p', hp'⟩ := hroot a b ⟨q, hb', hq⟩
      have hp : p = p' := by
        have hold := update_of_some child hnew hp'
        rw [ha] at hold
        exact some.inj hold
      exact h a b p q (hp ▸ hp') hb' hq

end Create

/-- Over a run from tasks of which none has created another one: creators are tasks, and the
links hold exactly if every creation kept the place. -/
lemma Run.linked_iff {env : Env C N} {start ts : Tasks C N} {log : List (Process C N × Call)}
    (hstart : ∀ a b, ¬ Creates start a b) (hrun : Run env start log ts) :
    Rooted ts ∧ (Linked env ts ↔ ∀ e ∈ log, e.2.KeepsPlace env e.1) := by
  induction hrun with
  | refl =>
    constructor
    · intro a b hab
      exact absurd hab (hstart a b)
    · simp only [List.not_mem_nil, false_imp_iff, implies_true, iff_true]
      intro a b p q _ hb hq
      exact absurd ⟨q, hb, hq⟩ (hstart a b)
  | create _ _ _ _ _ _ _ _ hid hplain hcreate hnew ih =>
    obtain ⟨hroot, hlinked⟩ := ih
    obtain ⟨hchild, hplace⟩ := Call.create_spec _ _ _ _ _ hplain hcreate
    constructor
    · exact hroot.create hid hnew hchild
    · rw [linked_create_iff hroot hid hnew hchild, hplace, hlinked, List.forall_mem_cons]

/-- Containment holds at the end of a run exactly if only callers in the root cgroup and the
root namespaces have cloned with `CLONE_VM`. -/
theorem contained_iff_keepsPlace (env : Env C N) (start ts : Tasks C N)
    (log : List (Process C N × Call)) (hstart : ∀ a b, ¬ Creates start a b)
    (hrun : Run env start log ts) :
    Contained env ts ↔ ∀ e ∈ log, e.2.KeepsPlace env e.1 := by
  obtain ⟨hroot, hlinked⟩ := hrun.linked_iff hstart
  rw [contained_iff_linked env ts hroot, hlinked]

/-- Root cgroup and namespaces `0`; `clone_with_flags` is not called in a run. -/
def bootEnv : Env ℕ ℕ := ⟨0, 0, fun _ _ => none⟩

/-- A task in cgroup 7 and namespaces 9. -/
def confined : Process ℕ ℕ := ⟨some 7, some 9, none⟩

@[simp] def confinedOnly : Tasks ℕ ℕ := update (fun _ => none) 0 (some confined)

lemma no_creator {p : Process ℕ ℕ} (hp : p.creator = none) (a b : ℕ) :
    ¬ Creates (update (fun _ => none) 0 (some p)) a b := by
  intro ⟨q, hb, hq⟩
  rcases update_eq_some_iff.mp hb with ⟨_, hqc⟩ | ⟨_, hnone⟩
  · simp [hqc, hp] at hq
  · simp at hnone

/-- A task of the root cgroup and the root namespaces starts a thread, which forks. -/
theorem contained_after_fork : ∃ log ts,
    Run bootEnv (update (fun _ => none) 0 (some ⟨none, none, none⟩)) log ts ∧
      log.length = 2 ∧ Contained bootEnv ts := by
  have hthread := Run.create [] _ 0 ⟨none, none, none⟩ (.clone 0x3d0f00 0x7000) _ 1 (Run.refl : Run
    bootEnv (update (fun _ => none) 0 (some ⟨none, none, none⟩)) _ _) (by simp)
    (show 0x3d0f00 &&& cloneNew = 0 by decide) rfl (by simp)
  have hfork := Run.create _ _ 1 (Process.newThread 0) .fork _ 2 hthread (by simp) trivial rfl
    (by simp)
  refine ⟨_, _, hfork, rfl, (contained_iff_keepsPlace _ _ _ _ (no_creator rfl) hfork).mpr ?_⟩
  intro e he
  obtain rfl | rfl : e = _ ∨ e = _ := by simpa using he
  all_goals exact fun _ => rfl

/-- The confined task starts a thread with the flags of `pthread_create`, and the thread forks:
the process is in the root cgroup and the root namespaces. -/
theorem thread_leaves_cgroup :
    ∃ thread process log ts, Run bootEnv confinedOnly log ts ∧
      ts 0 = some confined ∧ ts 1 = some thread ∧ ts 2 = some process ∧
      sysClone bootEnv 0x3d0f00 0x7000 0 confined = some thread ∧
      process = Process.forkImpl bootEnv 1 thread ∧ process.place bootEnv = (0, 0) ∧
      ¬ Contained bootEnv ts := by
  have hclone : sysClone bootEnv 0x3d0f00 0x7000 0 confined = some (Process.newThread 0) := rfl
  have hthread := Run.create [] confinedOnly 0 confined (.clone 0x3d0f00 0x7000) _ 1 (Run.refl : Run
    bootEnv _ _ _) (by simp) (show 0x3d0f00 &&& cloneNew = 0 by decide) hclone (by simp)
  have hfork := Run.create _ _ 1 (Process.newThread 0) .fork _ 2 hthread (by simp) trivial rfl
    (by simp)
  refine ⟨_, _, _, _, hfork, by simp, by simp, by simp, hclone, rfl, rfl, ?_⟩
  rw [(contained_iff_linked _ _ (hfork.linked_iff (no_creator rfl)).1)]
  intro h
  have hplace := h 0 1 confined (Process.newThread 0) (by simp) (by simp) rfl
  simp [Process.place, Process.newThread, bootEnv, confined] at hplace

end Kevlar.Containment
