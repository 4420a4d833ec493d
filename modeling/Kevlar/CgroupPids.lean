import Mathlib.Tactic

/-!
# The limit of tasks in a cgroup

`fork`, `vfork` and `spawn` ask `check_fork_allowed` first, which counts the members of the
cgroup and of everything below it at each level up to the root, and register the child in
the cgroup of the parent later. Creating a thread asks nothing and registers nothing; next
to the members a cgroup of the model keeps the threads that its tasks have made.
The limits hold as long as calls below one limit do not overlap and make no threads:
then what a check has counted still holds when the child is registered.
-/
namespace Kevlar.Cgroups
open List Option

mutual

/-- A node of the hierarchy. `pidsMax` is negative for no limit. -/
inductive CgroupNode
  | node (pidsMax : ℤ) (memberPids threads : List ℕ) (children : Children)

inductive Children
  | nil
  | cons (name : String) (child : CgroupNode) (rest : Children)

end

/-- The names that lead from the root to a cgroup. -/
abbrev CgroupPath := List String

mutual

/-- The sum of a measure over a node and everything below it. -/
def CgroupNode.sum (w : List ℕ → List ℕ → ℕ) : CgroupNode → ℕ
  | .node _ memberPids threads children => w memberPids threads + children.sum w

def Children.sum (w : List ℕ → List ℕ → ℕ) : Children → ℕ
  | .nil => 0
  | .cons _ child rest => child.sum w + rest.sum w

end

def Children.get (name : String) : Children → Option CgroupNode
  | .nil => none
  | .cons name' child rest => if name' = name then some child else rest.get name

/-- Change the child with the name. -/
def Children.modify (name : String) (f : CgroupNode → CgroupNode) : Children → Children
  | .nil => .nil
  | .cons name' child rest =>
    if name' = name then .cons name' (f child) rest else .cons name' child (rest.modify name f)

namespace CgroupNode

def pidsMax : CgroupNode → ℤ
  | node pidsMax _ _ _ => pidsMax

def children : CgroupNode → Children
  | node _ _ _ children => children

def countPidsRecursive (n : CgroupNode) : ℕ := n.sum fun memberPids _ => memberPids.length

def countThreads (n : CgroupNode) : ℕ := n.sum fun _ threads => threads.length

/-- The tasks of the cgroup and of everything below it, threads included. -/
def countTasks (n : CgroupNode) : ℕ := n.countPidsRecursive + n.countThreads

def find : CgroupPath → CgroupNode → Option CgroupNode
  | [], n => some n
  | name :: rest, n => (n.children.get name).bind (find rest)

def modifyAt : CgroupPath → (CgroupNode → CgroupNode) → CgroupNode → CgroupNode
  | [], f, n => f n
  | name :: rest, f, node pidsMax memberPids threads children =>
    node pidsMax memberPids threads (children.modify name (modifyAt rest f))

/-- The cgroup and its ancestors, up to the root. -/
def upwards : CgroupPath → CgroupNode → List CgroupNode
  | [], n => [n]
  | name :: rest, n =>
    match n.children.get name with
    | some child => upwards rest child ++ [n]
    | none => [n]

def checkNode (n : CgroupNode) : Bool :=
  if n.pidsMax < 0 then true else (n.countPidsRecursive : ℤ) < n.pidsMax

/-- `check_fork_allowed` for the cgroup at a path. -/
def checkForkAllowed (root : CgroupNode) (path : CgroupPath) : Bool :=
  (root.upwards path).all checkNode

def pushPid (pid : ℕ) : CgroupNode → CgroupNode
  | node pidsMax memberPids threads children =>
    node pidsMax (memberPids ++ [pid]) threads children

def pushThread (pid : ℕ) : CgroupNode → CgroupNode
  | node pidsMax memberPids threads children =>
    node pidsMax memberPids (threads ++ [pid]) children

def retainPid (pid : ℕ) : CgroupNode → CgroupNode
  | node pidsMax memberPids threads children =>
    node pidsMax (memberPids.filter (· ≠ pid)) threads children

def retainThread (pid : ℕ) : CgroupNode → CgroupNode
  | node pidsMax memberPids threads children =>
    node pidsMax memberPids (threads.filter (· ≠ pid)) children

end CgroupNode

/-- A task: the cgroup of the source, which a thread does not have, and the cgroup of the
task that made it, whose task it is. -/
structure Task where
  cgroup : Option CgroupPath
  home : CgroupPath

/-- The cgroup of a task, the root if it has none. -/
def Task.cgroupPath (t : Task) : CgroupPath := t.cgroup.getD []

/-- The tasks that are `forking` are inside `fork`, `vfork` or `spawn`: they have passed the
check and not yet registered their child. -/
structure Kernel where
  root : CgroupNode
  tasks : ℕ → Option Task
  forking : List ℕ

inductive Event
  /-- A `fork`, `vfork` or `spawn` of the parent starts. -/
  | check (parent : ℕ)
  /-- The call of the parent registers its child. -/
  | register (parent pid : ℕ)
  /-- The call of the parent fails after its check. -/
  | abandon (parent : ℕ)
  | newThread (parent pid : ℕ)
  | exit (pid : ℕ)

namespace Kernel

def setTask (s : Kernel) (pid : ℕ) (t : Option Task) : Kernel :=
  { s with tasks := Function.update s.tasks pid t }

def check (s : Kernel) (parent : ℕ) : Kernel :=
  match s.tasks parent with
  | some t =>
    if parent ∉ s.forking ∧ s.root.checkForkAllowed t.cgroupPath then
      { s with forking := parent :: s.forking }
    else s
  | none => s

def abandon (s : Kernel) (parent : ℕ) : Kernel :=
  { s with forking := s.forking.filter (· ≠ parent) }

/-- The cgroup of the parent is read again. -/
def register (s : Kernel) (parent pid : ℕ) : Kernel :=
  if parent ∈ s.forking then
    match s.tasks parent, s.tasks pid with
    | some t, none =>
      { (s.setTask pid (some ⟨some t.cgroupPath, t.cgroupPath⟩)).abandon parent with
        root := s.root.modifyAt t.cgroupPath (.pushPid pid) }
    | _, _ => s
  else s

def newThread (s : Kernel) (parent pid : ℕ) : Kernel :=
  match s.tasks parent, s.tasks pid with
  | some t, none =>
    { s.setTask pid (some ⟨none, t.home⟩) with
      root := s.root.modifyAt t.home (.pushThread pid) }
  | _, _ => s

/-- A task exits by itself, so not from inside its call. -/
def exit (s : Kernel) (pid : ℕ) : Kernel :=
  if pid ∈ s.forking then s
  else
    match s.tasks pid with
    | some t =>
      { s.setTask pid none with
        root :=
          (s.root.modifyAt t.cgroupPath (.retainPid pid)).modifyAt t.home (.retainThread pid) }
    | none => s

def step (s : Kernel) : Event → Kernel
  | .check parent => s.check parent
  | .register parent pid => s.register parent pid
  | .abandon parent => s.abandon parent
  | .newThread parent pid => s.newThread parent pid
  | .exit pid => s.exit pid

end Kernel

/-! ## Sums along a path -/

lemma Children.sum_modify {w : List ℕ → List ℕ → ℕ} {name : String}
    {f : CgroupNode → CgroupNode} {cs : Children} {c : CgroupNode} (h : cs.get name = some c) :
    (cs.modify name f).sum w + c.sum w = cs.sum w + (f c).sum w := by
  match cs with
  | .nil => cases h
  | .cons name' child rest =>
    unfold Children.get at h
    unfold Children.modify
    split_ifs at h ⊢ with hname
    · cases h
      simp only [Children.sum]
      omega
    · have ih := Children.sum_modify (w := w) (f := f) h
      simp only [Children.sum]
      omega

lemma Children.get_modify (name q : String) (f : CgroupNode → CgroupNode) (cs : Children) :
    (cs.modify name f).get q = if q = name then (cs.get name).map f else cs.get q := by
  match cs with
  | .nil => simp [Children.modify, Children.get]
  | .cons name' child rest =>
    have ih := Children.get_modify name q f rest
    unfold Children.modify
    by_cases hname : name' = name
    · simp only [hname, if_true, Children.get]
      by_cases hq : q = name
      · simp [hq]
      · simp [hq, Ne.symm hq]
    · simp only [hname, if_false, Children.get, ih]
      by_cases hq : q = name
      · subst hq
        simp [hname]
      · simp [hq]

lemma Children.modify_eq_self {name : String} {f : CgroupNode → CgroupNode} {cs : Children}
    (h : ∀ c, cs.get name = some c → f c = c) : cs.modify name f = cs := by
  match cs with
  | .nil => rfl
  | .cons name' child rest =>
    unfold Children.modify
    unfold Children.get at h
    split_ifs at h ⊢ with hname
    · rw [h child rfl]
    · rw [Children.modify_eq_self h]

namespace CgroupNode

variable {f : CgroupNode → CgroupNode}

@[simp] lemma children_modifyAt_cons (name : String) (rest : CgroupPath) (n : CgroupNode) :
    (n.modifyAt (name :: rest) f).children = n.children.modify name (modifyAt rest f) := by
  cases n
  rfl

/-- The sum changes as much as the changed node's. -/
lemma sum_modifyAt {w : List ℕ → List ℕ → ℕ} {path : CgroupPath} {n x : CgroupNode}
    (h : n.find path = some x) : (n.modifyAt path f).sum w + x.sum w = n.sum w + (f x).sum w := by
  induction path generalizing n with
  | nil =>
    cases h
    exact add_comm _ _
  | cons name rest ih =>
    obtain ⟨c, hc, hx⟩ := bind_eq_some_iff.mp h
    have hsum := Children.sum_modify (w := w) (f := modifyAt rest f) hc
    have hchild := ih hx
    cases n
    simp only [modifyAt, CgroupNode.sum, children] at *
    omega

/-- At a path that leads nowhere nothing changes. -/
lemma modifyAt_of_find_none {path : CgroupPath} {n : CgroupNode} (h : n.find path = none) :
    n.modifyAt path f = n := by
  induction path generalizing n with
  | nil => cases h
  | cons name rest ih =>
    obtain ⟨pidsMax, memberPids, threads, children⟩ := n
    have hsame : children.modify name (modifyAt rest f) = children := by
      apply Children.modify_eq_self
      intro c hc
      exact ih (bind_eq_none_iff.mp h c hc)
    rw [modifyAt, hsame]

/-- The nodes after a change that keeps the children: those above the path have changed
below, the others are the same. -/
lemma find_modifyAt (hchildren : ∀ n, (f n).children = n.children) (path q : CgroupPath)
    (n : CgroupNode) : (n.modifyAt path f).find q =
      if q <+: path then (n.find q).map (modifyAt (path.drop q.length) f) else n.find q := by
  induction q generalizing path n with
  | nil => simp [find]
  | cons name rest ih =>
    cases path with
    | nil => simp [find, modifyAt, hchildren]
    | cons name' rest' =>
      simp only [find, children_modifyAt_cons, Children.get_modify, cons_prefix_cons,
        length_cons, drop_succ_cons]
      by_cases hname : name = name'
      · subst hname
        cases n.children.get name with
        | none => simp
        | some c => simp [ih]
      · simp [hname]

/-- A change of one node's own tasks that keeps its limit. -/
structure Edits (f : CgroupNode → CgroupNode) : Prop where
  children : ∀ n, (f n).children = n.children
  pidsMax : ∀ n, (f n).pidsMax = n.pidsMax

lemma pidsMax_modifyAt (hf : Edits f) (path : CgroupPath) (n : CgroupNode) :
    (n.modifyAt path f).pidsMax = n.pidsMax := by
  cases path with
  | nil => exact hf.pidsMax n
  | cons name rest =>
    cases n
    rfl

/-- A sum grows by no more than that of the changed node. -/
lemma sum_modifyAt_le {w : List ℕ → List ℕ → ℕ} {k : ℕ}
    (hle : ∀ n, (f n).sum w ≤ n.sum w + k) (path : CgroupPath) (n : CgroupNode) :
    (n.modifyAt path f).sum w ≤ n.sum w + k := by
  cases h : n.find path with
  | none =>
    rw [modifyAt_of_find_none h]
    omega
  | some x =>
    have hsum := sum_modifyAt (f := f) (w := w) h
    have hx := hle x
    omega

/-- A cgroup with a limit at the path. -/
def limited (root : CgroupNode) (path : CgroupPath) : Bool :=
  match root.find path with
  | some n => 0 ≤ n.pidsMax
  | none => false

lemma limited_of_find {root n : CgroupNode} {path : CgroupPath} (h : root.find path = some n)
    (hmax : 0 ≤ n.pidsMax) : root.limited path = true := by
  simp [limited, h, hmax]

/-- Cgroups with a limit keep it and have no new threads; those above the path have at most
`k` tasks more, the others none. -/
def Grows (k : ℕ) (path : CgroupPath) (root root' : CgroupNode) : Prop :=
  ∀ q n', root'.find q = some n' → ∃ n, root.find q = some n ∧ n'.pidsMax = n.pidsMax ∧
    (0 ≤ n.pidsMax → n'.countThreads ≤ n.countThreads ∧
      n'.countTasks ≤ n.countTasks + if q <+: path then k else 0)

lemma Grows.refl (k : ℕ) (path : CgroupPath) (root : CgroupNode) : root.Grows k path root :=
  fun _ n h => ⟨n, h, rfl, fun _ => ⟨le_rfl, by omega⟩⟩

lemma Grows.trans {k : ℕ} {path path' : CgroupPath} {a b c : CgroupNode}
    (h : a.Grows k path b) (h' : b.Grows 0 path' c) : a.Grows k path c := by
  intro q n'' hn''
  obtain ⟨n', hn', hlimit', hcount'⟩ := h' q n'' hn''
  obtain ⟨n, hn, hlimit, hcount⟩ := h q n' hn'
  refine ⟨n, hn, hlimit'.trans hlimit, fun hmax => ?_⟩
  obtain ⟨hthreads', htasks'⟩ := hcount' (hlimit ▸ hmax)
  obtain ⟨hthreads, htasks⟩ := hcount hmax
  rw [ite_self] at htasks'
  exact ⟨hthreads'.trans hthreads, htasks'.trans htasks⟩

lemma grows_modifyAt {k : ℕ} (hf : Edits f)
    (hpids : ∀ n, (f n).countPidsRecursive ≤ n.countPidsRecursive + k)
    (hthreads : ∀ n, (f n).countThreads ≤ n.countThreads + 0) (root : CgroupNode)
    (path : CgroupPath) : root.Grows k path (root.modifyAt path f) := by
  intro q n' hn'
  rw [find_modifyAt hf.children] at hn'
  split_ifs at hn' with hpre
  · obtain ⟨n, hn, rfl⟩ := map_eq_some_iff.mp hn'
    have htasks := sum_modifyAt_le hpids (path.drop q.length) n
    have hnone := sum_modifyAt_le hthreads (path.drop q.length) n
    refine ⟨n, hn, pidsMax_modifyAt hf _ n, fun _ => ⟨hnone, ?_⟩⟩
    rw [if_pos hpre]
    exact (add_le_add htasks hnone).trans_eq (add_right_comm _ _ _)
  · exact ⟨n', hn', rfl, fun _ => ⟨le_rfl, by rw [if_neg hpre]; rfl⟩⟩

/-- A change below no cgroup with a limit. -/
lemma grows_of_unlimited (hf : Edits f) {root : CgroupNode} {path : CgroupPath}
    (h : ∀ q, q <+: path → root.limited q = false) : root.Grows 0 path (root.modifyAt path f) := by
  intro q n' hn'
  rw [find_modifyAt hf.children] at hn'
  split_ifs at hn' with hpre
  · obtain ⟨n, hn, rfl⟩ := map_eq_some_iff.mp hn'
    refine ⟨n, hn, pidsMax_modifyAt hf _ n, fun hmax => ?_⟩
    have hfalse := h q hpre
    rw [limited_of_find hn hmax] at hfalse
    cases hfalse
  · exact ⟨n', hn', rfl, fun _ => ⟨le_rfl, by rw [ite_self]; rfl⟩⟩

section

variable (pid : ℕ) (root : CgroupNode) (path : CgroupPath)

lemma edits_pushThread : Edits (pushThread pid) where
  children n := by cases n; rfl
  pidsMax n := by cases n; rfl

lemma grows_pushPid : root.Grows 1 path (root.modifyAt path (pushPid pid)) := by
  refine grows_modifyAt ⟨?_, ?_⟩ ?_ ?_ root path
  all_goals rintro ⟨pidsMax, memberPids, threads, children⟩
  · rfl
  · rfl
  · simp only [pushPid, countPidsRecursive, CgroupNode.sum, length_append, length_singleton]
    omega
  · exact le_rfl

lemma grows_retainPid : root.Grows 0 path (root.modifyAt path (retainPid pid)) := by
  refine grows_modifyAt ⟨?_, ?_⟩ ?_ ?_ root path
  all_goals rintro ⟨pidsMax, memberPids, threads, children⟩
  · rfl
  · rfl
  · exact Nat.add_le_add_right (length_filter_le _ _) _
  · exact le_rfl

lemma grows_retainThread : root.Grows 0 path (root.modifyAt path (retainThread pid)) := by
  refine grows_modifyAt ⟨?_, ?_⟩ ?_ ?_ root path
  all_goals rintro ⟨pidsMax, memberPids, threads, children⟩
  · rfl
  · rfl
  · exact le_rfl
  · exact Nat.add_le_add_right (length_filter_le _ _) _

end

/-- No cgroup with a limit rises above it. -/
def StaysBounded (root root' : CgroupNode) : Prop :=
  ∀ path n n', root.find path = some n → root'.find path = some n' → 0 ≤ n.pidsMax →
    (n.countTasks : ℤ) ≤ n.pidsMax → (n'.countTasks : ℤ) ≤ n.pidsMax

/-- There is room for a task in the cgroup at the path and in those above it. -/
def Room (root : CgroupNode) (path : CgroupPath) : Prop :=
  ∀ above n, above <+: path → root.find above = some n → 0 ≤ n.pidsMax →
    (n.countTasks : ℤ) < n.pidsMax

/-- No cgroup with a limit is above both paths. -/
def Apart (root : CgroupNode) (path path' : CgroupPath) : Prop :=
  ∀ above ∈ path.inits, above <+: path' → root.limited above = false

instance (root : CgroupNode) (path path' : CgroupPath) : Decidable (root.Apart path path') :=
  inferInstanceAs (Decidable (∀ above ∈ path.inits, _ → _))

/-- The check looks at every cgroup above the path. -/
lemma mem_upwards {root n : CgroupNode} {above path : CgroupPath} (hpre : above <+: path)
    (h : root.find above = some n) : n ∈ root.upwards path := by
  induction path generalizing above root with
  | nil =>
    obtain rfl := prefix_nil.mp hpre
    cases h
    exact mem_singleton_self _
  | cons name rest ih =>
    cases above with
    | nil =>
      cases h
      unfold upwards
      split <;> simp
    | cons name' above =>
      obtain ⟨rfl, hrest⟩ := cons_prefix_cons.mp hpre
      obtain ⟨child, hchild, hn⟩ := bind_eq_some_iff.mp h
      simp only [upwards, hchild]
      exact mem_append_left _ (ih hrest hn)

/-- Where cgroups with a limit have no threads, a check that passes finds room. -/
lemma room_of_checkForkAllowed {root : CgroupNode} {path : CgroupPath}
    (hthreads : ∀ q n, root.find q = some n → 0 ≤ n.pidsMax → n.countThreads = 0)
    (h : root.checkForkAllowed path = true) : root.Room path := by
  intro above n hpre hn hmax
  have hcheck := all_eq_true.mp h n (mem_upwards hpre hn)
  have hnone := hthreads above n hn hmax
  unfold checkNode at hcheck
  rw [if_neg (by omega), decide_eq_true_eq] at hcheck
  rw [countTasks]
  omega

end CgroupNode

namespace Kernel

open CgroupNode

/-- The cgroup in which a task registers its children. -/
def pathOf (s : Kernel) (pid : ℕ) : CgroupPath := ((s.tasks pid).map Task.cgroupPath).getD []

def homeOf (s : Kernel) (pid : ℕ) : CgroupPath := ((s.tasks pid).map Task.home).getD []

/-- A call starts only when no other one is under way below a cgroup with a limit that is
above both parents, and no thread is made below a cgroup with a limit. -/
def Orderly (s : Kernel) : Event → Prop
  | .check parent => ∀ other ∈ s.forking, s.root.Apart (s.pathOf parent) (s.pathOf other)
  | .newThread parent _ => s.root.Apart (s.homeOf parent) (s.homeOf parent)
  | _ => True

instance (s : Kernel) : (e : Event) → Decidable (s.Orderly e)
  | .check _ => inferInstanceAs (Decidable (∀ other ∈ s.forking, Apart _ _ _))
  | .newThread _ _ => inferInstanceAs (Decidable (Apart _ _ _))
  | .register .. | .abandon _ | .exit _ => instDecidableTrue

def AllOrderly (s : Kernel) : List Event → Prop
  | [] => True
  | e :: rest => s.Orderly e ∧ AllOrderly (s.step e) rest

/-- No step raises a cgroup with a limit above it. -/
def Bounded (s : Kernel) : List Event → Prop
  | [] => True
  | e :: rest => s.root.StaysBounded (s.step e).root ∧ Bounded (s.step e) rest

def run (s : Kernel) (es : List Event) : Kernel := es.foldl step s

/-- What holds between the steps of an orderly run: the check of a call is still right when
its child is registered. -/
structure Reserved (s : Kernel) : Prop where
  threads : ∀ q n, s.root.find q = some n → 0 ≤ n.pidsMax → n.countThreads = 0
  alive : ∀ p ∈ s.forking, s.tasks p ≠ none
  room : ∀ p ∈ s.forking, s.root.Room (s.pathOf p)
  apart : ∀ p ∈ s.forking, ∀ p' ∈ s.forking, p ≠ p' → s.root.Apart (s.pathOf p) (s.pathOf p')

variable {s s' : Kernel} {k : ℕ} {path : CgroupPath}

lemma limited_of_grows {root root' : CgroupNode} (h : root.Grows k path root') {q : CgroupPath}
    (hq : root.limited q = false) : root'.limited q = false := by
  rw [← Bool.not_eq_true]
  intro hlimited
  unfold limited at hlimited
  split at hlimited
  · rename_i n' hn'
    have hmax := of_decide_eq_true hlimited
    obtain ⟨n, hn, hpids, -⟩ := h q n' hn'
    rw [limited_of_find hn (hpids ▸ hmax)] at hq
    cases hq
  · cases hlimited

/-- A step that adds tasks only below cgroups that no call under way has reserved. -/
lemma Reserved.move (h : s.Reserved) (hgrows : s.root.Grows k path s'.root)
    (hforking : ∀ p ∈ s'.forking, p ∈ s.forking ∧ s'.tasks p = s.tasks p)
    (hfar : k = 0 ∨ ∀ p ∈ s'.forking, s.root.Apart path (s.pathOf p)) : s'.Reserved := by
  have hpath : ∀ p ∈ s'.forking, s'.pathOf p = s.pathOf p := by
    intro p hp
    rw [pathOf, pathOf, (hforking p hp).2]
  constructor
  · intro q n' hn' hmax
    obtain ⟨n, hn, hpids, hcount⟩ := hgrows q n' hn'
    rw [hpids] at hmax
    have hnone := h.threads q n hn hmax
    exact Nat.le_zero.mp ((hcount hmax).1.trans_eq hnone)
  · intro p hp
    rw [(hforking p hp).2]
    exact h.alive p (hforking p hp).1
  · intro p hp above n' hpre hn' hmax
    rw [hpath p hp] at hpre
    obtain ⟨n, hn, hpids, hcount⟩ := hgrows above n' hn'
    rw [hpids] at hmax ⊢
    have hroom := h.room p (hforking p hp).1 above n hpre hn hmax
    have hsame : (if above <+: path then k else 0) = 0 := by
      obtain hk | hfar := hfar
      · rw [hk, ite_self]
      · refine if_neg fun habove => ?_
        have hfalse := hfar p hp above ((mem_inits _ _).mpr habove) hpre
        rw [limited_of_find hn hmax] at hfalse
        cases hfalse
    omega
  · intro p hp p' hp' hne above habove hpre
    rw [hpath p hp] at habove
    rw [hpath p' hp'] at hpre
    exact limited_of_grows hgrows
      (h.apart p (hforking p hp).1 p' (hforking p' hp').1 hne above habove hpre)

lemma staysBounded_of_grows {root root' : CgroupNode} (hgrows : root.Grows k path root')
    (hroom : k = 0 ∨ k = 1 ∧ root.Room path) : root.StaysBounded root' := by
  intro q n n' hn hn' hmax hle
  obtain ⟨m, hm, -, hcount⟩ := hgrows q n' hn'
  obtain rfl := some.inj (hn.symm.trans hm)
  have htasks := (hcount hmax).2
  split_ifs at htasks with hpre
  · obtain rfl | ⟨rfl, hroom⟩ := hroom
    · omega
    · have := hroom q n hpre hn hmax
      omega
  · omega

/-- What a step of an orderly run does. -/
def Keeps (s s' : Kernel) : Prop := s.root.StaysBounded s'.root ∧ s'.Reserved

lemma Reserved.keeps (h : s.Reserved) : s.Keeps s :=
  ⟨staysBounded_of_grows (.refl 0 [] _) (.inl rfl), h⟩

lemma Reserved.check (h : s.Reserved) {parent : ℕ} (horderly : s.Orderly (.check parent)) :
    s.Keeps (s.check parent) := by
  unfold Kernel.check
  split
  · rename_i t ht
    have hpath : s.pathOf parent = t.cgroupPath := by simp [pathOf, ht]
    split_ifs with hcheck
    · refine ⟨h.keeps.1, h.threads, ?_, ?_, ?_⟩
      · simpa [ht] using h.alive
      · rintro p (- | ⟨_, hp⟩)
        · exact hpath ▸ room_of_checkForkAllowed h.threads hcheck.2
        · exact h.room p hp
      · rintro p (- | ⟨_, hp⟩) p' (- | ⟨_, hp'⟩) hne
        · exact absurd rfl hne
        · exact horderly p' hp'
        · exact fun above habove hpre =>
            horderly p hp above ((mem_inits _ _).mpr hpre) ((mem_inits _ _).mp habove)
        · exact h.apart p hp p' hp' hne
    · exact h.keeps
  · exact h.keeps

lemma Reserved.register (h : s.Reserved) (parent pid : ℕ) : s.Keeps (s.register parent pid) := by
  unfold Kernel.register
  split_ifs with hparent
  · split
    · rename_i t ht hpid
      have hpath : s.pathOf parent = t.cgroupPath := by simp [pathOf, ht]
      have hgrows := grows_pushPid pid s.root t.cgroupPath
      refine ⟨staysBounded_of_grows hgrows (.inr ⟨rfl, hpath ▸ h.room parent hparent⟩),
        h.move hgrows ?_ (.inr ?_)⟩
      · intro p hp
        obtain ⟨hp, -⟩ := mem_filter.mp hp
        refine ⟨hp, Function.update_of_ne ?_ _ _⟩
        rintro rfl
        exact h.alive p hp hpid
      · intro p hp
        obtain ⟨hp, hne⟩ := mem_filter.mp hp
        exact hpath ▸ h.apart parent hparent p hp (Ne.symm (of_decide_eq_true hne))
    · exact h.keeps
  · exact h.keeps

lemma Reserved.abandon (h : s.Reserved) (parent : ℕ) : s.Keeps (s.abandon parent) :=
  ⟨h.keeps.1, h.move (.refl 0 [] _) (fun _ hp => ⟨(mem_filter.mp hp).1, rfl⟩) (.inl rfl)⟩

lemma Reserved.newThread (h : s.Reserved) {parent pid : ℕ}
    (horderly : s.Orderly (.newThread parent pid)) : s.Keeps (s.newThread parent pid) := by
  unfold Kernel.newThread
  split
  · rename_i t ht hpid
    have hgrows : s.root.Grows 0 t.home (s.root.modifyAt t.home (pushThread pid)) := by
      refine grows_of_unlimited (edits_pushThread pid) fun q hq => ?_
      have hhome : s.homeOf parent = t.home := by simp [homeOf, ht]
      exact horderly q ((mem_inits _ _).mpr (hhome ▸ hq)) (hhome ▸ hq)
    refine ⟨staysBounded_of_grows hgrows (.inl rfl), h.move hgrows (fun p hp => ?_) (.inl rfl)⟩
    refine ⟨hp, Function.update_of_ne ?_ _ _⟩
    rintro rfl
    exact h.alive p hp hpid
  · exact h.keeps

lemma Reserved.exit (h : s.Reserved) (pid : ℕ) : s.Keeps (s.exit pid) := by
  unfold Kernel.exit
  split_ifs with hforking
  · exact h.keeps
  · split
    · rename_i t ht
      have hgrows := (grows_retainPid pid s.root t.cgroupPath).trans
        (grows_retainThread pid _ t.home)
      refine ⟨staysBounded_of_grows hgrows (.inl rfl), h.move hgrows (fun p hp => ?_) (.inl rfl)⟩
      refine ⟨hp, Function.update_of_ne ?_ _ _⟩
      rintro rfl
      exact hforking hp
    · exact h.keeps

lemma Reserved.step (h : s.Reserved) {e : Event} (horderly : s.Orderly e) :
    s.Keeps (s.step e) := by
  cases e with
  | check parent => exact h.check horderly
  | register parent pid => exact h.register parent pid
  | abandon parent => exact h.abandon parent
  | newThread parent pid => exact h.newThread horderly
  | exit pid => exact h.exit pid

/-- From a state without calls under way and without threads below cgroups with a limit, an
orderly run keeps every limit: what the check of a call has counted is still there when the
child is registered. -/
theorem bounded_of_allOrderly {s : Kernel} (hforking : s.forking = [])
    (hthreads : ∀ q n, s.root.find q = some n → 0 ≤ n.pidsMax → n.countThreads = 0)
    {es : List Event} (horderly : s.AllOrderly es) : s.Bounded es := by
  have h : s.Reserved := ⟨hthreads, by simp [hforking], by simp [hforking], by simp [hforking]⟩
  clear hforking hthreads
  induction es generalizing s with
  | nil => trivial
  | cons e rest ih =>
    obtain ⟨hbounded, hnext⟩ := h.step horderly.1
    exact ⟨hbounded, ih horderly.2 hnext⟩

/-- Two processes in a cgroup that allows three tasks and one in a cgroup that allows two. -/
def threeProcesses : Kernel where
  root := .node (-1) [] []
    (.cons "a" (.node 3 [1, 2] [] .nil) (.cons "b" (.node 2 [5] [] .nil) .nil))
  tasks pid :=
    if pid = 1 ∨ pid = 2 then some ⟨some ["a"], ["a"]⟩
    else if pid = 5 then some ⟨some ["b"], ["b"]⟩
    else none
  forking := []

def limitAndTasks (s : Kernel) : Option (ℤ × ℕ) :=
  (s.root.find ["a"]).map fun n => (n.pidsMax, n.countTasks)

/-- Forks in the two cgroups overlap; in the first one a fork is refused until a task exits. -/
def forksInTurn : List Event :=
  [.check 1, .check 5, .register 5 6, .register 1 3, .check 2, .exit 3, .check 2, .register 2 4]

theorem bounded_forksInTurn :
    threeProcesses.Bounded forksInTurn ∧
      (threeProcesses.run forksInTurn).limitAndTasks = some (3, 3) := by
  refine ⟨bounded_of_allOrderly rfl (fun q n hn hmax => ?_) ?_, by decide⟩
  · rcases q with - | ⟨name, - | ⟨name', rest⟩⟩
    · cases hn
      rfl
    · simp only [find, threeProcesses, CgroupNode.children, Children.get] at hn
      split_ifs at hn <;> cases hn <;> rfl
    · simp only [find, threeProcesses, CgroupNode.children, Children.get] at hn
      split_ifs at hn <;> cases hn
  · refine ⟨?_, ?_, ?_, ?_, ?_, ?_, ?_, ?_, trivial⟩ <;> decide

/-- Both forks pass the check before either child is registered; the threads are not
checked. -/
theorem four_tasks_of_three :
    threeProcesses.limitAndTasks = some (3, 2) ∧
    (threeProcesses.run [.check 1, .check 2, .register 1 3, .register 2 4]).limitAndTasks =
      some (3, 4) ∧
    (threeProcesses.run [.newThread 1 3, .newThread 1 4]).limitAndTasks = some (3, 4) := by
  decide

end Kernel

end Kevlar.Cgroups
