import Mathlib.Tactic

/-!
# The hot descriptors of a thread

Every thread keeps the last descriptor that `with_file` looked up, with a pointer to the file,
and the last one that the fast path of `epoll_wait` looked up. A call that takes a descriptor
away clears the two caches of the thread that calls. It does not reach the caches of the other
threads that share the table, and `close_range` asks only for the descriptor in the cache of
`with_file`.
-/
namespace Kevlar.HotFd
open Function Option

variable {F : Type*}

/-- An entry of the descriptor table. -/
structure Entry (F : Type*) where
  file : F
  closeOnExec : Bool

/-- The descriptor and the file of each cache; `none` is the descriptor -1. -/
structure Caches (F : Type*) where
  file : Option (ℕ × F)
  epoll : Option (ℕ × F)

/-- A process: the table that its threads share, and the caches of each thread. -/
structure Process (F : Type*) where
  table : ℕ → Option (Entry F)
  caches : ℕ → Caches F
  threads : Finset ℕ

inductive Errno
  | ebadf | einval
  deriving DecidableEq

/-- `invalidate_hot_fd`. -/
def Caches.invalidateHotFd (c : Caches F) (fd : ℕ) : Caches F :=
  ⟨c.file.filter (·.1 ≠ fd), c.epoll.filter (·.1 ≠ fd)⟩

namespace Process

/-- What the table holds at a descriptor. -/
def lookup (p : Process F) (fd : ℕ) : Except Errno F :=
  match p.table fd with
  | none => .error .ebadf
  | some entry => .ok entry.file

def lookupEpoll (isEpoll : F → Bool) (p : Process F) (fd : ℕ) : Except Errno F :=
  match p.lookup fd with
  | .error e => .error e
  | .ok file => if isEpoll file then .ok file else .error .einval

/-- The file that `with_file` calls its function on, and the caches afterwards. The cache is
read only while no other thread shares the table. -/
def withFile (p : Process F) (t fd : ℕ) : Except Errno F × Caches F :=
  let c := p.caches t
  if p.threads.card = 1 then
    match c.file.filter (·.1 = fd) with
    | some (_, file) => (.ok file, c)
    | none =>
      match p.lookup fd with
      | .error e => (.error e, c)
      | .ok file => (.ok file, { c with file := some (fd, file) })
  else (p.lookup fd, c)

/-- The instance that `epoll_wait` without a timeout polls, and the caches afterwards. -/
def epollWait (isEpoll : F → Bool) (p : Process F) (t fd : ℕ) : Except Errno F × Caches F :=
  let c := p.caches t
  match c.epoll.filter (·.1 = fd) with
  | some (_, file) => (.ok file, c)
  | none =>
    match p.lookupEpoll isEpoll fd with
    | .error e => (.error e, c)
    | .ok file =>
      if p.threads.card = 1 then (.ok file, { c with epoll := some (fd, file) })
      else (.ok file, c)

end Process

/-- The calls of a thread. `clone` starts a thread that shares the table. -/
inductive Call (F : Type*)
  | openFile (fd : ℕ) (entry : Entry F)
  | close (fd : ℕ)
  | dup2 (old new : ℕ) (closeOnExec : Bool)
  | closeRange (first last : ℕ)
  | exec
  | withFile (fd : ℕ)
  | epollWait (fd : ℕ)
  | clone (thread : ℕ)
  | exit

namespace Process

@[simp] def tableAfter (p : Process F) (call : Call F) (fd : ℕ) : Option (Entry F) :=
  match call with
  | .openFile new entry => if fd = new ∧ (p.table fd).isNone then some entry else p.table fd
  | .close old => if fd = old then none else p.table fd
  | .dup2 old new closeOnExec =>
    match p.table old with
    | some entry => if fd = new then some ⟨entry.file, closeOnExec⟩ else p.table fd
    | none => p.table fd
  | .closeRange first last => if first ≤ fd ∧ fd ≤ last then none else p.table fd
  | .exec => (p.table fd).filter (!·.closeOnExec)
  | _ => p.table fd

/-- The caches of the thread that calls. -/
def cachesAfter (isEpoll : F → Bool) (p : Process F) (t : ℕ) : Call F → Caches F
  | .close fd => (p.caches t).invalidateHotFd fd
  | .dup2 _ new _ => (p.caches t).invalidateHotFd new
  | .closeRange first last =>
    match (p.caches t).file with
    | some (hot, _) =>
      if first ≤ hot ∧ hot ≤ last then (p.caches t).invalidateHotFd hot else p.caches t
    | none => p.caches t
  | .exec => ⟨none, none⟩
  | .withFile fd => (p.withFile t fd).2
  | .epollWait fd => (p.epollWait isEpoll t fd).2
  | _ => p.caches t

/-- A call of the thread `t`. -/
def step (isEpoll : F → Bool) (p : Process F) (t : ℕ) (call : Call F) : Process F :=
  let p' : Process F :=
    { table := p.tableAfter call
      caches := update p.caches t (p.cachesAfter isEpoll t call)
      threads := p.threads }
  match call with
  | .clone new =>
    if new ∈ p.threads then p
    else { p' with
      caches := update p'.caches new ⟨none, none⟩
      threads := insert new p.threads }
  | .exit => { p' with threads := p.threads.erase t }
  | _ => p'

/-- The call takes the file at the descriptor away, or puts another one there. -/
def Touches (p : Process F) (fd : ℕ) : Call F → Prop
  | .close old => old = fd
  | .dup2 _ new _ => new = fd
  | .closeRange first last => first ≤ fd ∧ fd ≤ last
  | .exec => ∃ entry, p.table fd = some entry ∧ entry.closeOnExec = true
  | _ => False

/-- The thread has the descriptor with the file in one of its caches. -/
def Cached (c : Caches F) (fd : ℕ) (file : F) : Prop :=
  c.file = some (fd, file) ∨ c.epoll = some (fd, file)

/-- No call takes away a descriptor that another thread has in a cache, and no `close_range`
one that its own thread has in the cache of `epoll_wait` and not in that of `with_file`. -/
def Careful (p : Process F) (t : ℕ) (call : Call F) : Prop :=
  (∀ u ∈ p.threads, u ≠ t → ∀ fd file, Cached (p.caches u) fd file → ¬ p.Touches fd call) ∧
    ∀ first last, call = .closeRange first last → ∀ fd file,
      (p.caches t).epoll = some (fd, file) → first ≤ fd → fd ≤ last →
        ∃ file', (p.caches t).file = some (fd, file')

/-- The caches of every thread agree with the table. -/
structure Fresh (isEpoll : F → Bool) (p : Process F) : Prop where
  file : ∀ t ∈ p.threads, ∀ fd file, (p.caches t).file = some (fd, file) → p.lookup fd = .ok file
  epoll : ∀ t ∈ p.threads, ∀ fd file, (p.caches t).epoll = some (fd, file) →
    p.lookup fd = .ok file ∧ isEpoll file = true

lemma lookup_eq_ok {p : Process F} {fd : ℕ} {file : F} :
    p.lookup fd = .ok file ↔ ∃ entry, p.table fd = some entry ∧ entry.file = file := by
  cases h : p.table fd <;> simp [lookup, h]

/-- A file that the call does not touch is still at its descriptor. -/
lemma lookup_tableAfter {p p' : Process F} {call : Call F} {fd : ℕ} {file : F}
    (htable : p'.table = p.tableAfter call) (h : p.lookup fd = .ok file)
    (huntouched : ¬ p.Touches fd call) : p'.lookup fd = .ok file := by
  obtain ⟨entry, hentry, hfile⟩ := lookup_eq_ok.mp h
  refine lookup_eq_ok.mpr ⟨entry, ?_, hfile⟩
  rw [htable]
  cases call with
  | openFile new entry' => simp [hentry]
  | close old =>
    have hne : fd ≠ old := fun heq => huntouched heq.symm
    simp [hne, hentry]
  | dup2 old new closeOnExec =>
    have hne : fd ≠ new := fun heq => huntouched heq.symm
    cases hold : p.table old <;> simp [hold, hne, hentry]
  | closeRange first last =>
    have hnot : ¬ (first ≤ fd ∧ fd ≤ last) := huntouched
    simp [hnot, hentry]
  | exec =>
    have hkeep : entry.closeOnExec = false := by
      by_contra hclose
      exact huntouched ⟨entry, hentry, by simpa using hclose⟩
    simp [hentry, hkeep]
  | withFile fd' | epollWait fd' | clone thread | exit => exact hentry

/-- The caches agree with the table, and the call touches nothing that is in them. -/
structure Untouched (isEpoll : F → Bool) (p : Process F) (call : Call F) (c : Caches F) : Prop where
  file : ∀ fd file, c.file = some (fd, file) → p.lookup fd = .ok file ∧ ¬ p.Touches fd call
  epoll : ∀ fd file, c.epoll = some (fd, file) →
    p.lookup fd = .ok file ∧ isEpoll file = true ∧ ¬ p.Touches fd call

section Step

variable {isEpoll : F → Bool} {p : Process F} {t : ℕ} {call : Call F}

lemma Fresh.untouched (h : p.Fresh isEpoll) {u : ℕ} (hu : u ∈ p.threads)
    (hcall : ∀ fd file, Cached (p.caches u) fd file → ¬ p.Touches fd call) :
    p.Untouched isEpoll call (p.caches u) where
  file fd file hc := ⟨h.file u hu fd file hc, hcall fd file (.inl hc)⟩
  epoll fd file hc :=
    ⟨(h.epoll u hu fd file hc).1, (h.epoll u hu fd file hc).2, hcall fd file (.inr hc)⟩

section

variable (h : p.Fresh isEpoll) (ht : t ∈ p.threads)
include h ht

/-- Clearing the caches of the only cached descriptor that the call touches. -/
lemma Fresh.untouched_invalidate {fd : ℕ}
    (hcall : ∀ fd' file, Cached (p.caches t) fd' file → p.Touches fd' call → fd = fd') :
    p.Untouched isEpoll call ((p.caches t).invalidateHotFd fd) := by
  constructor
  · intro fd' file hc
    obtain ⟨hcached, hne⟩ := filter_eq_some_iff.mp hc
    refine ⟨h.file t ht fd' file hcached, fun htouch => ?_⟩
    simp [hcall fd' file (.inl hcached) htouch] at hne
  · intro fd' file hc
    obtain ⟨hcached, hne⟩ := filter_eq_some_iff.mp hc
    obtain ⟨hlookup, hepoll⟩ := h.epoll t ht fd' file hcached
    refine ⟨hlookup, hepoll, fun htouch => ?_⟩
    simp [hcall fd' file (.inr hcached) htouch] at hne

lemma Fresh.untouched_closeRange {first last : ℕ}
    (hcareful : p.Careful t (.closeRange first last)) : p.Untouched isEpoll (.closeRange first last)
      (p.cachesAfter isEpoll t (.closeRange first last)) := by
  -- a cached descriptor in the range is in the cache of `with_file`
  have hrange : ∀ fd file, Cached (p.caches t) fd file → first ≤ fd ∧ fd ≤ last →
      ∃ file', (p.caches t).file = some (fd, file') := by
    intro fd file hc htouch
    rcases hc with hc | hc
    · exact ⟨file, hc⟩
    · exact hcareful.2 first last rfl fd file hc htouch.1 htouch.2
  simp only [cachesAfter]
  cases hfile : (p.caches t).file with
  | none =>
    refine h.untouched ht fun fd file hc htouch => ?_
    obtain ⟨file', hc'⟩ := hrange fd file hc htouch
    simp [hfile] at hc'
  | some pair =>
    obtain ⟨hot, hotFile⟩ := pair
    have heq : ∀ fd file, Cached (p.caches t) fd file → first ≤ fd ∧ fd ≤ last → hot = fd := by
      intro fd file hc htouch
      obtain ⟨file', hc'⟩ := hrange fd file hc htouch
      simp only [hfile, some.injEq, Prod.mk.injEq] at hc'
      exact hc'.1
    by_cases hin : first ≤ hot ∧ hot ≤ last
    · simp only [hin, and_self, if_true]
      exact h.untouched_invalidate ht heq
    · simp only [hin, if_false]
      refine h.untouched ht fun fd file hc htouch => hin ?_
      rw [heq fd file hc htouch]
      exact htouch

lemma Fresh.untouched_withFile (fd : ℕ) :
    p.Untouched isEpoll (.withFile fd) (p.withFile t fd).2 := by
  have hold : p.Untouched isEpoll (.withFile fd) (p.caches t) :=
    h.untouched ht fun _ _ _ htouch => htouch
  simp only [withFile]
  split
  · split
    · exact hold
    · split
      · exact hold
      · next hlookup =>
        refine ⟨fun fd' file' hc => ?_, hold.epoll⟩
        simp only [some.injEq, Prod.mk.injEq] at hc
        exact ⟨hc.1 ▸ hc.2 ▸ hlookup, id⟩
  · exact hold

end

lemma lookupEpoll_eq_ok {fd : ℕ} {file : F} :
    p.lookupEpoll isEpoll fd = .ok file ↔ p.lookup fd = .ok file ∧ isEpoll file = true := by
  unfold lookupEpoll
  cases hlookup : p.lookup fd with
  | error e => simp
  | ok file' =>
    by_cases hepoll : isEpoll file'
    · simp only [hepoll, if_true, Except.ok.injEq]
      exact ⟨fun heq => ⟨heq, heq ▸ hepoll⟩, And.left⟩
    · simp only [hepoll, Bool.false_eq_true, if_false, reduceCtorEq, Except.ok.injEq, false_iff,
        not_and]
      exact fun heq => heq ▸ hepoll

lemma Fresh.untouched_epollWait (h : p.Fresh isEpoll) (ht : t ∈ p.threads) (fd : ℕ) :
    p.Untouched isEpoll (.epollWait fd) (p.epollWait isEpoll t fd).2 := by
  have hold : p.Untouched isEpoll (.epollWait fd) (p.caches t) :=
    h.untouched ht fun _ _ _ htouch => htouch
  simp only [epollWait]
  split
  · exact hold
  · split
    · exact hold
    · next hlookup =>
      split
      · refine ⟨hold.file, fun fd' file' hc => ?_⟩
        simp only [some.injEq, Prod.mk.injEq] at hc
        obtain ⟨hfile, hepoll⟩ := lookupEpoll_eq_ok.mp hlookup
        exact ⟨hc.1 ▸ hc.2 ▸ hfile, hc.2 ▸ hepoll, id⟩
      · exact hold

/-- After a careful call nothing that the call touches is in the caches of its thread. -/
lemma Fresh.untouched_cachesAfter (h : p.Fresh isEpoll) (ht : t ∈ p.threads)
    (hcareful : p.Careful t call) :
    p.Untouched isEpoll call (p.cachesAfter isEpoll t call) := by
  cases call with
  | openFile new entry | clone thread | exit => exact h.untouched ht fun _ _ _ htouch => htouch
  | close fd | dup2 old new closeOnExec =>
    exact h.untouched_invalidate ht fun _ _ _ htouch => htouch
  | closeRange first last => exact h.untouched_closeRange ht hcareful
  | exec => exact ⟨by simp [cachesAfter], by simp [cachesAfter]⟩
  | withFile fd => exact h.untouched_withFile ht fd
  | epollWait fd => exact h.untouched_epollWait ht fd

/-- A careful call keeps the caches in agreement with the table. -/
lemma Fresh.step (h : p.Fresh isEpoll) (ht : t ∈ p.threads) (hcareful : p.Careful t call) :
    (p.step isEpoll t call).Fresh isEpoll := by
  have hall : ∀ u ∈ p.threads, p.Untouched isEpoll call
      (update p.caches t (p.cachesAfter isEpoll t call) u) := by
    intro u hu
    by_cases hut : u = t
    · simpa [hut] using h.untouched_cachesAfter ht hcareful
    · simpa [hut] using h.untouched hu (hcareful.1 u hu hut)
  have hfresh : ∀ p' : Process F, p'.table = p.tableAfter call →
      (∀ u ∈ p'.threads, p.Untouched isEpoll call (p'.caches u)) → p'.Fresh isEpoll := by
    intro p' htable hcaches
    constructor
    · intro u hu fd file hc
      obtain ⟨hlookup, huntouched⟩ := (hcaches u hu).file fd file hc
      exact lookup_tableAfter htable hlookup huntouched
    · intro u hu fd file hc
      obtain ⟨hlookup, hepoll, huntouched⟩ := (hcaches u hu).epoll fd file hc
      exact ⟨lookup_tableAfter htable hlookup huntouched, hepoll⟩
  cases call with
  | clone new =>
    simp only [Process.step]
    split
    · exact h
    · refine hfresh _ rfl fun u hu => ?_
      by_cases hnew : u = new
      · simp only [hnew, update_self]
        exact ⟨by simp, by simp⟩
      · have hmem : u ∈ p.threads := by simpa [hnew] using hu
        simpa [hnew] using hall u hmem
  | exit => exact hfresh _ rfl fun u hu => hall u (Finset.mem_of_mem_erase hu)
  | openFile new entry | close fd | dup2 old new closeOnExec | closeRange first last | exec
  | withFile fd | epollWait fd => exact hfresh _ rfl hall

/-- While the caches agree with the table, the two operations act on what the table holds. -/
lemma Fresh.results (h : p.Fresh isEpoll) (ht : t ∈ p.threads) (fd : ℕ) :
    (p.withFile t fd).1 = p.lookup fd ∧
      (p.epollWait isEpoll t fd).1 = p.lookupEpoll isEpoll fd := by
  constructor
  · simp only [withFile]
    split
    · split
      · next hhit =>
        obtain ⟨hc, heq⟩ := filter_eq_some_iff.mp hhit
        simp only [decide_eq_true_eq] at heq
        exact (heq ▸ h.file t ht _ _ hc).symm
      · split
        · next hlookup => exact hlookup.symm
        · next hlookup => exact hlookup.symm
    · rfl
  · simp only [epollWait]
    split
    · next hhit =>
      obtain ⟨hc, heq⟩ := filter_eq_some_iff.mp hhit
      simp only [decide_eq_true_eq] at heq
      exact (heq ▸ lookupEpoll_eq_ok.mpr (h.epoll t ht _ _ hc)).symm
    · split
      · next hlookup => exact hlookup.symm
      · next hlookup => split <;> exact hlookup.symm

end Step

end Process

/-- The processes that calls of its threads lead to, of which each meets the condition `ok`,
from one thread with empty caches and any table. -/
inductive Reachable (isEpoll : F → Bool) (ok : Process F → ℕ → Call F → Prop) :
    Process F → Prop
  | start (table : ℕ → Option (Entry F)) (t : ℕ) :
      Reachable isEpoll ok ⟨table, fun _ => ⟨none, none⟩, {t}⟩
  | call (p t call) : Reachable isEpoll ok p → t ∈ p.threads → ok p t call →
      Reachable isEpoll ok (p.step isEpoll t call)

lemma Reachable.fresh {isEpoll : F → Bool} {p : Process F}
    (h : Reachable isEpoll Process.Careful p) : p.Fresh isEpoll := by
  induction h with
  | start table t => exact ⟨by simp, by simp⟩
  | call p t call _ ht hcareful ih => exact ih.step ht hcareful

/-- In every run of careful calls `with_file` and the fast path of `epoll_wait` act on the file
that the table holds at the descriptor, and fail if it holds none. -/
theorem hot_operations_current (isEpoll : F → Bool) (p : Process F)
    (h : Reachable isEpoll Process.Careful p) (t : ℕ) (ht : t ∈ p.threads) (fd : ℕ) :
    (p.withFile t fd).1 = p.lookup fd ∧
      (p.epollWait isEpoll t fd).1 = p.lookupEpoll isEpoll fd :=
  h.fresh.results ht fd

/-- The file 7 is an epoll instance. -/
def sevenIsEpoll (file : ℕ) : Bool := file == 7

/-- A table with one file. -/
def oneFile (fd file : ℕ) : ℕ → Option (Entry ℕ) := fun n =>
  if n = fd then some ⟨file, false⟩ else none

/-- A thread polls an instance and closes it: the next poll fails. -/
theorem close_after_epollWait : ∃ p, Reachable sevenIsEpoll Process.Careful p ∧
    (p.epollWait sevenIsEpoll 0 5).1 = .error .ebadf := by
  have hstart : Reachable sevenIsEpoll Process.Careful _ := .start (oneFile 5 7) 0
  have hwait := Reachable.call _ 0 (.epollWait 5) hstart (by decide)
    ⟨fun _ _ _ _ _ _ => id, fun _ _ heq => by cases heq⟩
  have hclose := Reachable.call _ 0 (.close 5) hwait (by decide)
    ⟨fun u hu hne => absurd (Finset.mem_singleton.mp hu) hne, fun _ _ heq => by cases heq⟩
  exact ⟨_, hclose, (hot_operations_current _ _ hclose 0 (by decide) 5).2⟩

/-- The polled instance is closed by `close_range`, and the next poll uses it; and a file is
closed and replaced by another thread, and `with_file` uses the closed one. -/
theorem stale_hot_descriptors :
    (∃ p, Reachable sevenIsEpoll (fun _ _ _ => True) p ∧ 0 ∈ p.threads ∧
      p.lookup 5 = .error .ebadf ∧ (p.epollWait sevenIsEpoll 0 5).1 = .ok 7) ∧
    ∃ p, Reachable sevenIsEpoll (fun _ _ _ => True) p ∧ 0 ∈ p.threads ∧
      p.lookup 3 = .ok 2 ∧ (p.withFile 0 3).1 = .ok 1 := by
  have hepoll : Reachable sevenIsEpoll (fun _ _ _ => True) _ := .start (oneFile 5 7) 0
  have hwait := Reachable.call _ 0 (.epollWait 5) hepoll (by decide) trivial
  have hrange := Reachable.call _ 0 (.closeRange 5 5) hwait (by decide) trivial
  have hfile : Reachable sevenIsEpoll (fun _ _ _ => True) _ := .start (oneFile 3 1) 0
  have hread := Reachable.call _ 0 (.withFile 3) hfile (by decide) trivial
  have hclone := Reachable.call _ 0 (.clone 1) hread (by decide) trivial
  have hclose := Reachable.call _ 1 (.close 3) hclone (by decide) trivial
  have hopen := Reachable.call _ 1 (.openFile 3 ⟨2, false⟩) hclose (by decide) trivial
  have hexit := Reachable.call _ 1 .exit hopen (by decide) trivial
  exact ⟨⟨_, hrange, by decide, rfl, rfl⟩, ⟨_, hexit, by decide, rfl, rfl⟩⟩

end Kevlar.HotFd
