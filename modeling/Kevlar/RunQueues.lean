import Mathlib.Algebra.BigOperators.Fin

/-!
# The run queues of the scheduler

Each processor has a run queue of process numbers, of at most eight. A process is
enqueued on the shortest queue of the processors that are online. A processor takes
the next process from the front of its own queue, or else steals one from the back of
another. What matters to the rest is how often a process occurs in all queues
together (`RunQueues.count`).
-/
namespace Kevlar.Sched
open Finset Function List

abbrev Pid : Type := ℕ

def maxCpus : ℕ := 8

/-- The run queues by processor. -/
abbrev RunQueues : Type := Fin maxCpus → List Pid

namespace RunQueues

variable {rq rq' : RunQueues} {p q : Pid}

/-- The search for the shortest queue, as the loop over the processors does it. -/
def leastLoaded (online : ℕ) (rq : RunQueues) : Fin maxCpus :=
  (((List.finRange maxCpus).take (min online maxCpus)).foldl
    (fun (best : Fin maxCpus × ℕ) c =>
      if (rq c).length < best.2 then (c, (rq c).length) else best) (⟨0, by decide⟩, 2 ^ 64 - 1)).1

def enqueue (online : ℕ) (rq : RunQueues) (pid : Pid) : RunQueues :=
  update rq (leastLoaded online rq) (rq (leastLoaded online rq) ++ [pid])

def enqueueFront (online : ℕ) (rq : RunQueues) (pid : Pid) : RunQueues :=
  update rq (leastLoaded online rq) (pid :: rq (leastLoaded online rq))

/-- The queue of a processor. -/
def slot (cpu : ℕ) : Fin maxCpus := ⟨cpu % maxCpus, Nat.mod_lt _ (by decide)⟩

/-- Take a process from the back of a queue. -/
def steal (rq : RunQueues) (victim : Fin maxCpus) : Option (Pid × RunQueues) :=
  match (rq victim).getLast? with
  | some pid => some (pid, update rq victim (rq victim).dropLast)
  | none => none

def pickNext (cpu : ℕ) (rq : RunQueues) : Option (Pid × RunQueues) :=
  match rq (slot cpu) with
  | pid :: rest => some (pid, update rq (slot cpu) rest)
  | [] => (List.range' 1 (maxCpus - 1)).findSome? fun i => steal rq (slot (cpu + i))

def remove (rq : RunQueues) (pid : Pid) : RunQueues :=
  fun c => (rq c).filter fun p => p ≠ pid

/-- How often a process occurs in the queues. -/
def count (rq : RunQueues) (p : Pid) : ℕ := ∑ c, (rq c).count p

lemma count_update (c : Fin maxCpus) (l : List Pid) :
    count (update rq c l) p + (rq c).count p = count rq p + l.count p := by
  have hrest : ∑ d ∈ univ.erase c, (update rq c l d).count p =
      ∑ d ∈ univ.erase c, (rq d).count p := by
    refine Finset.sum_congr rfl fun d hd => ?_
    rw [update_of_ne (ne_of_mem_erase hd)]
  have hnew := add_sum_erase univ (fun d => (update rq c l d).count p) (mem_univ c)
  have hold := add_sum_erase univ (fun d => (rq d).count p) (mem_univ c)
  rw [hrest, update_self] at hnew
  unfold count
  omega

lemma count_enqueue (online : ℕ) :
    count (enqueue online rq q) p = count rq p + if p = q then 1 else 0 := by
  have hupdate := @count_update rq p (leastLoaded online rq) (rq (leastLoaded online rq) ++ [q])
  rw [count_append, count_singleton] at hupdate
  unfold enqueue
  simp only [beq_iff_eq, eq_comm (a := q)] at hupdate
  omega

lemma count_enqueueFront (online : ℕ) :
    count (enqueueFront online rq q) p = count rq p + if p = q then 1 else 0 := by
  have hupdate := @count_update rq p (leastLoaded online rq) (q :: rq (leastLoaded online rq))
  rw [count_cons] at hupdate
  unfold enqueueFront
  simp only [beq_iff_eq, eq_comm (a := q)] at hupdate
  omega

lemma count_steal {victim : Fin maxCpus} (h : steal rq victim = some (q, rq')) :
    count rq p = count rq' p + if p = q then 1 else 0 := by
  rw [steal] at h
  split at h
  · rename_i pid hlast
    obtain ⟨rfl, rfl⟩ := Prod.mk.inj (Option.some.inj h)
    have hsplit := dropLast_append_getLast? pid hlast
    have hupdate := @count_update rq p victim (rq victim).dropLast
    have hcount : (rq victim).count p =
        (rq victim).dropLast.count p + if p = pid then 1 else 0 := by
      conv_lhs => rw [← hsplit]
      rw [count_append, count_singleton]
      simp only [beq_iff_eq, eq_comm (a := pid)]
    omega
  · cases h

/-- A process that is picked occurs once less. -/
lemma count_pickNext {cpu : ℕ} (h : pickNext cpu rq = some (q, rq')) :
    count rq p = count rq' p + if p = q then 1 else 0 := by
  rw [pickNext] at h
  split at h
  · rename_i pid rest hfront
    obtain ⟨rfl, rfl⟩ := Prod.mk.inj (Option.some.inj h)
    have hupdate := @count_update rq p (slot cpu) rest
    rw [hfront, count_cons] at hupdate
    simp only [beq_iff_eq, eq_comm (a := pid)] at hupdate
    omega
  · obtain ⟨i, -, hi⟩ := exists_of_findSome?_eq_some h
    exact count_steal hi

lemma count_remove : count (remove rq q) p = if p = q then 0 else count rq p := by
  unfold count remove
  split_ifs with hpq
  · refine Finset.sum_eq_zero fun c _ => ?_
    rw [count_eq_zero, mem_filter]
    simp [hpq]
  · refine Finset.sum_congr rfl fun c _ => ?_
    rw [count_filter]
    simpa using hpq

end RunQueues

end Kevlar.Sched
