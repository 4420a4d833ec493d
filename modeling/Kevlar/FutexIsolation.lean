import Kevlar.WaitQueueEntries

/-!
# Futexes and address spaces

The queue of a futex is found by its virtual address alone. As long as an address is used
as a futex in one address space only, a futex call takes or moves only waiters of the
caller's address space. Processes that use the same address wake each other.
-/
namespace Kevlar.Sched
open List Concurrent

/-- Who has taken or moved which waiters of which futex. -/
def Note.futexWaiters : Note → Option (Pid × ℕ × List Pid)
  | .woke (.proc p) (.futex addr) ps => some (p, addr, ps)
  | .moved (.proc p) (.futex addr) _ ps => some (p, addr, ps)
  | _ => none

/-- Every waiter that a process has dequeued, woken, moved or counted at a futex is in the
address space of that process. -/
def FutexIsolated (s : Kernel) : Prop :=
  ∀ n ∈ s.log, ∀ p addr ps, n.futexWaiters = some (p, addr, ps) →
    ∀ r ∈ ps, s.space r = s.space p

/-- The queues that an instruction changes. -/
def Instr.touches : Instr → List QueueId
  | .any (.take q _) => [q]
  | .any (.requeue q q' _) => [q, q']
  | .own (.enter q _) => [q]
  | _ => []

/-- A process changes the queue of a futex only at addresses that belong to its own
address space; `owner` says to which one an address belongs. -/
def OwnAddresses (owner : ℕ → ℕ) (cfg : KConfig) : KMove → Prop
  | .act (.proc p) _ =>
    ∀ i rest addr, cfg.stack (.proc p) = i :: rest → .futex addr ∈ i.touches →
      owner addr = cfg.shared.space p
  | _ => True

/-! ## Requeues -/

/-- The queues between which an instruction moves waiters, now or later. -/
def Instr.moves : Instr → Option (QueueId × QueueId)
  | .any (.requeueTest q q' _) => some (q, q')
  | .any (.requeue q q' _) => some (q, q')
  | _ => none

/-- Waiters are moved between two named queues, or by a process between two futexes. -/
def MovesAlike (cfg : KConfig) : Prop :=
  ∀ a, ∀ i ∈ cfg.stack a, ∀ q q', i.moves = some (q, q') →
    (∃ n n', q = .named n ∧ q' = .named n') ∨
      ∃ p x y, a = .proc p ∧ q = .futex x ∧ q' = .futex y

lemma moves_body {a : Agent} {c : Call} {is : List Instr} (h : c.body a = some is) :
    ∀ i ∈ is, ∀ q q', i.moves = some (q, q') → ∃ n n', q = .named n ∧ q' = .named n' := by
  intro i hi q q' hmoves
  cases starts_body h i hi with
  | requeueTest n n' max =>
    cases hmoves
    exact ⟨n, n', rfl, rfl⟩
  | _ => cases hmoves

lemma moves_exec {s s' : Kernel} {a : Agent} {i : Instr} {x : Choice} {more : List Instr}
    (h : exec s a i x = some (s', more)) : ∀ j ∈ more, ∀ q q', j.moves = some (q, q') →
      i.moves = some (q, q') ∨ ∃ p x y, a = .proc p ∧ q = .futex x ∧ q' = .futex y := by
  intro j hj q q' hmoves
  have hnone : more.all (fun j => j.moves.isNone) = true → False := by
    intro hall
    have hno := all_eq_true.mp hall j hj
    rw [hmoves] at hno
    cases hno
  obtain ⟨k, l, rfl, rfl, hdoes⟩ | ⟨p, k, rfl, rfl, -, hdoes⟩ := exec_cases h
  · left
    cases hdoes with
    | decides _ hdecides =>
      cases hdecides with
      | requeueTest => rwa [mem_singleton.mp hj] at hmoves
      | _ => exact (hnone rfl).elim
    | resume why interrupts _ =>
      refine (hnone ?_).elim
      rw [resumed]
      split_ifs <;> rfl
    | take q max =>
      rw [map_map] at hj
      obtain ⟨r, -, rfl⟩ := mem_map.mp hj
      cases hmoves
    | setState | dequeue | restore | enqueue | requeue | setRunnable => exact (hnone rfl).elim
  · right
    cases hdoes with
    | sleep hstep => cases hstep <;> exact (hnone rfl).elim
    | futex _ hstep =>
      cases hstep with
      | @cmpRequeue addr addr2 =>
        simp only [mem_cons, not_mem_nil, or_false] at hj
        rcases hj with rfl | rfl | rfl
        · cases hmoves
        · cases hmoves
          exact ⟨p, addr, addr2, rfl, rfl, rfl⟩
        · cases hmoves
      | _ => exact (hnone rfl).elim
    | setState | exitKept | exitState | yield | removeSelf | ret | enter => exact (hnone rfl).elim

lemma MovesAlike.runs {ok : KConfig → KMove → Prop} {cfg cfg' : KConfig}
    (h : MovesAlike cfg) (hruns : kernelMachine.Runs ok cfg cfg') : MovesAlike cfg' := by
  refine Machine.Runs.stacks (fun a stack => ∀ i ∈ stack, ∀ q q', Instr.moves i = some (q, q') →
    (∃ n n', q = .named n ∧ q' = .named n') ∨
      ∃ p x y, a = Agent.proc p ∧ q = .futex x ∧ q' = .futex y) ?_ ?_ hruns h
  · exact fun a c is hbody i hi q q' hmoves => .inl (moves_body hbody i hi q q' hmoves)
  · intro s a x i rest s' more hold hexec j hj q q' hmoves
    rcases mem_append.mp hj with hj | hj
    · exact (moves_exec hexec j hj q q' hmoves).elim (hold i mem_cons_self q q') .inr
    · exact hold j (mem_cons_of_mem _ hj) q q' hmoves

/-! ## Entries -/

/-- The waiters of a futex, and those that have been taken or moved there, are in the
address space to which the address belongs. -/
structure Apart (owner : ℕ → ℕ) (s : Kernel) : Prop where
  entries : ∀ addr, ∀ p ∈ (s.waitQueues (.futex addr)).queue,
    s.born p = true ∧ s.space p = owner addr
  notes : ∀ n ∈ s.log, ∀ p addr ps, n.futexWaiters = some (p, addr, ps) →
    ∀ r ∈ p :: ps, s.born r = true ∧ s.space r = owner addr

namespace Apart

variable {owner : ℕ → ℕ} {s s' : Kernel} {a : Agent} {i : Instr} {x : Choice}
  {more : List Instr}

lemma isolated (h : Apart owner s) : FutexIsolated s := by
  intro n hn p addr ps hps r hr
  have hnote := h.notes n hn p addr ps hps
  rw [(hnote r (mem_cons_of_mem p hr)).2, (hnote p mem_cons_self).2]

lemma frame (h : Apart owner s)
    (hq : ∀ addr, ∀ p ∈ (s'.waitQueues (.futex addr)).queue,
      p ∈ (s.waitQueues (.futex addr)).queue)
    (hlog : ∀ n ∈ s'.log, n.futexWaiters ≠ none → n ∈ s.log)
    (hkeeps : ∀ p, s.born p = true → s'.born p = true ∧ s'.space p = s.space p) :
    Apart owner s' where
  entries addr p hp := by
    obtain ⟨hborn, hspace⟩ := h.entries addr p (hq addr p hp)
    rw [(hkeeps p hborn).2]
    exact ⟨(hkeeps p hborn).1, hspace⟩
  notes n hn p addr ps hps r hr := by
    have hold := hlog n hn (by rw [hps]; nofun)
    obtain ⟨hborn, hspace⟩ := h.notes n hold p addr ps hps r hr
    rw [(hkeeps r hborn).2]
    exact ⟨(hkeeps r hborn).1, hspace⟩

lemma firstOf (h : Apart owner s) {addr : ℕ} {max : Option ℕ} {p : Pid}
    (hp : p ∈ s.firstOf (.futex addr) max) : s.born p = true ∧ s.space p = owner addr :=
  h.entries addr p (mem_of_firstOf hp)

/-- A step that adds a note. -/
lemma note {n : Note} (h : Apart owner s) (hborn : s'.born = s.born)
    (hspace : s'.space = s.space) (hlog : s'.log = s.log ++ [n])
    (hq : ∀ addr, ∀ p ∈ (s'.waitQueues (.futex addr)).queue,
      s.born p = true ∧ s.space p = owner addr)
    (hn : ∀ p addr ps, n.futexWaiters = some (p, addr, ps) →
      ∀ r ∈ p :: ps, s.born r = true ∧ s.space r = owner addr) : Apart owner s' where
  entries := by
    rw [hborn, hspace]
    exact hq
  notes m hm := by
    rw [hlog] at hm
    rw [hborn, hspace]
    rcases mem_append.mp hm with hm | hm
    · exact h.notes m hm
    · rw [mem_singleton.mp hm]
      exact hn

lemma take {q : QueueId} {max : Option ℕ} (h : Apart owner s)
    (hown : ∀ p addr, a = .proc p → q = .futex addr →
      s.born p = true ∧ s.space p = owner addr) : Apart owner (s.takeFrom a q max) := by
  refine h.note rfl rfl rfl (fun addr p hp => ?_) fun p addr ps hps r hr => ?_
  · rw [takeFrom_waitQueues] at hp
    split_ifs at hp with hq
    · subst hq
      exact h.entries addr p (mem_of_mem_drop hp)
    · exact h.entries addr p hp
  · cases a with
    | irq n => cases hps
    | proc p' =>
      cases q with
      | named n => cases hps
      | futex addr' =>
        cases hps
        rcases mem_cons.mp hr with rfl | hr
        · exact hown r addr rfl rfl
        · exact h.firstOf hr

lemma move {q q' : QueueId} {max : ℕ} (h : Apart owner s)
    (halike : (∃ n n', q = .named n ∧ q' = .named n') ∨
      ∃ p x y, a = .proc p ∧ q = .futex x ∧ q' = .futex y ∧ s.born p = true ∧
        s.space p = owner x ∧ s.space p = owner y) : Apart owner (s.moveTo a q q' max) := by
  rcases halike with ⟨n, n', rfl, rfl⟩ | ⟨p₀, addr₁, addr₂, rfl, rfl, rfl, hborn, hfrom, hto⟩
  · refine h.note rfl rfl rfl (fun addr p hp => ?_) fun p addr ps hps => ?_
    · exact h.entries addr p hp
    · cases a <;> cases hps
  · refine h.note rfl rfl rfl (fun addr p hp => ?_) fun p addr ps hps r hr => ?_
    · rw [moveTo_waitQueues] at hp
      split_ifs at hp with hq' hq
      · cases hq'
        rcases mem_append.mp hp with hp | hp
        · exact h.entries addr₂ p hp
        · have hold := h.firstOf hp
          exact ⟨hold.1, by rw [hold.2, ← hfrom, hto]⟩
      · cases hq
        exact h.entries addr₁ p (mem_of_mem_drop hp)
      · exact h.entries addr p hp
    · cases hps
      rcases mem_cons.mp hr with rfl | hr
      · exact ⟨hborn, hfrom⟩
      · exact h.firstOf hr

lemma enter {q : QueueId} {p : Pid} (h : Apart owner s) (hborn : s.born p = true)
    (hown : ∀ addr, q = .futex addr → s.space p = owner addr) :
    Apart owner (s.enterQueue p q) where
  entries addr p' hp := by
    rw [enterQueue_waitQueues] at hp
    split_ifs at hp with hq
    · subst hq
      rcases mem_append.mp hp with hp | hp
      · exact h.entries addr p' hp
      · rw [mem_singleton.mp hp]
        exact ⟨hborn, hown addr rfl⟩
    · exact h.entries addr p' hp
  notes := h.notes

lemma act (h : Apart owner s) (hexec : exec s a i x = some (s', more))
    (hmoves : ∀ q q', i.moves = some (q, q') → (∃ n n', q = .named n ∧ q' = .named n') ∨
      ∃ p x y, a = .proc p ∧ q = .futex x ∧ q' = .futex y)
    (hown : ∀ p addr, a = .proc p → .futex addr ∈ i.touches → owner addr = s.space p) :
    Apart owner s' := by
  have hborn : ∀ p, a = .proc p → s.born p = true := by
    rintro p rfl
    exact born_of_exec hexec
  have hsame : s'.waitQueues = s.waitQueues → s'.log = s.log → Apart owner s' := by
    intro hq hlog
    obtain ⟨hb, hspace⟩ := exec_born_space hexec
    refine h.frame ?_ ?_ ?_
    · rw [hq]
      exact fun _ _ hp => hp
    · rw [hlog]
      exact fun _ hn _ => hn
    · rw [hb, hspace]
      exact fun _ hp => ⟨hp, rfl⟩
  obtain ⟨j, l, rfl, rfl, hdoes⟩ | ⟨p, j, rfl, rfl, -, hdoes⟩ := exec_cases hexec
  · cases hdoes with
    | decides hcore _ => exact hsame hcore.waitQueues hcore.log
    | setState | dequeue | resume | restore | enqueue | setRunnable => exact hsame rfl rfl
    | take q max =>
      refine h.take fun p addr ha hq => ⟨hborn p ha, ?_⟩
      exact (hown p addr ha (by rw [hq]; exact mem_cons_self)).symm
    | @requeue q q' max hne =>
      refine h.move ((hmoves q q' rfl).imp_right ?_)
      rintro ⟨p, addr₁, addr₂, ha, rfl, rfl⟩
      refine ⟨p, addr₁, addr₂, ha, rfl, rfl, hborn p ha, ?_, ?_⟩
      · exact (hown p addr₁ ha mem_cons_self).symm
      · exact (hown p addr₂ ha (mem_cons_of_mem _ mem_cons_self)).symm
  · cases hdoes with
    | futex hcore _ => exact hsame hcore.waitQueues hcore.log
    | sleep | exitKept | setState | exitState | yield => exact hsame rfl rfl
    | enter q k =>
      refine h.enter (hborn p rfl) fun addr hq => ?_
      exact (hown p addr rfl (by rw [hq]; exact mem_cons_self)).symm
    | removeSelf q =>
      refine ⟨fun addr p' hp => ?_, h.notes⟩
      rw [removeFrom_waitQueues] at hp
      split_ifs at hp with hq
      · subst hq
        exact h.entries addr p' (mem_of_mem_filter hp)
      · exact h.entries addr p' hp
    | ret r => exact h.note rfl rfl rfl h.entries nofun

end Apart

/-- In a run in which an address is used as a futex in one address space only, no futex
call takes, moves or counts a waiter of another address space. -/
theorem futexIsolated_of_ownAddresses {owner : ℕ → ℕ} {cfg₀ cfg : KConfig} (hboot : Boot cfg₀)
    (h : kernelMachine.Runs (OwnAddresses owner) cfg₀ cfg) : FutexIsolated cfg.shared := by
  suffices hapart : Apart owner cfg.shared from hapart.isolated
  have hmoves : MovesAlike cfg₀ := by
    intro a i hi
    rw [hboot.stack] at hi
    cases hi
  induction h with
  | refl =>
    constructor
    · intro addr p hp
      rw [hboot.waitQueues] at hp
      cases hp
    · intro n hn
      rw [hboot.log] at hn
      cases hn
  | tail hrun hnext ih =>
    obtain ⟨move, hok, hstep⟩ := hnext
    cases move with
    | call a c =>
      obtain ⟨is, -, -, rfl⟩ := Machine.step_call hstep
      exact ih
    | act a x =>
      obtain ⟨i, rest, s, more, hstack, hexec, rfl⟩ := Machine.step_act hstep
      refine ih.act hexec (hmoves.runs hrun a i (by rw [hstack]; exact mem_cons_self)) ?_
      rintro p addr rfl htouches
      exact hok i rest addr hstack htouches
    | world e =>
      obtain ⟨s, hworld, rfl⟩ := Machine.step_world hstep
      obtain ⟨hq, hlog, -, hspace⟩ := world_keeps hworld
      refine ih.frame ?_ ?_ hspace
      · rw [hq]
        exact fun _ _ hp => hp
      · rw [hlog]
        exact fun _ hn _ => hn

/-- The condition on the addresses as a test. -/
def usesOwnAddresses (owner : ℕ → ℕ) (cfg : KConfig) : KMove → Bool
  | .act (.proc p) _ =>
    match cfg.stack (.proc p) with
    | i :: _ => i.touches.all fun q =>
        match q with
        | .futex addr => owner addr = cfg.shared.space p
        | .named _ => true
    | [] => true
  | _ => true

lemma ownAddresses_of_uses {owner : ℕ → ℕ} (cfg : KConfig) (move : KMove)
    (h : usesOwnAddresses owner cfg move = true) : OwnAddresses owner cfg move := by
  cases move with
  | act a x =>
    cases a with
    | proc p =>
      intro i rest addr hstack htouches
      rw [usesOwnAddresses, hstack] at h
      exact of_decide_eq_true (all_eq_true.mp h _ htouches)
    | irq n => trivial
  | call | world => trivial

/-- A thread wakes another one of its address space. -/
theorem futexIsolated_two_threads : ∃ cfg,
    kernelMachine.Runs (OwnAddresses fun addr => addr / 4096) bootConfig cfg ∧
      Note.woke (.proc 3) (.futex 4096) [1] ∈ cfg.shared.log ∧ FutexIsolated cfg.shared := by
  obtain ⟨cfg, hruns, hwoke⟩ : ∃ cfg,
      kernelMachine.Runs (OwnAddresses fun addr => addr / 4096) bootConfig cfg ∧
      Note.woke (.proc 3) (.futex 4096) [1] ∈ cfg.shared.log :=
    Machine.exists_runs_of_play _ ownAddresses_of_uses
    (startOn 0 1 ++ [.call (.proc 1) (.futex 4096 futexWaitCmd 0 0 0 0)] ++
      replicate 6 (actOn 0 1 .notYet) ++ switchTo 0 ++
      [.world (.spawn 3 (some 1) 1), .world (.preempt 0)] ++ switchTo 0 ++
      [.call (.proc 3) (.futex 4096 futexWakeCmd 1 0 0 0)] ++
      replicate 3 (actOn 0 3 .notYet)) (by decide +kernel)
  exact ⟨cfg, hruns, hwoke, futexIsolated_of_ownAddresses boot_bootConfig hruns⟩

/-- Two processes with address spaces of their own use the same virtual address. The wake
of the second one takes the first one off its queue and counts it. -/
theorem futexWake_crosses_spaces : ∃ cfg,
    kernelMachine.Runs (fun _ _ => True) bootConfig cfg ∧
      cfg.shared.space 1 ≠ cfg.shared.space 2 ∧
      Note.woke (.proc 2) (.futex 4096) [1] ∈ cfg.shared.log ∧
      Note.returned 2 (.ok 1) ∈ cfg.shared.log ∧ cfg.shared.state 1 = .runnable :=
  Machine.exists_runs_of_play (fun _ _ => true) (fun _ _ _ => trivial)
    (startOn 0 1 ++ startOn 1 2 ++ [.call (.proc 1) (.futex 4096 futexWaitCmd 0 0 0 0)] ++
      replicate 6 (actOn 0 1 .notYet) ++ switchTo 0 ++
      [.call (.proc 2) (.futex 4096 futexWakeCmd 1 0 0 0)] ++
      replicate 8 (actOn 1 2 .notYet))
    (by decide +kernel)

end Kevlar.Sched
