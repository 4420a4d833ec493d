import Kevlar.RunQueuePlaces

/-!
# Stopped processes

`stop` sets the state of the running process and leaves it. Only SIGCONT, SIGKILL and an
exit of the thread group should make such a process runnable again, but `resume` does so
whatever the reason, and it is called for every signal and every wake-up. A process that has
no entry in a wait queue and no timer when it stops, and ignores the other signals that it is
sent, keeps its state and is in no run queue.
-/
namespace Kevlar.Sched
open Kernel Instr Function List Concurrent

/-- A signal that ends a stop. -/
def endsStop (sig : Signal) : Bool := sig = sigcont || sig = sigkill

/-- Calls that send SIGCONT or SIGKILL to the process or make its thread group exit. -/
def Call.frees (p : Pid) : Call → Bool
  | .kill q sig => q = p && endsStop sig
  | .exitGroup siblings _ => siblings.contains p
  | _ => false

/-- Code that is still to be executed and ends a stop: that of such a call, and a resume. -/
def Instr.frees (p : Pid) : Instr → Bool
  | .any (.sendSignal q sig) => q = p && endsStop sig
  | .any (.queueSignal q sig) => q = p && endsStop sig
  | .any (.resume q _) => q = p
  | .any (.continueProcess q) => q = p
  | .any (.setRunnable q) => q = p
  | .any (.setState q _) => q = p
  | .any (.restore q _) => q = p
  | _ => false

/-- No call sends SIGCONT or SIGKILL to the process or makes its thread group exit. -/
def Undisturbed (p : Pid) : KMove → Prop
  | .call _ c => c.frees p = false
  | _ => True

/-- No timer of the process expires, and a signal that is queued for it and does not end a
stop is one that it ignores. -/
def Spared (p : Pid) (cfg : KConfig) : KMove → Prop
  | .call _ c => c ≠ .expire p
  | .act a _ => ∀ sig rest, cfg.stack a = .any (.queueSignal p sig) :: rest →
      endsStop sig = false → cfg.shared.getAction p sig = .ignore ∧ sig ≠ sigstop
  | .world _ => True

/-! ## The code of `stop` -/

/-- What `stop` does after it has set the state. -/
def stopRest (p : Pid) : List Instr :=
  [.any (.notifyParent p), .any (.wakeTest joinWaitQueue none), .own .yield]

/-- A process that has stopped and still runs is going to leave the processor, and until
then only executes code that does not concern its own state. -/
def Leaving (stack : List Instr) : Prop := ∃ l : List Act, stack = l.map .any ++ [.own .yield]

structure Stopping (cfg : KConfig) : Prop where
  code : ∀ p sig, .own (.setState (.stopped sig)) ∈ cfg.stack (.proc p) →
    cfg.stack (.proc p) = .own (.setState (.stopped sig)) :: stopRest p
  leaving : ∀ p sig c, cfg.shared.state p = .stopped sig →
    cfg.shared.cpus c = ⟨some p, .run⟩ → Leaving (cfg.stack (.proc p))

variable {s : Kernel} {p : Pid} {cfg cfg' : KConfig} {a : Agent}

/-- A processor comes back to a process only by taking it from a run queue. -/
lemma Switches.run_of_run {s' : Kernel} {c c' : ℕ} (h : Switches s c (s.cpus c).stage s')
    (hrun : s'.cpus c' = ⟨some p, .run⟩) :
    s.cpus c' = ⟨some p, .run⟩ ∨ (s.cpus c).stage.next = some p := by
  by_cases hc : c' = c
  · subst hc
    right
    generalize hstage : (s.cpus c').stage = stage at h
    cases h <;> simp_all [setStage, Stage.next]
  · left
    generalize (s.cpus c).stage = stage at h
    cases h <;> simpa [setStage, update_of_ne hc] using hrun

/-! ## One step -/

section Steps

variable {s s' : Kernel} {a : Agent} {i : Instr} {x : Choice} {more : List Instr} {p : Pid}

/-- Only the process itself becomes stopped. -/
lemma stopped_of_exec {sig : Signal} (h : exec s a i x = some (s', more))
    (hexits : i.exits = true) (hstopped : s'.state p = .stopped sig) :
    s.state p = .stopped sig ∨ a = .proc p ∧ i = .own (.setState (.stopped sig)) := by
  obtain ⟨hold, -⟩ | ⟨ha, hi⟩ := asleep_of_exec h hexits rfl hstopped
  · exact .inl hold
  · refine .inr ⟨ha, hi.resolve_right ?_⟩
    rintro ⟨hne, -⟩
    cases hne

/-- A signal that is ignored has no effect. -/
lemma queueSignal_ignored {sig : Signal} (h : exec s a (.any (.queueSignal p sig)) x =
    some (s', more)) (hignored : s.getAction p sig = .ignore) (hkill : sig ≠ sigkill)
    (hstop : sig ≠ sigstop) : more = [] := by
  rw [exec.eq_def] at h
  split at h
  · simp only [Act.exec.eq_def] at h
    rw [if_pos ⟨hignored, hkill, hstop⟩] at h
    cases h
    rfl
  · cases h

lemma notMem_firstOf (hno : NoEntry s p) (q : QueueId) (max : Option ℕ) :
    p ∉ s.firstOf q max := by
  intro hp
  refine hno q ?_
  rw [← @firstOf_append_drop s q max]
  exact mem_append_left _ hp

/-- Only the process itself gets an entry in a wait queue. -/
lemma noEntry_exec (h : exec s a i x = some (s', more)) (hno : NoEntry s p)
    (henter : ∀ q k, ¬(a = .proc p ∧ i = .own (.enter q k))) : NoEntry s' p := by
  intro r
  obtain ⟨j, l, rfl, rfl, hdoes⟩ | ⟨q, j, rfl, rfl, -, hdoes⟩ := exec_cases h
  · cases hdoes with
    | decides hsame _ =>
      rw [hsame.waitQueues]
      exact hno r
    | take q max =>
      rw [takeFrom_waitQueues]
      split_ifs
      · exact fun hp => hno q (mem_of_mem_drop hp)
      · exact hno r
    | @requeue q q' max _ =>
      rw [moveTo_waitQueues]
      split_ifs
      · simp [hno q', notMem_firstOf hno q (some max)]
      · exact fun hp => hno q (mem_of_mem_drop hp)
      · exact hno r
    | setState | dequeue | resume | restore | enqueue | setRunnable => exact hno r
  · cases hdoes with
    | futex hsame _ =>
      rw [hsame.waitQueues]
      exact hno r
    | enter q' k =>
      have hq : p ≠ q := fun heq => henter q' k ⟨by rw [heq], rfl⟩
      rw [enterQueue_waitQueues]
      split_ifs
      · simp [hno q', hq]
      · exact hno r
    | removeSelf q' =>
      rw [removeFrom_waitQueues]
      split_ifs
      · exact fun hp => hno q' (mem_of_mem_filter hp)
      · exact hno r
    | sleep | exitKept | exitState | setState | yield | ret => exact hno r

/-- No code brings a stop with it but the call itself. -/
lemma stop_not_mem_exec {sig : Signal} (h : exec s a i x = some (s', more)) :
    .own (.setState (.stopped sig)) ∉ more := by
  obtain ⟨j, l, rfl, rfl, -⟩ | ⟨q, j, rfl, rfl, hruns, hdoes⟩ := exec_cases h
  · simp
  · cases hdoes with
    | sleep hstep | futex _ hstep => cases hstep <;> simp
    | setState | exitKept | exitState | yield | enter | removeSelf | ret => simp

end Steps

lemma Stopping.boot (h : Boot cfg) : Stopping cfg where
  code p sig hi := by
    rw [h.stack] at hi
    cases hi
  leaving p sig c _ hrun := by
    rw [h.cpus] at hrun
    cases hrun

lemma Stopping.call {c : Call} {is : List Instr} (h : Stopping cfg) (hstack : cfg.stack a = [])
    (hbody : c.body a = some is) :
    Stopping { cfg with stack := update cfg.stack a is } where
  code p sig hi := by
    dsimp only at hi ⊢
    by_cases ha : Agent.proc p = a
    · subst ha
      rw [update_self] at hi ⊢
      generalize hstop : own (.setState (.stopped sig)) = i at hi
      cases starts_body hbody i hi <;> cases hstop
      cases hbody
      rfl
    · rw [update_of_ne ha] at hi ⊢
      exact h.code p sig hi
  leaving p sig c' hstopped hrun := by
    dsimp only at hstopped hrun ⊢
    have hleaving := h.leaving p sig c' hstopped hrun
    by_cases ha : Agent.proc p = a
    · subst ha
      obtain ⟨l, hl⟩ := hleaving
      rw [hstack] at hl
      simp at hl
    · rwa [update_of_ne ha]

lemma Stopping.act {i : Instr} {x : Choice} {rest more : List Instr} (h : Stopping cfg)
    (hplaced : Placed cfg) (hstacks : StacksOk cfg) (hstack : cfg.stack a = i :: rest)
    (hexec : exec cfg.shared a i x = some (s, more)) :
    Stopping ⟨s, update cfg.stack a (more ++ rest)⟩ where
  code p sig hi := by
    dsimp only at hi ⊢
    by_cases ha : Agent.proc p = a
    · subst ha
      rw [update_self] at hi
      rcases mem_append.mp hi with hi | hi
      · exact absurd hi (stop_not_mem_exec hexec)
      · have hcode := h.code p sig (by rw [hstack]; exact mem_cons_of_mem _ hi)
        rw [hstack] at hcode
        obtain ⟨-, rfl⟩ := cons.inj hcode
        simp [stopRest] at hi
    · rw [update_of_ne ha] at hi ⊢
      exact h.code p sig hi
  leaving p sig c hstopped hrun := by
    dsimp only at hstopped hrun ⊢
    have hexits := hstacks.exits a i (by rw [hstack]; exact mem_cons_self)
    -- the process did not leave its processor in this step
    have hstays : cfg.shared.cpus c = ⟨some p, .run⟩ ∧ ¬(a = .proc p ∧ i = .own .yield) := by
      rcases exec_cpus hexec with hcpus | ⟨q, rfl, rfl, hq, hcpus⟩
      · rw [hcpus] at hrun
        refine ⟨hrun, ?_⟩
        rintro ⟨rfl, rfl⟩
        obtain ⟨j, l, hj, -⟩ | ⟨q, j, -, hj, hruns, hdoes⟩ := exec_cases hexec
        · cases hj
        · cases hj
          cases hdoes with
          | sleep hstep | futex _ hstep => cases hstep
          | yield =>
            have hcpu := congrFun hcpus x.cpu
            simp only [setStage, update_self, hruns] at hcpu
            cases hcpu
      · rw [hcpus] at hrun
        by_cases hc : c = x.cpu
        · subst hc
          rw [update_self] at hrun
          cases hrun
        · rw [update_of_ne hc] at hrun
          refine ⟨hrun, ?_⟩
          rintro ⟨hq', -⟩
          cases hq'
          obtain ⟨pl, hp⟩ := hplaced p
          exact hc (hp.alone c x.cpu (by rw [hrun]) (by rw [hq]))
    by_cases ha : Agent.proc p = a
    · subst ha
      rw [update_self]
      rcases stopped_of_exec hexec hexits hstopped with hold | ⟨-, rfl⟩
      · obtain ⟨l, hl⟩ := h.leaving p sig c hold hstays.1
        rw [hstack] at hl
        cases l with
        | nil => exact absurd ⟨rfl, (cons.inj hl).1⟩ hstays.2
        | cons j l =>
          obtain ⟨rfl, rfl⟩ := cons.inj hl
          obtain ⟨j', l', hj, rfl, -⟩ | ⟨q, j', -, hj, -⟩ := exec_cases hexec
          · exact ⟨l' ++ l, by simp⟩
          · cases hj
      · have hcode := h.code p sig (by rw [hstack]; exact mem_cons_self)
        rw [hstack] at hcode
        obtain ⟨-, rfl⟩ := cons.inj hcode
        obtain ⟨j, l, hj, -⟩ | ⟨q, j, -, hj, -, hdoes⟩ := exec_cases hexec
        · cases hj
        · cases hj
          cases hdoes with
          | sleep hstep | futex _ hstep => cases hstep
          | setState => exact ⟨[.notifyParent p, .wakeTest joinWaitQueue none], rfl⟩
    · rw [update_of_ne ha]
      rcases stopped_of_exec hexec hexits hstopped with hold | ⟨hp, -⟩
      · exact h.leaving p sig c hold hstays.1
      · exact absurd hp.symm ha

lemma Stopping.world {e : Event} (h : Stopping cfg) (hplaced : Placed cfg)
    (hworld : world cfg.shared e = some s) :
    Stopping { cfg with shared := s } where
  code := h.code
  leaving p sig c hstopped hrun := by
    have hold : cfg.shared.state p = .stopped sig := by
      rcases (world_keeps hworld).2.2.1 p with heq | ⟨-, heq⟩
      · rwa [heq] at hstopped
      · rw [heq] at hstopped
        cases hstopped
    suffices hcpu : cfg.shared.cpus c = ⟨some p, .run⟩ from h.leaving p sig c hold hcpu
    cases e with
    | switchStep c' =>
      rcases (switches hworld).run_of_run hrun with hcpu | hnext
      · exact hcpu
      · obtain ⟨pl, hp⟩ := hplaced p
        have hpl := (hp.incoming c').mp hnext
        rcases hp.asleep (by rw [hold]; rfl) with hno | ⟨c'', hno⟩
        all_goals
          rw [hpl] at hno
          cases hno
    | preempt c' =>
      rw [Sched.world] at hworld
      split at hworld
      · cases hworld
        by_cases hc : c = c'
        · subst hc
          simp [setStage] at hrun
        · simpa [setStage, update_of_ne hc] using hrun
      · cases hworld
    | spawn q parent space =>
      rw [Sched.world] at hworld
      split at hworld
      · cases hworld
      · cases hworld
        exact hrun
    | store | setMask | setAction | takeSignals =>
      cases hworld
      exact hrun

/-! ## Runs -/

/-- What holds in every run in which processes are resumed when they have left. -/
structure Settled (cfg : KConfig) : Prop where
  placed : Placed cfg
  stacksOk : StacksOk cfg
  stopping : Stopping cfg

lemma Settled.boot (h : Boot cfg) : Settled cfg :=
  ⟨.boot h, h.orderly.fine, .boot h⟩

lemma Settled.next (h : Settled cfg) (hnext : kernelMachine.Next SettledResume cfg cfg') :
    Settled cfg' := by
  refine ⟨h.placed.next h.stacksOk hnext, stacksOk_of_runs (.single hnext) h.stacksOk, ?_⟩
  obtain ⟨move, -, hstep⟩ := hnext
  cases move with
  | call a c =>
    obtain ⟨is, hstack, hbody, rfl⟩ := Machine.step_call hstep
    exact h.stopping.call hstack hbody
  | act a x =>
    obtain ⟨i, rest, s, more, hstack, hexec, rfl⟩ := Machine.step_act hstep
    exact h.stopping.act h.placed h.stacksOk hstack hexec
  | world e =>
    obtain ⟨s, hworld, rfl⟩ := Machine.step_world hstep
    exact h.stopping.world h.placed hworld

lemma Settled.runs (h : Settled cfg) (hruns : kernelMachine.Runs SettledResume cfg cfg') :
    Settled cfg' := by
  induction hruns with
  | refl => exact h
  | tail _ hnext ih => exact ih.next hnext

/-- No code is under way that ends a stop of the process. -/
def Quiet (p : Pid) (cfg : KConfig) : Prop := ∀ a, ∀ i ∈ cfg.stack a, i.frees p = false

/-- The process is stopped and waits nowhere, and no code is under way that ends the stop. -/
structure Held (p : Pid) (sig : Signal) (cfg : KConfig) : Prop where
  born : cfg.shared.born p = true
  stopped : cfg.shared.state p = .stopped sig
  noEntry : NoEntry cfg.shared p
  quiet : Quiet p cfg

lemma frees_body {a : Agent} {c : Call} {is : List Instr} {p : Pid} (h : c.body a = some is)
    (hc : c.frees p = false) (hexpire : c ≠ .expire p) : ∀ i ∈ is, i.frees p = false := by
  intro i hi
  cases starts_body h i hi with
  | expire q =>
    refine decide_eq_false fun hq => hexpire ?_
    rw [hq]
  | exitSibling info hmem =>
    refine decide_eq_false fun hq => ?_
    subst hq
    rw [Call.frees, contains_iff_mem.mpr hmem] at hc
    cases hc
  | sendSignal => exact hc
  | _ => rfl

/-- A resume of the process comes from a signal or from its entry in a queue. -/
lemma frees_exec {s' : Kernel} {i : Instr} {x : Choice} {more : List Instr}
    (h : exec s a i x = some (s', more)) (hi : i.frees p = false) (hno : NoEntry s p)
    (hsignal : ∀ sig, i = .any (.queueSignal p sig) →
      s.getAction p sig = .ignore ∧ sig ≠ sigkill ∧ sig ≠ sigstop) :
    ∀ j ∈ more, j.frees p = false := by
  obtain ⟨j, l, rfl, rfl, hdoes⟩ | ⟨q, j, -, rfl, -, hdoes⟩ := exec_cases h
  · cases hdoes with
    | @resume q why interrupts _ =>
      have hq : q ≠ p := of_decide_eq_false hi
      intro i hi
      simp only [resumed] at hi
      split_ifs at hi <;> simp at hi
      · rw [hi]
        exact decide_eq_false hq
      · rcases hi with rfl | rfl <;> rfl
      · rw [hi]
        rfl
    | take q max =>
      intro i hi
      rw [map_map] at hi
      obtain ⟨q', hq', rfl⟩ := mem_map.mp hi
      refine decide_eq_false ?_
      rintro rfl
      exact notMem_firstOf hno q max hq'
    | decides _ hdecides =>
      cases hdecides with
      | queueSignal q sig =>
        by_cases hq : q = p
        · subst hq
          obtain ⟨hignored, hkill, hstop⟩ := hsignal sig rfl
          rw [queueSignal_ignored h hignored hkill hstop]
          exact fun _ hj => absurd hj not_mem_nil
        · simp [frees, hq]
      | _ => simp_all [frees, endsStop, sigchld, sigcont, sigkill]
    | setRunnable => simp [frees]
    | setState | dequeue | restore | enqueue | requeue => simp
  · cases hdoes with
    | sleep hstep | futex _ hstep => cases hstep <;> simp [frees]
    | setState | exitKept | exitState | yield | enter | removeSelf | ret => simp [frees]

section Held

variable {cfg cfg' : KConfig} {p : Pid} {sig : Signal}

/-- A stopped process executes nothing that sets its own state. -/
lemma Held.own_ne (h : Held p sig cfg) (hset : Settled cfg) {c : ℕ} {i : OwnAct}
    {rest : List Instr} (hrun : cfg.shared.cpus c = ⟨some p, .run⟩)
    (hstack : cfg.stack (.proc p) = .own i :: rest) : i = .yield := by
  obtain ⟨l, hl⟩ := hset.stopping.leaving p sig c h.stopped hrun
  rw [hstack] at hl
  cases l with
  | nil => exact own.inj (cons.inj hl).1
  | cons j l => cases (cons.inj hl).1

lemma Held.state {a : Agent} {i : Instr} {x : Choice} {rest more : List Instr} {s : Kernel}
    (h : Held p sig cfg) (hset : Settled cfg) (hstack : cfg.stack a = i :: rest)
    (hexec : exec cfg.shared a i x = some (s, more)) : s.state p = cfg.shared.state p := by
  have hquiet := h.quiet a i (by rw [hstack]; exact mem_cons_self)
  have hupdate : ∀ {q : Pid} {st : ProcessState}, p ≠ q →
      update cfg.shared.state q st p = cfg.shared.state p :=
    fun hne => update_of_ne hne _ _
  obtain ⟨j, l, rfl, rfl, hdoes⟩ | ⟨q, j, rfl, rfl, hrun, hdoes⟩ := exec_cases hexec
  · cases hdoes with
    | decides hsame _ => rw [hsame.state]
    | setState q st | restore q st | setRunnable | resume =>
      exact hupdate (Ne.symm (of_decide_eq_false hquiet))
    | dequeue | enqueue | take | requeue => rfl
  · by_cases hq : p = q
    · subst hq
      obtain rfl := h.own_ne hset hrun hstack
      cases hdoes with
      | sleep | yield => rfl
      | futex hsame _ => rw [hsame.state]
    · cases hdoes with
      | sleep | exitKept | yield | removeSelf | ret => rfl
      | futex hsame _ => rw [hsame.state]
      | setState | exitState | enter => exact hupdate hq

lemma Quiet.ignored {a : Agent} {x : Choice} {i : Instr} {rest : List Instr}
    (h : Quiet p cfg) (hspared : Spared p cfg (.act a x)) (hstack : cfg.stack a = i :: rest)
    {sig : Signal} (hi : i = .any (.queueSignal p sig)) :
    cfg.shared.getAction p sig = .ignore ∧ sig ≠ sigkill ∧ sig ≠ sigstop := by
  subst hi
  have hquiet := h a _ (by rw [hstack]; exact mem_cons_self)
  have hends : endsStop sig = false := by simpa [Instr.frees] using hquiet
  obtain ⟨hignored, hstop⟩ := hspared sig rest hstack hends
  exact ⟨hignored, fun hkill => by simp [endsStop, hkill] at hends, hstop⟩

lemma Quiet.next {move : KMove} (h : Quiet p cfg) (hno : NoEntry cfg.shared p)
    (hundisturbed : Undisturbed p move) (hspared : Spared p cfg move)
    (hstep : kernelMachine.step cfg move = some cfg') : Quiet p cfg' := by
  intro b j hj
  cases move with
  | call a c =>
    obtain ⟨is, hstack, hbody, rfl⟩ := Machine.step_call hstep
    dsimp only at hj
    by_cases hb : b = a
    · subst hb
      rw [update_self] at hj
      exact @frees_body b c is p hbody hundisturbed hspared j hj
    · rw [update_of_ne hb] at hj
      exact h b j hj
  | act a x =>
    obtain ⟨i, rest, s, more, hstack, hexec, rfl⟩ := Machine.step_act hstep
    dsimp only at hj
    by_cases hb : b = a
    · subst hb
      rw [update_self] at hj
      rcases mem_append.mp hj with hj | hj
      · exact frees_exec hexec (h b i (by rw [hstack]; exact mem_cons_self)) hno
          (fun sig hi => h.ignored hspared hstack hi) j hj
      · exact h b j (by rw [hstack]; exact mem_cons_of_mem _ hj)
    · rw [update_of_ne hb] at hj
      exact h b j hj
  | world e =>
    obtain ⟨s, -, rfl⟩ := Machine.step_world hstep
    exact h b j hj

lemma Held.next (h : Held p sig cfg) (hset : Settled cfg)
    (hnext : kernelMachine.Next
      (fun cfg move => Spared p cfg move ∧ Undisturbed p move) cfg cfg') :
    Held p sig cfg' := by
  obtain ⟨move, ⟨hspared, hundisturbed⟩, hstep⟩ := hnext
  have hquiet := h.quiet.next h.noEntry hundisturbed hspared hstep
  cases move with
  | call a c =>
    obtain ⟨is, -, -, rfl⟩ := Machine.step_call hstep
    exact ⟨h.born, h.stopped, h.noEntry, hquiet⟩
  | act a x =>
    obtain ⟨i, rest, s, more, hstack, hexec, rfl⟩ := Machine.step_act hstep
    have hstate := h.state hset hstack hexec
    refine ⟨by rw [← h.born, (exec_born_space hexec).1], hstate.trans h.stopped, ?_, hquiet⟩
    refine noEntry_exec hexec h.noEntry ?_
    rintro q k ⟨rfl, rfl⟩
    cases h.own_ne hset (cpu_of_exec_own hexec) hstack
  | world e =>
    obtain ⟨s, hworld, rfl⟩ := Machine.step_world hstep
    obtain ⟨hqueues, -, hstate, hborn⟩ := world_keeps hworld
    refine ⟨(hborn p h.born).1, ?_, fun q => by rw [hqueues]; exact h.noEntry q, hquiet⟩
    rcases hstate p with heq | ⟨hunborn, -⟩
    · exact heq.trans h.stopped
    · rw [h.born] at hunborn
      cases hunborn

end Held

/-- A process is stopped, has no entry in a wait queue, and no resume of it is under way. If
sleeping processes are only resumed when they have left their processor, no timer of the
process expires and it ignores the signals that it is sent, then it stays stopped and is in no
run queue until a call sends it SIGCONT or SIGKILL or makes its thread group exit. -/
theorem stays_stopped {cfg₀ cfg₁ cfg₂ : KConfig} {p : Pid} {sig : Signal} (hboot : Boot cfg₀)
    (hbefore : kernelMachine.Runs SettledResume cfg₀ cfg₁) (hheld : Held p sig cfg₁)
    (hafter : kernelMachine.Runs (fun cfg move => SettledResume cfg move ∧
      Spared p cfg move ∧ Undisturbed p move) cfg₁ cfg₂) :
    cfg₂.shared.state p = .stopped sig ∧ cfg₂.shared.runQueues.count p = 0 := by
  have hboth : Settled cfg₂ ∧ Held p sig cfg₂ := by
    have hset := (Settled.boot hboot).runs hbefore
    induction hafter with
    | refl => exact ⟨hset, hheld⟩
    | tail _ hnext ih =>
      exact ⟨ih.1.next (hnext.mono fun _ _ hok => hok.1),
        ih.2.next ih.1 (hnext.mono fun _ _ hok => hok.2)⟩
  obtain ⟨hset, hheld⟩ := hboth
  refine ⟨hheld.stopped, ?_⟩
  obtain ⟨pl, hp⟩ := hset.placed p
  rw [hp.queued]
  rcases hp.asleep (by rw [hheld.stopped]; rfl) with rfl | ⟨c, rfl⟩ <;> rfl

/-- A condition on the next move with which nothing is resumed or enters a queue, no stop is
ended, and the signals that the process is sent are ignored. -/
def leavesAlone (p : Pid) (cfg : KConfig) (move : KMove) : Bool :=
  resumesNothing cfg move && match move with
    | .call _ (.expire q) => q ≠ p
    | .call _ c => !c.frees p
    | .act a _ =>
      match cfg.stack a with
      | .any (.queueSignal q sig) :: _ =>
        q ≠ p || cfg.shared.getAction q sig = .ignore && sig ≠ sigstop
      | .own (.enter ..) :: _ => false
      | _ => true
    | .world _ => true

lemma spared_of_leavesAlone {move : KMove} (h : leavesAlone p cfg move = true) :
    SettledResume cfg move ∧ Spared p cfg move ∧ Undisturbed p move := by
  obtain ⟨hnothing, hmove⟩ := Bool.and_eq_true_iff.mp h
  refine ⟨settledResume_of_resumesNothing cfg move hnothing, ?_⟩
  cases move with
  | call a c =>
    cases c with
    | expire q =>
      refine ⟨fun heq => ?_, rfl⟩
      cases heq
      simp at hmove
    | _ => exact ⟨(fun heq => by cases heq), by simpa [Undisturbed] using hmove⟩
  | act a x =>
    refine ⟨fun sig rest hstack _ => ?_, trivial⟩
    simpa [hstack] using hmove
  | world e => exact ⟨trivial, trivial⟩

lemma quiet_of_leavesAlone (hquiet : Quiet p cfg) (hno : NoEntry cfg.shared p)
    (hruns : kernelMachine.Runs (fun cfg move => leavesAlone p cfg move = true) cfg cfg') :
    Quiet p cfg' ∧ NoEntry cfg'.shared p := by
  induction hruns with
  | refl => exact ⟨hquiet, hno⟩
  | tail _ hnext ih =>
    obtain ⟨move, hok, hstep⟩ := hnext
    obtain ⟨-, hspared, hundisturbed⟩ := spared_of_leavesAlone hok
    refine ⟨ih.1.next ih.2 hundisturbed hspared hstep, ?_⟩
    cases move with
    | call a c =>
      obtain ⟨is, -, -, rfl⟩ := Machine.step_call hstep
      exact ih.2
    | act a x =>
      obtain ⟨i, rest, s, more, hstack, hexec, rfl⟩ := Machine.step_act hstep
      refine noEntry_exec hexec ih.2 ?_
      rintro q k ⟨rfl, rfl⟩
      simp [leavesAlone, hstack] at hok
    | world e =>
      obtain ⟨s, hworld, rfl⟩ := Machine.step_world hstep
      intro q
      rw [(world_keeps hworld).1]
      exact ih.2 q

/-- A process ignores a signal and stops. Another one sends it the signal and wakes all
waiters of a queue. -/
theorem stays_stopped_two_processes : ∃ cfg : KConfig, (cfg.shared.cpus 0).current = some 2 ∧
    cfg.shared.state 1 = .stopped sigstop ∧ cfg.shared.runQueues.count 1 = 0 := by
  have hplay : ((kernelMachine.play (leavesAlone 1) bootConfig
      (startOn 0 1 ++ [.world (.setAction 1 10 .ignore), .call (.proc 1) (.stop sigstop)] ++
        replicate 4 (actOn 0 1 .notYet) ++ switchTo 0)).any fun cfg₁ =>
      cfg₁.shared.born 1 && cfg₁.shared.state 1 = .stopped sigstop &&
        (kernelMachine.play (leavesAlone 1) cfg₁ (startOn 0 2 ++
          [.call (.proc 2) (.kill 1 10), actOn 0 2 .notYet, actOn 0 2 .notYet,
            .call (.proc 2) (.wakeAll 1), actOn 0 2 .notYet])).any fun cfg₂ =>
          (cfg₂.shared.cpus 0).current = some 2) = true := by decide +kernel
  obtain ⟨cfg₁, hbefore, hplay⟩ := (Option.any_eq_true _ _).mp hplay
  obtain ⟨hheld, hplay⟩ := Bool.and_eq_true_iff.mp hplay
  obtain ⟨hborn, hstopped⟩ := Bool.and_eq_true_iff.mp hheld
  obtain ⟨cfg₂, hafter, hend⟩ := (Option.any_eq_true _ _).mp hplay
  obtain ⟨hquiet, hno⟩ := @quiet_of_leavesAlone 1 bootConfig cfg₁
    (fun _ _ hi => absurd hi not_mem_nil) (fun _ => not_mem_nil)
    (Machine.runs_of_play (fun _ _ h => h) hbefore)
  exact ⟨cfg₂, of_decide_eq_true hend, stays_stopped boot_bootConfig
    (Machine.runs_of_play (fun _ _ h => (spared_of_leavesAlone h).1) hbefore)
    ⟨hborn, of_decide_eq_true hstopped, hno, hquiet⟩
    (Machine.runs_of_play (fun _ _ h => spared_of_leavesAlone h) hafter)⟩

/-- Any signal resumes a stopped process. -/
theorem signal_continues_stopped : ∃ cfg₁ cfg₂,
    kernelMachine.Runs (fun _ _ => True) bootConfig cfg₁ ∧
      cfg₁.shared.state 1 = .stopped sigstop ∧
      kernelMachine.Runs (fun _ move => Undisturbed 1 move) cfg₁ cfg₂ ∧
      cfg₂.shared.state 1 = .runnable ∧ 1 ∈ cfg₂.shared.runQueues (RunQueues.slot 0) := by
  have hplay : ((kernelMachine.play (fun _ _ => true) bootConfig
      (startOn 0 1 ++ startOn 1 2 ++ [.call (.proc 1) (.stop sigstop)] ++
        replicate 4 (actOn 0 1 .notYet) ++ switchTo 0)).any fun cfg₁ =>
      cfg₁.shared.state 1 = .stopped sigstop &&
        (kernelMachine.play (fun _ move => !(match move with
            | .call _ c => c.frees 1
            | _ => false)) cfg₁
          ([.call (.proc 2) (.kill 1 10)] ++ replicate 5 (actOn 1 2 .notYet))).any
          fun cfg₂ => cfg₂.shared.state 1 = .runnable ∧
            1 ∈ cfg₂.shared.runQueues (RunQueues.slot 0)) = true := by decide +kernel
  obtain ⟨cfg₁, hbefore, hplay⟩ := (Option.any_eq_true _ _).mp hplay
  obtain ⟨hstopped, hplay⟩ := Bool.and_eq_true_iff.mp hplay
  obtain ⟨cfg₂, hafter, hend⟩ := (Option.any_eq_true _ _).mp hplay
  refine ⟨cfg₁, cfg₂, Machine.runs_of_play (fun _ _ _ => trivial) hbefore,
    of_decide_eq_true hstopped, Machine.runs_of_play (fun _ move h => ?_) hafter,
    of_decide_eq_true hend⟩
  cases move with
  | call a c => simpa [Undisturbed] using h
  | act | world => trivial

end Kevlar.Sched
