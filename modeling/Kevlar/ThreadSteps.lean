import Kevlar.KernelThreads

/-!
# What a step of the kernel can do

One statement for the instructions that any code may execute and one for those of a
process about itself, by what they do to the states of processes, to the run queues and
to the wait queues. Everything else that instructions change is left out.
-/
namespace Kevlar.Sched
open Function List

/-- Two states of the kernel agree on processes, processors and queues. -/
structure SameCore (s s' : Kernel) : Prop where
  state : s'.state = s.state
  contextSaved : s'.contextSaved = s.contextSaved
  born : s'.born = s.born
  runQueues : s'.runQueues = s.runQueues
  cpus : s'.cpus = s.cpus
  waitQueues : s'.waitQueues = s.waitQueues
  space : s'.space = s.space
  log : s'.log = s.log

lemma SameCore.refl (s : Kernel) : SameCore s s := ⟨rfl, rfl, rfl, rfl, rfl, rfl, rfl, rfl⟩

/-- Instructions that only decide what to execute next, with what they decide on. -/
inductive Decides (s : Kernel) : Act → List Act → Prop
  | forget (p : Pid) : Decides s (.forget p) []
  | awaitSaved {p : Pid} : s.contextSaved p = true → Decides s (.awaitSaved p) []
  | notStopped (p : Pid) : Decides s (.continueProcess p) []
  | stopped {p : Pid} {sig : Signal} : s.state p = .stopped sig →
      Decides s (.continueProcess p) [.setRunnable p]
  | noParent (p : Pid) : Decides s (.notifyParent p) []
  | notifyParent (p parent : Pid) : Decides s (.notifyParent p) [.sendSignal parent sigchld]
  | sendSignal (p : Pid) (sig : Signal) : Decides s (.sendSignal p sig) [.queueSignal p sig]
  | sendCont (p : Pid) :
      Decides s (.sendSignal p sigcont) [.continueProcess p, .queueSignal p sigcont]
  | ignored (p : Pid) (sig : Signal) : Decides s (.queueSignal p sig) []
  | queueSignal (p : Pid) (sig : Signal) : Decides s (.queueSignal p sig)
      [.resume p (.signal sig), .wakeTest pollWaitQueue none]
  | noWaiters {q : QueueId} {max : Option ℕ} :
      (s.waitQueues q).waiterCount = 0 ∨ max = some 0 → Decides s (.wakeTest q max) []
  | wakeTest (q : QueueId) (max : Option ℕ) : Decides s (.wakeTest q max) [.take q max]
  | noRequeue (q q' : QueueId) (max : ℕ) : Decides s (.requeueTest q q' max) []
  | requeueTest (q q' : QueueId) (max : ℕ) :
      Decides s (.requeueTest q q' max) [.requeue q q' max]

/-- Everything that an instruction of agent `a` can do. -/
inductive Act.Does (s : Kernel) (a : Agent) : Act → Kernel → List Act → Prop
  | decides {i : Act} {s' : Kernel} {more : List Act} :
      SameCore s s' → Decides s i more → Does s a i s' more
  | setState (p : Pid) (st : ProcessState) : Does s a (.setState p st) (s.setState p st) []
  | dequeue (p : Pid) : Does s a (.dequeue p) { s with runQueues := s.runQueues.remove p } []
  | resume {p : Pid} (why : Cause) (interrupts : Bool) : s.born p = true →
      Does s a (.resume p why) (s.storeState p .runnable)
        (resumed p why (s.state p) interrupts)
  | restore (p : Pid) (st : ProcessState) : Does s a (.restore p st) (s.storeState p st) []
  | enqueue (p : Pid) (front : Bool) : Does s a (.enqueue p front)
      { s with
        runQueues :=
          if front then s.runQueues.enqueueFront s.online p else s.runQueues.enqueue s.online p } []
  | setRunnable {p : Pid} : s.born p = true → Does s a (.setRunnable p)
      (s.storeState p .runnable) [.enqueue p false, .notifyParent p, .wakeTest joinWaitQueue none]
  | take (q : QueueId) (max : Option ℕ) : Does s a (.take q max) (s.takeFrom a q max)
      ((s.firstOf q max).map fun p => .resume p .wake)
  | requeue {q q' : QueueId} (max : ℕ) : q ≠ q' →
      Does s a (.requeue q q' max) (s.moveTo a q q' max) []

variable {s s' : Kernel} {a : Agent} {x : Choice} {p : Pid} {more : List Instr} {i : Instr}

lemma Act.does {i : Act} {more : List Act} (h : i.exec s a x = some (s', more)) :
    Act.Does s a i s' more := by
  cases i with
  | setState p st =>
    cases h
    exact .setState p st
  | dequeue p =>
    cases h
    exact .dequeue p
  | forget p =>
    cases h
    exact .decides ⟨rfl, rfl, rfl, rfl, rfl, rfl, rfl, rfl⟩ (.forget p)
  | resume p why =>
    rw [exec] at h
    split at h
    · cases h
      exact .resume why x.interrupts ‹_›
    · cases h
  | restore p st =>
    cases h
    exact .restore p st
  | awaitSaved p =>
    rw [exec] at h
    split at h
    · cases h
      exact .decides (.refl s) (.awaitSaved ‹_›)
    · cases h
  | enqueue p front =>
    cases h
    exact .enqueue p front
  | continueProcess p =>
    rw [exec] at h
    split at h
    · cases h
      exact .decides (.refl s) (.stopped ‹_›)
    · cases h
      exact .decides (.refl s) (.notStopped p)
  | setRunnable p =>
    rw [exec] at h
    split at h
    · cases h
      exact .setRunnable ‹_›
    · cases h
  | notifyParent p =>
    rw [exec] at h
    split at h
    · cases h
      exact .decides (.refl s) (.notifyParent p _)
    · cases h
      exact .decides (.refl s) (.noParent p)
  | sendSignal p sig =>
    rw [exec] at h
    split at h
    · by_cases hcont : sig = sigcont
      · cases h
        subst hcont
        exact .decides (.refl s) (.sendCont p)
      · rw [if_neg hcont] at h
        cases h
        exact .decides (.refl s) (.sendSignal p sig)
    · cases h
  | queueSignal p sig =>
    rw [exec] at h
    split at h
    · cases h
      exact .decides (.refl s) (.ignored p sig)
    · cases h
      exact .decides ⟨rfl, rfl, rfl, rfl, rfl, rfl, rfl, rfl⟩ (.queueSignal p sig)
  | wakeTest q max =>
    rw [exec] at h
    split at h
    · cases h
      exact .decides (.refl s) (.noWaiters ‹_›)
    · cases h
      exact .decides (.refl s) (.wakeTest q max)
  | take q max =>
    cases h
    exact .take q max
  | requeueTest q q' max =>
    rw [exec] at h
    split at h
    · cases h
      exact .decides (.refl s) (.noRequeue q q' max)
    · cases h
      exact .decides (.refl s) (.requeueTest q q' max)
  | requeue q q' max =>
    rw [exec] at h
    split at h
    · cases h
    · cases h
      exact .requeue max ‹_›

/-- The steps of a sleep that only decide where it goes on. -/
inductive SleepStep (s : Kernel) (p : Pid) (x : Choice) : OwnAct → List Instr → Prop
  | fastEnd {q k r} : sleepEnd (s.verdict p k x.answer) = some r →
      SleepStep s p x (.fastCheck q k) [.own (.ret r)]
  | fastGo {q k} : sleepEnd (s.verdict p k x.answer) = none →
      SleepStep s p x (.fastCheck q k) [.own (.pendingCheck q k)]
  | interrupted {q k} : s.hasPendingSignals p = true →
      SleepStep s p x (.pendingCheck q k) [.own (.ret (.error .eintr))]
  | uninterrupted {q k} : s.hasPendingSignals p = false →
      SleepStep s p x (.pendingCheck q k) [.own (.enter q k)]
  | recheckEnd {q k r} : sleepEnd (s.verdict p k x.answer) = some r →
      SleepStep s p x (.recheck q k)
        [.own (.removeSelf q), .own (.setState .runnable), .own (.ret r)]
  | recheckGo {q k} : sleepEnd (s.verdict p k x.answer) = none →
      SleepStep s p x (.recheck q k) [.own .yield, .own (.woken q k)]
  | wokenEnd {q k r} : sleepEnd (s.verdict p k x.answer) = some r →
      SleepStep s p x (.woken q k) [.own (.ret r)]
  | wokenGo {q k} : sleepEnd (s.verdict p k x.answer) = none →
      SleepStep s p x (.woken q k) [.own (.signalled q k)]
  | signalled {q k} : s.hasPendingSignals p = true →
      SleepStep s p x (.signalled q k) [.own (.removeSelf q), .own (.ret (.error .eintr))]
  | again {q k} : s.hasPendingSignals p = false →
      SleepStep s p x (.signalled q k) [.own (.pendingCheck q k)]
  | futexFails {addr val e} : SleepStep s p x (.futexWait addr val) [.own (.ret (.error e))]
  | futexWait {addr val} : s.readWord p addr = some val →
      SleepStep s p x (.futexWait addr val) [.own (.fastCheck (.futex addr) (.word addr val))]

/-- The instructions of the other futex calls, with the queues that they look at. -/
inductive FutexStep : OwnAct → List Instr → Prop
  | futexWake {addr max} : FutexStep (.futexWake addr max)
      [.any (.wakeTest (.futex addr) (some max)), .own .returnTotal]
  | requeueFails {addr addr2 max max2 val3 e} :
      FutexStep (.cmpRequeue addr addr2 max max2 val3) [.own (.ret (.error e))]
  | cmpRequeue {addr addr2 max max2 val3} :
      FutexStep (.cmpRequeue addr addr2 max max2 val3)
        [.any (.wakeTest (.futex addr) (some max)),
          .any (.requeueTest (.futex addr) (.futex addr2) max2), .own .returnTotal]
  | wakeOpFails {addr addr2 max max2 val3 e} :
      FutexStep (.wakeOpRead addr addr2 max max2 val3) [.own (.ret (.error e))]
  | wakeOpRead {addr addr2 max max2 val3 old new} :
      FutexStep (.wakeOpRead addr addr2 max max2 val3)
        [.own (.wakeOpWrite addr addr2 max max2 val3 old new)]
  | wakeOpOne {addr addr2 max max2 val3 old new} :
      FutexStep (.wakeOpWrite addr addr2 max max2 val3 old new)
        [.any (.wakeTest (.futex addr) (some max)), .own .returnTotal]
  | wakeOpTwo {addr addr2 max max2 val3 old new} :
      FutexStep (.wakeOpWrite addr addr2 max max2 val3 old new)
        [.any (.wakeTest (.futex addr) (some max)),
          .any (.wakeTest (.futex addr2) (some (max2 % 2 ^ 32))), .own .returnTotal]
  | clearTid {addr} : FutexStep (.clearTid addr) []
  | returnTotal {n} : FutexStep .returnTotal [.own (.ret (.ok n))]

/-- Everything that an instruction of process `p` about itself can do. -/
inductive OwnAct.Does (s : Kernel) (p : Pid) (x : Choice) :
    OwnAct → Kernel → List Instr → Prop
  | sleep {i : OwnAct} {more : List Instr} : SleepStep s p x i more → Does s p x i s more
  | futex {i : OwnAct} {s' : Kernel} {more : List Instr} : SameCore s s' → FutexStep i more →
      Does s p x i s' more
  | setState (st : ProcessState) : Does s p x (.setState st) (s.setState p st) []
  | exitKept (status : ℤ) : Does s p x (.exitState status) s []
  | exitState (status : ℤ) :
      Does s p x (.exitState status) (s.setState p (.exitedWith status)) []
  | yield : Does s p x .yield (s.setStage x.cpu .entered) []
  | enter (q : QueueId) (k : Condition) :
      Does s p x (.enter q k) (s.enterQueue p q) [.own (.recheck q k)]
  | removeSelf (q : QueueId) : Does s p x (.removeSelf q) (s.removeFrom p q) []
  | ret (r : Except Errno ℕ) : Does s p x (.ret r) (s.note (.returned p r)) []

lemma OwnAct.does {i : OwnAct} (h : i.exec s p x = some (s', more)) :
    OwnAct.Does s p x i s' more := by
  cases i with
  | setState st =>
    cases h
    exact .setState st
  | exitState status =>
    rw [exec] at h
    split at h
    · cases h
      exact .exitKept status
    · cases h
      exact .exitState status
  | yield =>
    cases h
    exact .yield
  | dead => cases h
  | fastCheck q k =>
    rw [exec] at h
    split at h
    · cases h
      exact .sleep (.fastEnd ‹_›)
    · cases h
      exact .sleep (.fastGo ‹_›)
  | pendingCheck q k =>
    rw [exec] at h
    split at h
    · cases h
      exact .sleep (.interrupted ‹_›)
    · cases h
      exact .sleep (.uninterrupted (Bool.eq_false_iff.mpr ‹_›))
  | enter q k =>
    cases h
    exact .enter q k
  | recheck q k =>
    rw [exec] at h
    split at h
    · cases h
      exact .sleep (.recheckEnd ‹_›)
    · cases h
      exact .sleep (.recheckGo ‹_›)
  | woken q k =>
    rw [exec] at h
    split at h
    · cases h
      exact .sleep (.wokenEnd ‹_›)
    · cases h
      exact .sleep (.wokenGo ‹_›)
  | signalled q k =>
    rw [exec] at h
    split at h
    · cases h
      exact .sleep (.signalled ‹_›)
    · cases h
      exact .sleep (.again (Bool.eq_false_iff.mpr ‹_›))
  | removeSelf q =>
    cases h
    exact .removeSelf q
  | ret r =>
    cases h
    exact .ret r
  | futexWait addr val =>
    rw [exec] at h
    split at h
    · cases h
      exact .sleep .futexFails
    · split at h
      · rename_i hw heq
        cases h
        exact .sleep (.futexWait (heq ▸ hw))
      · cases h
        exact .sleep .futexFails
  | futexWake addr max =>
    cases h
    exact .futex ⟨rfl, rfl, rfl, rfl, rfl, rfl, rfl, rfl⟩ .futexWake
  | cmpRequeue addr addr2 max max2 val3 =>
    rw [exec] at h
    split at h
    · cases h
      exact .futex (.refl s) .requeueFails
    · split at h
      · cases h
        exact .futex ⟨rfl, rfl, rfl, rfl, rfl, rfl, rfl, rfl⟩ .cmpRequeue
      · cases h
        exact .futex (.refl s) .requeueFails
  | wakeOpRead addr addr2 max max2 val3 =>
    rw [exec] at h
    split at h
    · cases h
      exact .futex (.refl s) .wakeOpFails
    · split at h
      · cases h
        exact .futex (.refl s) .wakeOpFails
      · cases h
        exact .futex (.refl s) .wakeOpRead
  | wakeOpWrite addr addr2 max max2 val3 old new =>
    rw [exec] at h
    split at h
    · cases h
      exact .futex ⟨rfl, rfl, rfl, rfl, rfl, rfl, rfl, rfl⟩ .wakeOpTwo
    · cases h
      exact .futex ⟨rfl, rfl, rfl, rfl, rfl, rfl, rfl, rfl⟩ .wakeOpOne
  | clearTid addr =>
    cases h
    exact .futex ⟨rfl, rfl, rfl, rfl, rfl, rfl, rfl, rfl⟩ .clearTid
  | returnTotal =>
    cases h
    exact .futex (.refl s) .returnTotal

/-- An instruction of an agent: one of its own, or one that any code may execute. -/
lemma exec_cases (h : exec s a i x = some (s', more)) :
    (∃ j l, i = .any j ∧ more = l.map .any ∧ Act.Does s a j s' l) ∨
      ∃ p j, a = .proc p ∧ i = .own j ∧ s.cpus x.cpu = ⟨some p, .run⟩ ∧
        OwnAct.Does s p x j s' more := by
  rw [exec.eq_def] at h
  split at h
  · rename_i hruns
    cases i with
    | any j =>
      obtain ⟨⟨u, l⟩, hexec, heq⟩ := Option.map_eq_some_iff.mp h
      cases heq
      exact .inl ⟨j, l, rfl, rfl, Act.does hexec⟩
    | own j =>
      cases a with
      | proc p =>
        have hcpu := of_decide_eq_true (Bool.and_eq_true_iff.mp hruns).2
        exact .inr ⟨p, j, rfl, rfl, hcpu, OwnAct.does h⟩
      | irq n => cases h
  · cases h

/-- No instruction creates a process or gives it another address space. -/
lemma exec_born_space (h : exec s a i x = some (s', more)) :
    s'.born = s.born ∧ s'.space = s.space := by
  obtain ⟨j, l, rfl, rfl, hdoes⟩ | ⟨q, j, rfl, rfl, -, hdoes⟩ := exec_cases h
  · cases hdoes with
    | decides hsame _ => exact ⟨hsame.born, hsame.space⟩
    | setState | dequeue | resume | restore | enqueue | setRunnable | take | requeue =>
      exact ⟨rfl, rfl⟩
  · cases hdoes with
    | futex hsame _ => exact ⟨hsame.born, hsame.space⟩
    | sleep | exitKept | exitState | setState | enter | removeSelf | ret | yield => exact ⟨rfl, rfl⟩

/-- An instruction leaves the processors alone, except for the one that calls `switch`. -/
lemma exec_cpus (h : exec s a i x = some (s', more)) :
    s'.cpus = s.cpus ∨ ∃ q, a = .proc q ∧ i = .own .yield ∧ s.cpus x.cpu = ⟨some q, .run⟩ ∧
      s'.cpus = update s.cpus x.cpu ⟨some q, .entered⟩ := by
  obtain ⟨j, l, rfl, rfl, hdoes⟩ | ⟨q, j, rfl, rfl, hruns, hdoes⟩ := exec_cases h
  · left
    cases hdoes with
    | decides hsame _ => exact hsame.cpus
    | setState | dequeue | resume | restore | enqueue | setRunnable | take | requeue => rfl
  · cases hdoes with
    | sleep | exitKept | exitState | setState | enter | removeSelf | ret => exact .inl rfl
    | futex hsame _ => exact .inl hsame.cpus
    | yield =>
      refine .inr ⟨q, rfl, rfl, hruns, ?_⟩
      simp [Kernel.setStage, hruns]

lemma cpu_of_exec_own {j : OwnAct} (h : exec s (.proc p) (.own j) x = some (s', more)) :
    s.cpus x.cpu = ⟨some p, .run⟩ := by
  obtain ⟨j', l, hj, -⟩ | ⟨q, j', hq, -, hcpu, -⟩ := exec_cases h
  · cases hj
  · cases hq
    exact hcpu

/-- A process that executes an instruction exists. -/
lemma born_of_exec (h : exec s (.proc p) i x = some (s', more)) : s.born p = true := by
  rw [exec.eq_def] at h
  split at h
  · exact (Bool.and_eq_true_iff.mp ‹_›).1
  · cases h

/-! ## Calls -/

/-- What a call that ends in `exit` finds there. -/
def Call.exitInfo : Call → Option ExitInfo
  | .exit info => some info
  | .exitGroup _ info => some info
  | .exitBySignal _ info => some info
  | _ => none

/-- The instructions that a call consists of when it is entered. -/
inductive Starts : Call → Instr → Prop
  | fastCheck (n : ℕ) : Starts (.sleep n true) (.own (.fastCheck (.named n) .any))
  | pendingCheck (n : ℕ) : Starts (.sleep n false) (.own (.pendingCheck (.named n) .any))
  | wakeTest {c : Call} (n : ℕ) (max : Option ℕ) : Starts c (.any (.wakeTest (.named n) max))
  | requeueTest (n n' max : ℕ) :
      Starts (.requeueTo n n' max) (.any (.requeueTest (.named n) (.named n') max))
  | sendSignal (p : Pid) (sig : Signal) : Starts (.kill p sig) (.any (.sendSignal p sig))
  | expire (p : Pid) : Starts (.expire p) (.any (.resume p .timer))
  | sleepMs : Starts .sleepMs (.own (.setState .blockedSignalable))
  | stop (sig : Signal) : Starts (.stop sig) (.own (.setState (.stopped sig)))
  | notifyParent {c : Call} (p : Pid) : Starts c (.any (.notifyParent p))
  | yield {c : Call} : Starts c (.own .yield)
  | dead {c : Call} : Starts c (.own .dead)
  | exitState {c : Call} (status : ℤ) : Starts c (.own (.exitState status))
  | exitBySignal (sig : Signal) (info : ExitInfo) :
      Starts (.exitBySignal sig info) (.own (.setState (.exitedBySignal sig)))
  | exitSibling {siblings : List Pid} {p : Pid} (info : ExitInfo) : p ∈ siblings →
      Starts (.exitGroup siblings info) (.any (.setState p (.exitedWith info.status)))
  | dequeue {c : Call} (p : Pid) : Starts c (.any (.dequeue p))
  | forget {c : Call} (p : Pid) : Starts c (.any (.forget p))
  | clearTid {c : Call} {info : ExitInfo} {addr : ℕ} : c.exitInfo = some info →
      info.clearChildTid = some addr → Starts c (.own (.clearTid addr))
  | wakeTid {c : Call} {info : ExitInfo} {addr : ℕ} : c.exitInfo = some info →
      info.clearChildTid = some addr → Starts c (.any (.wakeTest (.futex addr) (some 1)))
  | fails {c : Call} (e : Errno) : Starts c (.own (.ret (.error e)))
  | futexWait {uaddr op val val2 uaddr2 val3} :
      Starts (.futex uaddr op val val2 uaddr2 val3) (.own (.futexWait uaddr val))
  | futexWake {uaddr op val val2 uaddr2 val3} :
      Starts (.futex uaddr op val val2 uaddr2 val3) (.own (.futexWake uaddr val.toNat))
  | cmpRequeue {uaddr op val val2 uaddr2 val3} : Starts (.futex uaddr op val val2 uaddr2 val3)
      (.own (.cmpRequeue uaddr uaddr2 val.toNat val2 val3))
  | wakeOp {uaddr op val val2 uaddr2 val3} : Starts (.futex uaddr op val val2 uaddr2 val3)
      (.own (.wakeOpRead uaddr uaddr2 val.toNat val2 val3))

lemma starts_exitBody {c : Call} {info : ExitInfo} (h : c.exitInfo = some info) (p : Pid) :
    ∀ i ∈ exitBody p info, Starts c i := by
  obtain ⟨status, orphans, isThread, nocldwait, tid⟩ := info
  have hclear : ∀ addr, tid = some addr → Starts c (.own (.clearTid addr)) :=
    fun addr haddr => .clearTid h haddr
  have hwake : ∀ addr, tid = some addr → Starts c (.any (.wakeTest (.futex addr) (some 1))) :=
    fun addr haddr => .wakeTid h haddr
  cases orphans <;> cases isThread <;> cases nocldwait <;> cases tid <;>
    simp [exitBody, joinWaitQueue, vforkWaitQueue, Starts.exitState, Starts.wakeTest,
      Starts.notifyParent, Starts.forget, Starts.yield, Starts.dead, hclear, hwake]

lemma starts_body {c : Call} {is : List Instr} (h : c.body a = some is) :
    ∀ i ∈ is, Starts c i := by
  have hone : ∀ {j : Instr}, Starts c j → ∀ i ∈ [j], Starts c i := by
    intro j hj i hi
    rwa [mem_singleton.mp hi]
  cases a with
  | irq n =>
    cases c <;> cases h
    · exact hone (.wakeTest _ _)
    · exact hone (.wakeTest _ _)
    · exact hone (.wakeTest _ _)
    · exact hone (.sendSignal _ _)
    · exact hone (.expire _)
  | proc p =>
    cases c with
    | sleep n checked =>
      cases checked <;> cases h
      · exact hone (.pendingCheck n)
      · exact hone (.fastCheck n)
    | wakeOne | wakeN | wakeAll =>
      cases h
      exact hone (.wakeTest _ _)
    | requeueTo n n' max =>
      cases h
      exact hone (.requeueTest n n' max)
    | kill q sig =>
      cases h
      exact hone (.sendSignal q sig)
    | expire q => cases h
    | sleepMs =>
      cases h
      rintro i (_ | ⟨_, hi⟩)
      · exact .sleepMs
      · exact hone .yield i hi
    | stop sig =>
      cases h
      intro i hi
      simp only [mem_cons, not_mem_nil, or_false] at hi
      rcases hi with rfl | rfl | rfl | rfl
      · exact .stop sig
      · exact .notifyParent p
      · exact .wakeTest _ _
      · exact .yield
    | exit info =>
      cases h
      exact starts_exitBody rfl p
    | exitGroup siblings info =>
      cases h
      intro i hi
      rcases mem_append.mp hi with hi | hi
      · obtain ⟨q, hq, hi⟩ := mem_flatMap.mp hi
        simp only [mem_cons, not_mem_nil, or_false] at hi
        rcases hi with rfl | rfl | rfl
        · exact .exitSibling info hq
        · exact .dequeue q
        · exact .forget q
      · exact starts_exitBody rfl p i hi
    | exitBySignal sig info =>
      cases h
      intro i hi
      rcases mem_cons.mp hi with rfl | hi
      · exact .exitBySignal sig info
      · exact starts_exitBody rfl p i hi
    | schedYield =>
      cases h
      exact hone .yield
    | futex uaddr op val val2 uaddr2 val3 =>
      cases h
      simp only [sysFutex]
      split_ifs
      · exact hone (.fails .einval)
      · exact hone .futexWait
      · exact hone .futexWake
      · exact hone .cmpRequeue
      · exact hone .wakeOp
      · exact hone (.fails .enosys)

/-! ## Processors and the rest of the world -/

/-- The run queues when a processor that leaves `prev` has put it back. -/
def Kernel.putBack (s : Kernel) (prev : Option Pid) (st : ProcessState) : RunQueues :=
  match prev with
  | some p => if st = .runnable then s.runQueues.enqueue s.online p else s.runQueues
  | none => s.runQueues

/-- Everything that a step of `switch` on processor `c` can do, by the stage it is in. -/
inductive Switches (s : Kernel) (c : ℕ) : Stage → Kernel → Prop
  | readState : Switches s c .entered (s.setStage c (.readState (s.stateOf (s.cpus c).current)))
  | mark : Switches s c (.readState .runnable)
      ((s.setSaved (s.cpus c).current false).setStage c (.marked .runnable))
  | skipMark {st : ProcessState} : st ≠ .runnable →
      Switches s c (.readState st) (s.setStage c (.marked st))
  | pick {st : ProcessState} {next : Pid} {rq : RunQueues} :
      (s.putBack (s.cpus c).current st).pickNext c = some (next, rq) →
      Switches s c (.marked st) ({ s with runQueues := rq }.setStage c (.picked (some next)))
  | pickNone (st : ProcessState) : Switches s c (.marked st)
      ({ s with runQueues := s.putBack (s.cpus c).current st }.setStage c (.picked none))
  | idle : Switches s c (.picked none) (s.setStage c (.resolved none))
  | stay {next : Pid} : (s.cpus c).current = some next → Switches s c (.picked (some next))
      ((s.setSaved (s.cpus c).current true).setStage c .run)
  | resolve {next : Pid} : (s.cpus c).current ≠ some next →
      Switches s c (.picked (some next)) (s.setStage c (.resolved (some next)))
  | dropPicked {next : Pid} : (s.cpus c).current ≠ some next →
      Switches s c (.picked (some next)) (s.setStage c (.resolved none))
  | stayResolved {next : Option Pid} : (s.cpus c).current = next → Switches s c (.resolved next)
      ((s.setSaved (s.cpus c).current true).setStage c .run)
  | recheck {next : Option Pid} : (s.cpus c).current ≠ next →
      Switches s c (.resolved next) (s.setStage c (.rechecked next))
  | dropResolved {next : Option Pid} : (s.cpus c).current ≠ next →
      Switches s c (.resolved next) (s.setStage c (.rechecked none))
  | stayRechecked {next : Option Pid} : (s.cpus c).current = next →
      Switches s c (.rechecked next) ((s.setSaved (s.cpus c).current true).setStage c .run)
  | await {next : Option Pid} : (∀ p, next = some p → s.contextSaved p = true) →
      Switches s c (.rechecked next) (s.setStage c (.waited next))
  | unsave (next : Option Pid) : Switches s c (.waited next)
      ((s.setSaved (s.cpus c).current false).setStage c (.unsaved next))
  | leave (next : Option Pid) : Switches s c (.unsaved next)
      { s.setSaved (s.cpus c).current true with cpus := update s.cpus c ⟨next, .run⟩ }

lemma switches {c : ℕ} (h : switchStep s c = some s') :
    Switches s c (s.cpus c).stage s' := by
  rw [switchStep] at h
  generalize hstage : (s.cpus c).stage = stage at h
  cases stage with
  | run => cases h
  | entered =>
    cases h
    exact .readState
  | readState st =>
    by_cases hst : st = .runnable
    · subst hst
      cases h
      exact .mark
    · simp only [if_neg hst] at h
      cases h
      exact .skipMark hst
  | marked st =>
    dsimp only at h
    split at h
    · rename_i next rq hpick
      cases h
      exact .pick hpick
    · cases h
      exact .pickNone st
  | picked next =>
    cases next with
    | none =>
      cases h
      exact .idle
    | some next =>
      dsimp only at h
      split_ifs at h with hprev hrun
      · cases h
        exact .stay hprev
      · cases h
        exact .resolve hprev
      · cases h
        exact .dropPicked hprev
  | resolved next =>
    dsimp only at h
    split_ifs at h with hprev hrun
    · cases h
      exact .stayResolved hprev
    · cases h
      exact .recheck hprev
    · cases h
      exact .dropResolved hprev
  | rechecked next =>
    dsimp only at h
    split at h
    · rename_i hprev
      cases h
      exact .stayRechecked hprev
    · cases next with
      | none =>
        cases h
        exact .await fun p hp => by cases hp
      | some next =>
        dsimp only at h
        split_ifs at h with hsaved
        cases h
        exact .await fun p hp => by rwa [← Option.some.inj hp]
  | waited next =>
    cases h
    exact .unsave next
  | unsaved next =>
    cases h
    exact .leave next

@[simp] lemma setSaved_waitQueues (p : Option Pid) (b : Bool) :
    (s.setSaved p b).waitQueues = s.waitQueues := by
  cases p <;> rfl

@[simp] lemma setSaved_log (p : Option Pid) (b : Bool) : (s.setSaved p b).log = s.log := by
  cases p <;> rfl

@[simp] lemma setSaved_state (p : Option Pid) (b : Bool) : (s.setSaved p b).state = s.state := by
  cases p <;> rfl

@[simp] lemma setSaved_space (p : Option Pid) (b : Bool) : (s.setSaved p b).space = s.space := by
  cases p <;> rfl

@[simp] lemma setSaved_cpus (p : Option Pid) (b : Bool) : (s.setSaved p b).cpus = s.cpus := by
  cases p <;> rfl

@[simp] lemma setSaved_born (p : Option Pid) (b : Bool) : (s.setSaved p b).born = s.born := by
  cases p <;> rfl

/-- The rest of the world changes no wait queue, and the state of a process only when it
creates it. A process that exists goes on to exist in the same address space. -/
lemma world_keeps {e : Event} (h : world s e = some s') :
    s'.waitQueues = s.waitQueues ∧ s'.log = s.log ∧
      (∀ p, s'.state p = s.state p ∨ s.born p = false ∧ s'.state p = .runnable) ∧
      ∀ p, s.born p = true → s'.born p = true ∧ s'.space p = s.space p := by
  cases e with
  | switchStep c =>
    have hswitch := switches h
    generalize (s.cpus c).stage = stage at hswitch
    cases hswitch <;> simp [Kernel.setStage]
  | preempt c =>
    rw [world] at h
    split at h
    · cases h
      exact ⟨rfl, rfl, fun _ => .inl rfl, fun _ hp => ⟨hp, rfl⟩⟩
    · cases h
  | spawn p parent space =>
    rw [world] at h
    split at h
    · cases h
    · rename_i hborn
      cases h
      refine ⟨rfl, rfl, fun p' => ?_, fun p' hp' => ?_⟩
      · by_cases hp : p' = p
        · subst hp
          exact .inr ⟨Bool.eq_false_iff.mpr hborn, update_self ..⟩
        · exact .inl (update_of_ne hp _ _)
      · have hp : p' ≠ p := by
          rintro rfl
          exact hborn hp'
        exact ⟨by simpa [update_of_ne hp] using hp', update_of_ne hp _ _⟩
  | store | setMask | setAction | takeSignals =>
    cases h
    exact ⟨rfl, rfl, fun _ => .inl rfl, fun _ hp => ⟨hp, rfl⟩⟩

end Kevlar.Sched
