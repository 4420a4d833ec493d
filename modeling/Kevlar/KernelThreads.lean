import Kevlar.InstructionStacks
import Kevlar.RunQueues

/-!
# Processes, processors and wait queues step by step

The kernel code that changes the state of a process: `set_state`, `resume`,
`continue_process`, `send_signal`, the sleep loop of a wait queue, the wake-ups, the
futex calls and `switch`. A process executes its kernel code while a processor runs it;
interrupt handlers execute theirs at any time. One instruction is one atomic access or
one section under a lock. `switch` belongs to the processor, which goes through its
stages while it is still on the stack of the process that it leaves.
-/
namespace Kevlar.Sched

open Function Concurrent

abbrev Signal : Type := ℕ

def sigkill : Signal := 9
def sigchld : Signal := 17
def sigcont : Signal := 18
def sigstop : Signal := 19

inductive ProcessState
  | runnable
  | blockedSignalable
  | stopped (signal : Signal)
  | exitedWith (status : ℤ)
  | exitedBySignal (signal : Signal)
  deriving DecidableEq

namespace ProcessState

def exited : ProcessState → Bool
  | exitedWith _ => true
  | exitedBySignal _ => true
  | _ => false

/-- Neither runnable nor exited: `resume` enqueues such a process. -/
def asleep : ProcessState → Bool
  | blockedSignalable => true
  | stopped _ => true
  | _ => false

end ProcessState

inductive SigAction
  | ignore
  | terminate
  | stop
  | proceed
  | handler (addr : ℕ)
  deriving DecidableEq

inductive Errno
  | eintr
  | eagain
  | efault
  | einval
  | enosys
  | other (code : ℕ)
  deriving DecidableEq

/-- A wait queue: the one of a futex address, or one of those that the kernel names. -/
inductive QueueId
  | futex (addr : ℕ)
  | named (n : ℕ)
  deriving DecidableEq

/-- `POLL_WAIT_QUEUE`, `JOIN_WAIT_QUEUE` and the queue of `vfork`. -/
def pollWaitQueue : QueueId := .named 0
def joinWaitQueue : QueueId := .named 1
def vforkWaitQueue : QueueId := .named 2

structure WaitQueue where
  queue : List Pid
  waiterCount : ℕ
  deriving DecidableEq

/-- Where a processor is in `switch`; `run` is outside of it. From `picked` on the
processor is about to leave its process. -/
inductive Stage
  | run
  | entered
  | readState (prev : ProcessState)
  | marked (prev : ProcessState)
  | picked (next : Option Pid)
  | resolved (next : Option Pid)
  | rechecked (next : Option Pid)
  | waited (next : Option Pid)
  | unsaved (next : Option Pid)
  deriving DecidableEq

/-- A processor and the process on whose stack it is; `none` is its idle thread. -/
structure Cpu where
  current : Option Pid
  stage : Stage
  deriving DecidableEq

inductive Agent
  | proc (p : Pid)
  | irq (n : ℕ)
  deriving DecidableEq

/-- What the closure of a sleep answers. -/
inductive Verdict
  | ready (r : ℕ)
  | failed (e : Errno)
  | notYet
  deriving DecidableEq

/-- The condition of a sleep: the one of `FUTEX_WAIT`, or any other. -/
inductive Condition
  | word (addr : ℕ) (val : BitVec 32)
  | any
  deriving DecidableEq

/-- What is left open in a step: the processor that executes it, whether interrupts are
enabled there, and the answer of a condition. -/
structure Choice where
  cpu : ℕ
  interrupts : Bool
  answer : Verdict

/-- What can be seen of wake-ups: whom a call took off a queue or moved to one, and what
a system call returned. -/
inductive Note
  | woke (by_ : Agent) (q : QueueId) (ps : List Pid)
  | moved (by_ : Agent) (q q' : QueueId) (ps : List Pid)
  | returned (p : Pid) (r : Except Errno ℕ)
  deriving DecidableEq

/-- The part of the kernel state that is shared; `log` is not stored anywhere. -/
structure Kernel where
  online : ℕ
  state : Pid → ProcessState
  contextSaved : Pid → Bool
  born : Pid → Bool
  table : Pid → Bool
  parent : Pid → Option Pid
  runQueues : RunQueues
  cpus : ℕ → Cpu
  waitQueues : QueueId → WaitQueue
  signalPending : Pid → BitVec 64
  sigset : Pid → BitVec 64
  actions : Pid → Signal → SigAction
  space : Pid → ℕ
  memory : ℕ → ℕ → Option (BitVec 32)
  total : Agent → ℕ
  log : List Note

/-- Why a process is resumed. -/
inductive Cause
  | signal (sig : Signal)
  | wake
  | timer
  deriving DecidableEq

/-- Instructions that any code may execute. -/
inductive Act
  | setState (p : Pid) (st : ProcessState)
  | dequeue (p : Pid)
  | forget (p : Pid)
  | resume (p : Pid) (why : Cause)
  | restore (p : Pid) (st : ProcessState)
  | awaitSaved (p : Pid)
  | enqueue (p : Pid) (front : Bool)
  | continueProcess (p : Pid)
  | setRunnable (p : Pid)
  | notifyParent (p : Pid)
  | sendSignal (p : Pid) (sig : Signal)
  | queueSignal (p : Pid) (sig : Signal)
  | wakeTest (q : QueueId) (max : Option ℕ)
  | take (q : QueueId) (max : Option ℕ)
  | requeueTest (q q' : QueueId) (max : ℕ)
  | requeue (q q' : QueueId) (max : ℕ)

/-- Instructions of a process about itself. -/
inductive OwnAct
  | setState (st : ProcessState)
  | exitState (status : ℤ)
  | yield
  | dead
  | fastCheck (q : QueueId) (k : Condition)
  | pendingCheck (q : QueueId) (k : Condition)
  | enter (q : QueueId) (k : Condition)
  | recheck (q : QueueId) (k : Condition)
  | woken (q : QueueId) (k : Condition)
  | signalled (q : QueueId) (k : Condition)
  | removeSelf (q : QueueId)
  | ret (r : Except Errno ℕ)
  | futexWait (addr : ℕ) (val : BitVec 32)
  | futexWake (addr : ℕ) (max : ℕ)
  | cmpRequeue (addr addr2 max max2 : ℕ) (val3 : BitVec 32)
  | wakeOpRead (addr addr2 max max2 : ℕ) (val3 : BitVec 32)
  | wakeOpWrite (addr addr2 max max2 : ℕ) (val3 old new : BitVec 32)
  | clearTid (addr : ℕ)
  | returnTotal

inductive Instr
  | any (i : Act)
  | own (i : OwnAct)

namespace Kernel

def setState (s : Kernel) (p : Pid) (st : ProcessState) : Kernel :=
  { s with
    state := update s.state p st
    runQueues := if st = .runnable then s.runQueues else s.runQueues.remove p }

/-- A plain store to the state of a process, or a swap of it. -/
def storeState (s : Kernel) (p : Pid) (st : ProcessState) : Kernel :=
  { s with state := update s.state p st }

def setQueue (s : Kernel) (q : QueueId) (wq : WaitQueue) : Kernel :=
  { s with waitQueues := update s.waitQueues q wq }

def setStage (s : Kernel) (c : ℕ) (stage : Stage) : Kernel :=
  { s with cpus := update s.cpus c { s.cpus c with stage := stage } }

/-- The store to `context_saved` of a process; the one of an idle thread is not modelled. -/
def setSaved (s : Kernel) (p : Option Pid) (b : Bool) : Kernel :=
  match p with
  | some p => { s with contextSaved := update s.contextSaved p b }
  | none => s

def stateOf (s : Kernel) : Option Pid → ProcessState
  | some p => s.state p
  | none => .runnable

def getAction (s : Kernel) (p : Pid) (sig : Signal) : SigAction :=
  if sig = 0 ∨ 64 ≤ sig then .ignore else s.actions p sig

def signalBit (sig : Signal) : BitVec 64 := 1#64 <<< (sig - 1)

/-- A pending signal that is not blocked; SIGKILL and SIGSTOP cannot be blocked. -/
def hasPendingSignals (s : Kernel) (p : Pid) : Bool :=
  s.signalPending p &&& ~~~(s.sigset p &&& ~~~(signalBit sigkill ||| signalBit sigstop)) ≠ 0

/-- A word of user memory as a process reads it. -/
def readWord (s : Kernel) (p : Pid) (addr : ℕ) : Option (BitVec 32) :=
  if addr = 0 then none else s.memory (s.space p) addr

def writeWord (s : Kernel) (p : Pid) (addr : ℕ) (w : BitVec 32) : Kernel :=
  { s with
    memory := update s.memory (s.space p)
      (update (s.memory (s.space p)) addr (some w)) }

/-- The closure of `FUTEX_WAIT` reads the word again; other closures are left open. -/
def verdict (s : Kernel) (p : Pid) (k : Condition) (answer : Verdict) : Verdict :=
  match k with
  | .word addr val => if (s.readWord p addr).getD 0 = val then .notYet else .ready 0
  | .any => answer

def note (s : Kernel) (n : Note) : Kernel := { s with log := s.log ++ [n] }

/-- The section of the sleep loop under the queue lock. -/
def enterQueue (s : Kernel) (p : Pid) (q : QueueId) : Kernel :=
  (s.setState p .blockedSignalable).setQueue q
    ⟨(s.waitQueues q).queue ++ [p], (s.waitQueues q).waiterCount + 1⟩

/-- `try_remove_current`. -/
def removeFrom (s : Kernel) (p : Pid) (q : QueueId) : Kernel :=
  let rest := (s.waitQueues q).queue.filter (· ≠ p)
  s.setQueue q ⟨rest, (s.waitQueues q).waiterCount - ((s.waitQueues q).queue.length - rest.length)⟩

/-- The first entries of a queue: one, at most a number of them, or all. -/
def firstOf (s : Kernel) (q : QueueId) : Option ℕ → List Pid
  | some max => (s.waitQueues q).queue.take max
  | none => (s.waitQueues q).queue

def takeFrom (s : Kernel) (a : Agent) (q : QueueId) (max : Option ℕ) : Kernel :=
  let ps := s.firstOf q max
  { s.setQueue q ⟨(s.waitQueues q).queue.drop ps.length,
      (s.waitQueues q).waiterCount - ps.length⟩ with
    total := update s.total a (s.total a + ps.length) }.note (.woke a q ps)

/-- The section of `requeue_to` under both queue locks. -/
def moveTo (s : Kernel) (a : Agent) (q q' : QueueId) (max : ℕ) : Kernel :=
  let ps := s.firstOf q (some max)
  { (s.setQueue q ⟨(s.waitQueues q).queue.drop ps.length,
        (s.waitQueues q).waiterCount - ps.length⟩).setQueue q'
      ⟨(s.waitQueues q').queue ++ ps, (s.waitQueues q').waiterCount + ps.length⟩ with
    total := update s.total a (s.total a + ps.length) }.note (.moved a q q' ps)

end Kernel

/-- The rest of `resume` after the swap that gave the old state. Without interrupts it
does not wait for the context to be saved. -/
def resumed (p : Pid) (why : Cause) (old : ProcessState) (interrupts : Bool) : List Act :=
  if old.exited then [.restore p old]
  else if old = .runnable then []
  else (if interrupts then [.awaitSaved p] else []) ++
    [.enqueue p (decide (why = .timer))]

/-- An instruction of agent `a`; `none` if it has to wait. -/
def Act.exec (s : Kernel) (a : Agent) (x : Choice) : Act → Option (Kernel × List Act)
  | .setState p st => some (s.setState p st, [])
  | .dequeue p => some ({ s with runQueues := s.runQueues.remove p }, [])
  | .forget p => some ({ s with table := update s.table p false }, [])
  | .resume p why =>
    if s.born p then some (s.storeState p .runnable, resumed p why (s.state p) x.interrupts)
    else none
  | .restore p st => some (s.storeState p st, [])
  | .awaitSaved p => if s.contextSaved p then some (s, []) else none
  | .enqueue p front =>
    some ({ s with
      runQueues :=
        if front then s.runQueues.enqueueFront s.online p else s.runQueues.enqueue s.online p }, [])
  | .continueProcess p =>
    match s.state p with
    | .stopped _ => some (s, [.setRunnable p])
    | _ => some (s, [])
  | .setRunnable p =>
    if s.born p then
      some (s.storeState p .runnable,
        [.enqueue p false, .notifyParent p, .wakeTest joinWaitQueue none])
    else none
  | .notifyParent p =>
    match s.parent p with
    | some parent => some (s, [.sendSignal parent sigchld])
    | none => some (s, [])
  | .sendSignal p sig =>
    if s.born p then
      some (s, (if sig = sigcont then [.continueProcess p] else []) ++
        [.queueSignal p sig])
    else none
  | .queueSignal p sig =>
    if s.getAction p sig = .ignore ∧ sig ≠ sigkill ∧ sig ≠ sigstop then some (s, [])
    else some ({ s with
        signalPending :=
          update s.signalPending p (s.signalPending p ||| Kernel.signalBit sig) },
      [.resume p (.signal sig), .wakeTest pollWaitQueue none])
  | .wakeTest q max =>
    if (s.waitQueues q).waiterCount = 0 ∨ max = some 0 then some (s, [])
    else some (s, [.take q max])
  | .take q max =>
    some (s.takeFrom a q max, (s.firstOf q max).map fun p => .resume p .wake)
  | .requeueTest q q' max =>
    if (s.waitQueues q).waiterCount = 0 ∨ max = 0 then some (s, [])
    else some (s, [.requeue q q' max])
  -- both locks are taken, which waits forever if it is the same one
  | .requeue q q' max => if q = q' then none else some (s.moveTo a q q' max, [])

/-- `apply_wake_op` on the value read. -/
def applyWakeOp (op oparg : ℕ) (old : BitVec 32) : Option (BitVec 32) :=
  match op with
  | 0 => some (BitVec.ofNat 32 oparg)
  | 1 => some (old + BitVec.ofNat 32 oparg)
  | 2 => some (old ||| BitVec.ofNat 32 oparg)
  | 3 => some (old &&& ~~~(BitVec.ofNat 32 oparg))
  | 4 => some (old ^^^ BitVec.ofNat 32 oparg)
  | _ => none

def wakeOpCmp (cmp : ℕ) (old : BitVec 32) (cmparg : ℕ) : Bool :=
  match cmp with
  | 0 => old.toNat = cmparg
  | 1 => old.toNat ≠ cmparg
  | 2 => old.toNat < cmparg
  | 3 => old.toNat ≤ cmparg
  | 4 => cmparg < old.toNat
  | 5 => cmparg ≤ old.toNat
  | _ => false

/-- `decode_wake_op`: operation, comparison and their arguments. -/
def decodeWakeOp (val3 : BitVec 32) : ℕ × ℕ × ℕ × ℕ :=
  (((val3 >>> 28) &&& 0xF).toNat, ((val3 >>> 24) &&& 0xF).toNat,
    ((val3 >>> 12) &&& 0xFFF).toNat, (val3 &&& 0xFFF).toNat)

/-- The end of a sleep that its condition brings about. -/
def sleepEnd : Verdict → Option (Except Errno ℕ)
  | .ready r => some (.ok r)
  | .failed e => some (.error e)
  | .notYet => none

/-- An instruction of process `p` about itself; `none` if it has to wait. -/
def OwnAct.exec (s : Kernel) (p : Pid) (x : Choice) : OwnAct → Option (Kernel × List Instr)
  | .setState st => some (s.setState p st, [])
  | .exitState status =>
    match s.state p with
    | .exitedBySignal _ => some (s, [])
    | _ => some (s.setState p (.exitedWith status), [])
  | .yield => some (s.setStage x.cpu .entered, [])
  | .dead => none
  | .fastCheck q k =>
    match sleepEnd (s.verdict p k x.answer) with
    | some r => some (s, [.own (.ret r)])
    | none => some (s, [.own (.pendingCheck q k)])
  | .pendingCheck q k =>
    if s.hasPendingSignals p then some (s, [.own (.ret (.error .eintr))])
    else some (s, [.own (.enter q k)])
  | .enter q k => some (s.enterQueue p q, [.own (.recheck q k)])
  | .recheck q k =>
    match sleepEnd (s.verdict p k x.answer) with
    | some r => some (s, [.own (.removeSelf q), .own (.setState .runnable), .own (.ret r)])
    | none => some (s, [.own .yield, .own (.woken q k)])
  | .woken q k =>
    match sleepEnd (s.verdict p k x.answer) with
    | some r => some (s, [.own (.ret r)])
    | none => some (s, [.own (.signalled q k)])
  | .signalled q k =>
    if s.hasPendingSignals p then some (s, [.own (.removeSelf q), .own (.ret (.error .eintr))])
    else some (s, [.own (.pendingCheck q k)])
  | .removeSelf q => some (s.removeFrom p q, [])
  | .ret r => some (s.note (.returned p r), [])
  | .futexWait addr val =>
    match s.readWord p addr with
    | none => some (s, [.own (.ret (.error .efault))])
    | some w =>
      if w = val then some (s, [.own (.fastCheck (.futex addr) (.word addr val))])
      else some (s, [.own (.ret (.error .eagain))])
  | .futexWake addr max =>
    some ({ s with total := update s.total (.proc p) 0 },
      [.any (.wakeTest (.futex addr) (some max)), .own .returnTotal])
  | .cmpRequeue addr addr2 max max2 val3 =>
    match s.readWord p addr with
    | none => some (s, [.own (.ret (.error .efault))])
    | some w =>
      if w = val3 then
        some ({ s with total := update s.total (.proc p) 0 },
          [.any (.wakeTest (.futex addr) (some max)),
            .any (.requeueTest (.futex addr) (.futex addr2) max2), .own .returnTotal])
      else some (s, [.own (.ret (.error .eagain))])
  | .wakeOpRead addr addr2 max max2 val3 =>
    match s.readWord p addr2 with
    | none => some (s, [.own (.ret (.error .efault))])
    | some old =>
      match applyWakeOp (decodeWakeOp val3).1 (decodeWakeOp val3).2.2.1 old with
      | none => some (s, [.own (.ret (.error .enosys))])
      | some new => some (s, [.own (.wakeOpWrite addr addr2 max max2 val3 old new)])
  | .wakeOpWrite addr addr2 max max2 val3 old new =>
    some ({ s.writeWord p addr2 new with total := update s.total (.proc p) 0 },
      .any (.wakeTest (.futex addr) (some max)) ::
        ((if wakeOpCmp (decodeWakeOp val3).2.1 old (decodeWakeOp val3).2.2.2 then
            [.any (.wakeTest (.futex addr2) (some (max2 % 2 ^ 32)))] else []) ++
          [.own .returnTotal]))
  | .clearTid addr => some (s.writeWord p addr 0, [])
  | .returnTotal => some (s, [.own (.ret (.ok (s.total (.proc p))))])

def Agent.runsOn (s : Kernel) (c : ℕ) : Agent → Bool
  | .proc p => s.born p && s.cpus c = ⟨some p, .run⟩
  | .irq _ => true

/-- An instruction of an agent. A process needs a processor that runs it. -/
def exec (s : Kernel) (a : Agent) (i : Instr) (x : Choice) : Option (Kernel × List Instr) :=
  if a.runsOn s x.cpu then
    match i, a with
    | .any i, a => (i.exec s a x).map fun r => (r.1, r.2.map .any)
    | .own i, .proc p => i.exec s p x
    | .own _, .irq _ => none
  else none

/-! ## Calls -/

def futexWaitCmd : BitVec 32 := 0
def futexWakeCmd : BitVec 32 := 1
def futexCmpRequeueCmd : BitVec 32 := 4
def futexWakeOpCmd : BitVec 32 := 5
def futexWaitBitsetCmd : BitVec 32 := 9
def futexWakeBitsetCmd : BitVec 32 := 10
def futexCmdMask : BitVec 32 := ~~~(128 ||| 256)

def sysFutex (uaddr : ℕ) (op val : BitVec 32) (val2 uaddr2 : ℕ) (val3 : BitVec 32) :
    List Instr :=
  let cmd := op &&& futexCmdMask
  if cmd = futexWaitCmd ∨ cmd = futexWaitBitsetCmd then
    if cmd = futexWaitBitsetCmd ∧ val3 = 0 then [.own (.ret (.error .einval))]
    else [.own (.futexWait uaddr val)]
  else if cmd = futexWakeCmd ∨ cmd = futexWakeBitsetCmd then [.own (.futexWake uaddr val.toNat)]
  else if cmd = futexCmpRequeueCmd then [.own (.cmpRequeue uaddr uaddr2 val.toNat val2 val3)]
  else if cmd = futexWakeOpCmd then [.own (.wakeOpRead uaddr uaddr2 val.toNat val2 val3)]
  else [.own (.ret (.error .enosys))]

/-- What `exit` finds in the exiting process and its parent. -/
structure ExitInfo where
  status : ℤ
  orphans : Bool
  isThread : Bool
  nocldwait : Bool
  clearChildTid : Option ℕ

inductive Call
  | sleep (n : ℕ) (checked : Bool)
  | wakeOne (n : ℕ)
  | wakeN (n max : ℕ)
  | wakeAll (n : ℕ)
  | requeueTo (n n' max : ℕ)
  | kill (p : Pid) (sig : Signal)
  | expire (p : Pid)
  | sleepMs
  | stop (sig : Signal)
  | exit (info : ExitInfo)
  | exitGroup (siblings : List Pid) (info : ExitInfo)
  | exitBySignal (sig : Signal) (info : ExitInfo)
  | schedYield
  | futex (uaddr : ℕ) (op val : BitVec 32) (val2 uaddr2 : ℕ) (val3 : BitVec 32)

/-- The end of `exit`, which does not come back from `switch`. -/
def exitBody (p : Pid) (info : ExitInfo) : List Instr :=
  [.own (.exitState info.status)] ++
    (if info.orphans then [.any (.wakeTest joinWaitQueue none)] else []) ++
    [.any (.wakeTest vforkWaitQueue none)] ++
    (if info.isThread then []
      else (if info.nocldwait then [] else [.any (.notifyParent p)]) ++
        [.any (.wakeTest joinWaitQueue none)]) ++
    [.any (.forget p)] ++
    (match info.clearChildTid with
      | some addr => [.own (.clearTid addr), .any (.wakeTest (.futex addr) (some 1))]
      | none => []) ++
    [.any (.wakeTest joinWaitQueue none), .own .yield, .own .dead]

/-- What a process executes for a call. -/
def Call.ofProcess (p : Pid) : Call → Option (List Instr)
  | .sleep n true => some [.own (.fastCheck (.named n) .any)]
  | .sleep n false => some [.own (.pendingCheck (.named n) .any)]
  | .wakeOne n => some [.any (.wakeTest (.named n) (some 1))]
  | .wakeN n max => some [.any (.wakeTest (.named n) (some max))]
  | .wakeAll n => some [.any (.wakeTest (.named n) none)]
  | .requeueTo n n' max => some [.any (.requeueTest (.named n) (.named n') max)]
  | .kill q sig => some [.any (.sendSignal q sig)]
  | .expire _ => none
  -- the entry in `TIMERS` expires at any time
  | .sleepMs => some [.own (.setState .blockedSignalable), .own .yield]
  | .stop sig =>
    some [.own (.setState (.stopped sig)), .any (.notifyParent p),
      .any (.wakeTest joinWaitQueue none), .own .yield]
  | .exit info => some (exitBody p info)
  | .exitGroup siblings info =>
    some (siblings.flatMap (fun q => [.any (.setState q (.exitedWith info.status)),
      .any (.dequeue q), .any (.forget q)]) ++ exitBody p info)
  | .exitBySignal sig info => some (.own (.setState (.exitedBySignal sig)) :: exitBody p info)
  | .schedYield => some [.own .yield]
  | .futex uaddr op val val2 uaddr2 val3 => some (sysFutex uaddr op val val2 uaddr2 val3)

/-- What an interrupt handler executes: wake-ups, signals, and timers that expire. -/
def Call.ofInterrupt : Call → Option (List Instr)
  | .wakeOne n => some [.any (.wakeTest (.named n) (some 1))]
  | .wakeN n max => some [.any (.wakeTest (.named n) (some max))]
  | .wakeAll n => some [.any (.wakeTest (.named n) none)]
  | .kill q sig => some [.any (.sendSignal q sig)]
  | .expire q => some [.any (.resume q .timer)]
  | _ => none

def Call.body : Agent → Call → Option (List Instr)
  | .proc p, c => c.ofProcess p
  | .irq _, c => c.ofInterrupt

/-! ## Processors -/

/-- The next step of `switch` on a processor. -/
def switchStep (s : Kernel) (c : ℕ) : Option Kernel :=
  let prev := (s.cpus c).current
  match (s.cpus c).stage with
  | .run => none
  | .entered => some (s.setStage c (.readState (s.stateOf prev)))
  | .readState st =>
    some ((if st = .runnable then s.setSaved prev false else s).setStage c (.marked st))
  -- the section under the scheduler lock
  | .marked st =>
    let rq := match prev with
      | some p => if st = .runnable then s.runQueues.enqueue s.online p else s.runQueues
      | none => s.runQueues
    match rq.pickNext c with
    | some (next, rq') => some ({ s with runQueues := rq' }.setStage c (.picked (some next)))
    | none => some ({ s with runQueues := rq }.setStage c (.picked none))
  | .picked none => some (s.setStage c (.resolved none))
  | .picked (some next) =>
    if prev = some next then some ((s.setSaved prev true).setStage c .run)
    else if s.table next ∧ s.state next = .runnable then
      some (s.setStage c (.resolved (some next)))
    else some (s.setStage c (.resolved none))
  | .resolved next =>
    if prev = next then some ((s.setSaved prev true).setStage c .run)
    else if s.stateOf next = .runnable then some (s.setStage c (.rechecked next))
    else some (s.setStage c (.rechecked none))
  | .rechecked next =>
    if prev = next then some ((s.setSaved prev true).setStage c .run)
    else match next with
      | some p => if s.contextSaved p then some (s.setStage c (.waited next)) else none
      | none => some (s.setStage c (.waited none))
  | .waited next => some ((s.setSaved prev false).setStage c (.unsaved next))
  | .unsaved next =>
    some { s.setSaved prev true with cpus := update s.cpus c ⟨next, .run⟩ }

/-- The rest of the world: steps of `switch`, its calls by the timer interrupt and by idle
threads, new processes, and what processes do in user mode or in other system calls. -/
inductive Event
  | switchStep (c : ℕ)
  | preempt (c : ℕ)
  | spawn (p : Pid) (parent : Option Pid) (space : ℕ)
  | store (space addr : ℕ) (w : Option (BitVec 32))
  | setMask (p : Pid) (mask : BitVec 64)
  | setAction (p : Pid) (sig : Signal) (action : SigAction)
  | takeSignals (p : Pid) (pending : BitVec 64)

def world (s : Kernel) : Event → Option Kernel
  | .switchStep c => switchStep s c
  | .preempt c => if (s.cpus c).stage = .run then some (s.setStage c .entered) else none
  | .spawn p parent space =>
    if s.born p then none
    else some { s with
      state := update s.state p .runnable
      contextSaved := update s.contextSaved p true
      born := update s.born p true
      table := update s.table p true
      parent := update s.parent p parent
      space := update s.space p space
      runQueues := s.runQueues.enqueue s.online p }
  | .store space addr w =>
    some { s with
      memory := update s.memory space (update (s.memory space) addr w) }
  | .setMask p mask => some { s with sigset := update s.sigset p mask }
  | .setAction p sig action =>
    some { s with
      actions := update s.actions p (update (s.actions p) sig action) }
  | .takeSignals p pending =>
    some { s with signalPending := update s.signalPending p pending }

def kernelMachine : Machine Kernel Agent Call Instr Choice Event where
  body := Call.body
  exec := exec
  world := world

abbrev KConfig : Type := Config Kernel Agent Instr
abbrev KMove : Type := Move Agent Call Choice Event

/-- A machine that has just started: idle processors, empty queues, no process. -/
structure Boot (cfg : KConfig) : Prop where
  stack : ∀ a, cfg.stack a = []
  cpus : ∀ c, cfg.shared.cpus c = ⟨none, .run⟩
  runQueues : ∀ c, cfg.shared.runQueues c = []
  waitQueues : ∀ q, cfg.shared.waitQueues q = ⟨[], 0⟩
  born : ∀ p, cfg.shared.born p = false
  log : cfg.shared.log = []

/-- The machine with two processors after the start. -/
def bootConfig : KConfig where
  shared :=
    { online := 2
      state := fun _ => .runnable
      contextSaved := fun _ => true
      born := fun _ => false
      table := fun _ => false
      parent := fun _ => none
      runQueues := fun _ => []
      cpus := fun _ => ⟨none, .run⟩
      waitQueues := fun _ => ⟨[], 0⟩
      signalPending := fun _ => 0
      sigset := fun _ => 0
      actions := fun _ _ => .terminate
      space := fun p => p
      memory := fun _ _ => some 0
      total := fun _ => 0
      log := [] }
  stack := fun _ => []

/-- A step of a process on a processor, with the answer of its condition. -/
def actOn (c : ℕ) (p : Pid) (answer : Verdict) : KMove := .act (.proc p) ⟨c, true, answer⟩

/-- A whole `switch` of a processor to another process. -/
def switchTo (c : ℕ) : List KMove := List.replicate 8 (.world (.switchStep c))

/-- A process is created and an idle processor switches to it. -/
def startOn (c : ℕ) (p : Pid) : List KMove :=
  [.world (.spawn p none p), .world (.preempt c)] ++ switchTo c

lemma boot_bootConfig : Boot bootConfig :=
  ⟨fun _ => rfl, fun _ => rfl, fun _ => rfl, fun _ => rfl, fun _ => rfl, rfl⟩

end Kevlar.Sched
