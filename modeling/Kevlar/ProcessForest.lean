import Mathlib.Tactic

/-!
# The process forest

Every process holds strong references to its children and a weak link to its parent.
Creation writes both sides. `exit` hands the children of the exiting process to a
subreaper or to init but leaves their parent links alone, and reaps itself from the list
that its own link leads to. A run of the forest is a sequence of these steps, with the
garbage collection that decides which links still resolve.
-/
namespace Kevlar.Processes
open Function

/-- Processes are told apart by their allocation; identifiers can be used again. -/
abbrev Obj : Type := ℕ

inductive ProcessState where
  | runnable
  | blockedSignalable
  | stopped (signal : BitVec 32)
  | exitedWith (status : BitVec 32)
  | exitedBySignal (signal : BitVec 32)
  deriving DecidableEq, Repr

def ProcessState.isExited : ProcessState → Bool
  | .exitedWith _ => true
  | .exitedBySignal _ => true
  | _ => false

structure Process where
  pid : ℕ
  tgid : ℕ
  state : ProcessState
  /-- A weak reference. -/
  parent : Option Obj
  children : List Obj
  isChildSubreaper : Bool
  nocldwait : Bool
  deriving DecidableEq, Repr

structure Forest where
  /-- The processes that are allocated and not dropped yet. -/
  procs : Obj → Option Process
  /-- The next allocation. -/
  next : Obj
  /-- `PROCESSES`. -/
  table : List Obj
  /-- `EXITED_PROCESSES`. -/
  exited : List Obj
  /-- The processes whose exit was collected by `wait4` or by themselves. -/
  reaped : Obj → Bool

def init : Obj := 0

def initPid : ℕ := 1

/-- The system with its first process. -/
def boot : Forest where
  procs := update (fun _ => none) init
    (some ⟨initPid, initPid, .runnable, none, [], false, false⟩)
  next := 1
  table := [init]
  exited := []
  reaped := fun _ => false

namespace Forest

variable (s : Forest)

def pidOf (o : Obj) : Option ℕ := (s.procs o).map (·.pid)

/-- `Weak::upgrade`. -/
def upgrade (link : Option Obj) : Option (Obj × Process) :=
  link.bind fun o => (s.procs o).map fun p => (o, p)

def alter (o : Obj) (f : Process → Process) : Forest :=
  { s with procs := update s.procs o ((s.procs o).map f) }

/-! ## Creation -/

end Forest

inductive Creation where
  | fork
  | vfork
  | spawn
  /-- `clone` with `CLONE_THREAD`. -/
  | thread
  deriving DecidableEq, Repr

/-- The new process: only a thread joins the group of its parent, and only `spawn` starts
with fresh signal dispositions. -/
def Creation.child (kind : Creation) (parent : Obj) (p : Process) (pid : ℕ) : Process where
  pid := pid
  tgid := if kind = .thread then p.tgid else pid
  state := .runnable
  parent := some parent
  children := []
  isChildSubreaper := false
  nocldwait := if kind = .spawn then false else p.nocldwait

namespace Forest

variable (s : Forest)

/-- `alloc_pid` returns an identifier from two on that is not in the table. -/
def create (parent : Obj) (kind : Creation) (pid : ℕ) : Option Forest :=
  match s.procs parent with
  | none => none
  | some p =>
    if p.state.isExited ∨ pid ≤ 1 ∨ some pid ∈ s.table.map s.pidOf then none
    else
      let t := s.alter parent fun p => { p with children := p.children ++ [s.next] }
      some { t with
        procs := update t.procs s.next (some (kind.child parent p pid))
        next := s.next + 1
        table := s.table ++ [s.next] }

/-! ## Exit -/

/-- The walk up the parent links; parents are older than their children, so the number
of allocations bounds it. -/
def findSubreaper : ℕ → Option Obj → Option Obj
  | 0, _ => none
  | fuel + 1, ancestor =>
    match s.upgrade ancestor with
    | none => none
    | some (o, p) => if p.isChildSubreaper then some o else findSubreaper fuel p.parent

/-- Init is looked up in the table; without it the kernel panics. -/
def findSubreaperOrInit (exiting : Process) : Option Obj :=
  match s.findSubreaper s.next exiting.parent with
  | some o => some o
  | none => s.table.find? fun o => s.pidOf o == some initPid

def reparent (o : Obj) (p : Process) : Option Forest :=
  if p.children = [] then some s
  else (s.findSubreaperOrInit p).map fun q =>
    (s.alter o fun p => { p with children := [] }).alter q fun r =>
      { r with children := r.children ++ p.children }

/-- The decision of the parent that the link leads to: a parent that ignores `SIGCHLD`
drops every child with the identifier of the exiting one, any other is sent `SIGCHLD`. -/
def notifyParent (o : Obj) (p : Process) : Forest :=
  match s.upgrade p.parent with
  | none => s
  | some (q, r) =>
    if r.nocldwait then
      { s.alter q fun r => { r with children := r.children.filter (s.pidOf · ≠ some p.pid) } with
        exited := o :: s.exited
        reaped := update s.reaped o true }
    else s

/-- `PROCESSES.lock().remove(&pid)`. -/
def removePid (pid : ℕ) : Forest :=
  { s with table := s.table.filter (s.pidOf · ≠ some pid) }

/-- The rest of an exit: a thread is not announced to its parent. -/
def leave (o : Obj) (p : Process) : Forest :=
  let t := { s with exited := o :: s.exited }
  (if p.tgid ≠ p.pid then t else t.notifyParent o p).removePid p.pid

/-- `Process::exit`, with the state that it or `exit_by_signal` sets. The exit of init
halts the system. -/
def exit (o : Obj) (state : ProcessState) : Option Forest :=
  match s.procs o with
  | none => none
  | some p =>
    if p.state.isExited ∨ ¬ state.isExited ∨ p.pid = initPid then none
    else
      ((s.alter o fun p => { p with state := state }).reparent o p).map fun t => t.leave o p

/-- The other members of the thread group. -/
def isSibling (tgid pid : ℕ) (o : Obj) : Bool :=
  (s.procs o).any fun p => p.tgid == tgid && p.pid != pid

/-- The loop of `exit_group` and of `execve` over the other threads; they are not
reparented and nobody is told. -/
def killSiblings (o : Obj) (status : BitVec 32) : Option Forest :=
  match s.procs o with
  | none => none
  | some p =>
    if p.state.isExited then none
    else
      let dies (q : Obj) : Bool := decide (q ∈ s.table) && s.isSibling p.tgid p.pid q
      some { s with
        procs := fun q =>
          if dies q then (s.procs q).map fun r => { r with state := .exitedWith status }
          else s.procs q
        table := s.table.filter (! dies ·)
        exited := s.table.filter dies ++ s.exited }

end Forest

/-! ## Waiting -/

structure WaitOptions where
  wnohang : Bool
  wuntraced : Bool
  wclone : Bool
  deriving DecidableEq, Repr

inductive WaitResult where
  | echild
  | sleep
  /-- Identifier zero stands for no child under `WNOHANG`. -/
  | status (pid : ℕ) (encoded : BitVec 32)
  deriving DecidableEq, Repr

def ProcessState.waitStatus (options : WaitOptions) : ProcessState → Option (BitVec 32)
  | .exitedWith code => some ((code &&& 0xff) <<< 8)
  | .exitedBySignal signal => some (signal &&& 0x7f)
  | .stopped signal => if options.wuntraced then some (((signal &&& 0xff) <<< 8) ||| 0x7f) else none
  | _ => none

/-- `Vec::swap_remove`: the last element takes the place of the removed one. -/
def swapRemove {α : Type} (xs : List α) (i : ℕ) : List α :=
  match xs.getLast? with
  | none => xs
  | some last => (xs.set i last).dropLast

namespace Forest

variable (s : Forest)

/-- One look at the children; `wanted` is the argument when it is positive. -/
def scanChildren (wanted : Option ℕ) (options : WaitOptions) (children : List Obj) : WaitResult :=
  let candidates := children.filter fun c => wanted.all fun pid => s.pidOf c == some pid
  if candidates = [] then .echild
  else
    let found := candidates.findSome? fun c => (s.procs c).bind fun p =>
      (p.state.waitStatus options).map fun encoded => (p.pid, encoded)
    match found with
    | some (pid, encoded) => .status pid encoded
    | none => if options.wnohang then .status 0 0 else .sleep

def hasExited (o : Obj) : Bool := (s.procs o).any (·.state.isExited)

/-- The first child with the identifier that has exited leaves the list. -/
def evict (o : Obj) (children : List Obj) (pid : ℕ) : Forest :=
  match children.findIdx? fun c => s.pidOf c == some pid && s.hasExited c with
  | none => s
  | some i =>
    match children[i]? with
    | none => s
    | some c =>
      { s.alter o fun p => { p with children := swapRemove children i } with
        exited := c :: s.exited
        reaped := update s.reaped c true }

/-- `gc_exited_processes` lets go of the references that exits left behind. -/
def gc : Forest := { s with exited := [] }

def sysWait4 (o : Obj) (wanted : Option ℕ) (options : WaitOptions) :
    Option (WaitResult × Forest) :=
  match s.procs o with
  | none => none
  | some p =>
    if p.state.isExited then none
    else if options.wclone then some (.echild, s)
    else
      match s.scanChildren wanted options p.children with
      | .status pid encoded =>
        if 0 < pid then some (.status pid encoded, (s.evict o p.children pid).gc)
        else some (.status pid encoded, s)
      | result => some (result, s)

/-- A process without strong references is dropped. -/
def dropProcess (o : Obj) : Option Forest :=
  if o ∈ s.table ∨ o ∈ s.exited ∨
      (List.range s.next).any fun q => (s.procs q).any fun p => p.children.contains o then none
  else some { s with procs := update s.procs o none }

end Forest

/-! ## Runs -/

inductive Event where
  | create (parent : Obj) (kind : Creation) (pid : ℕ)
  | exit (o : Obj) (state : ProcessState)
  | killSiblings (o : Obj) (status : BitVec 32)
  | wait4 (o : Obj) (wanted : Option ℕ) (options : WaitOptions)
  | gc
  | drop (o : Obj)
  /-- Sleeping, stopping and continuing. -/
  | setState (o : Obj) (state : ProcessState)
  | setChildSubreaper (o : Obj) (value : Bool)
  | setNocldwait (o : Obj) (value : Bool)

/-- The process of a step that only a process itself can take is allocated and has not
exited. -/
def Forest.runs (s : Forest) (o : Obj) : Bool := (s.procs o).any (! ·.state.isExited)

def step (s : Forest) : Event → Option Forest
  | .create parent kind pid => s.create parent kind pid
  | .exit o state => s.exit o state
  | .killSiblings o status => s.killSiblings o status
  | .wait4 o wanted options => (s.sysWait4 o wanted options).map (·.2)
  | .gc => some s.gc
  | .drop o => s.dropProcess o
  | .setState o state =>
    if s.runs o ∧ ¬ state.isExited then some (s.alter o fun p => { p with state := state })
    else none
  | .setChildSubreaper o value => some (s.alter o fun p => { p with isChildSubreaper := value })
  | .setNocldwait o value => some (s.alter o fun p => { p with nocldwait := value })

/-- Every process that has not been reaped is in the list of exactly one process, once;
its parent link leads to that process, and that process has not exited. -/
def Consistent (s : Forest) : Prop :=
  ∀ c < s.next, c ≠ init → s.reaped c = false →
    ∃ pc q p, s.procs c = some pc ∧ s.upgrade pc.parent = some (q, p) ∧
      p.state.isExited = false ∧ p.children.count c = 1 ∧
      ∀ q' p', s.procs q' = some p' → c ∈ p'.children → q' = q

/-- An exit finds no children to hand over, and a process that reaps itself has no
namesake among its siblings; threads that are killed have no children. -/
def Respects (s : Forest) : Event → Prop
  | .exit o _ => ∀ p, s.procs o = some p → p.children = [] ∧
      (p.tgid = p.pid → ∀ q r, s.upgrade p.parent = some (q, r) → r.nocldwait →
        ∀ c ∈ r.children, s.pidOf c = some p.pid → c = o)
  | .killSiblings o _ => ∀ p, s.procs o = some p → ∀ q ∈ s.table, s.isSibling p.tgid p.pid q →
      ∀ r, s.procs q = some r → r.children = []
  | _ => True

/-- A step that respects the condition. -/
def Next (s s' : Forest) : Prop := ∃ e, step s e = some s' ∧ Respects s e

end Kevlar.Processes
