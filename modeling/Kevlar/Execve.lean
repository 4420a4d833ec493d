import Kevlar.FdTable
import Kevlar.PathLookup

/-!
# execve

`Process::execve` closes the close-on-exec descriptors and replaces the command line,
the environment and the path of the executable, and only then sets up the new address
space, which can fail. A script makes it look up an interpreter on the way and replace
the path a second time. What it does after the new address space exists cannot fail.

Reading the first page of a file, decoding UTF-8 and loading an ELF file are left
abstract; none of them touches the process.
-/
namespace Kevlar.Exec

open Lookup (Str PathComponent RootFs)
open Fallible hiding pure bind

abbrev Bytes : Type := List (BitVec 8)

inductive Failure where
  | errno (e : Lookup.Errno)
  /-- `script_argv[0]` of an empty `argv` -/
  | panic
  deriving DecidableEq, Repr

def einval : Lookup.Errno := .other 22

/-! ## Strings of bounded length -/

def utf8Len (s : Str) : ℕ := (s.map Char.utf8Size).sum

/-- `try_push_str` of an `ArrayString`; the caller ignores that there is no room. -/
def tryPushStr (capacity : ℕ) (s t : Str) : Str :=
  if utf8Len s + utf8Len t ≤ capacity then s ++ t else s

structure Cmdline where
  cmdline : Str
  argv0 : Str
  deriving DecidableEq, Repr

/-- The loop of `set_by_argv`: the arguments with a space between two of them. -/
def pushArgs (fromUtf8 : Bytes → Option Str) : Str → List Bytes → Str
  | cmdline, [] => cmdline
  | cmdline, arg :: args =>
    let pushed := tryPushStr 256 cmdline ((fromUtf8 arg).getD "[invalid utf-8]".toList)
    if args.isEmpty then pushed
    else pushArgs fromUtf8 (tryPushStr 256 pushed [' ']) args

def setByArgv (fromUtf8 : Bytes → Option Str) (argv : List Bytes) : Cmdline :=
  let cmdline := pushArgs fromUtf8 [] argv
  { cmdline := cmdline
    argv0 := tryPushStr 128 [] (cmdline.takeWhile (· != ' ')) }

def environLimit : ℕ := 8 * 1024

/-- `envp_to_vec`: variables until the limit is reached, each with a zero byte. -/
def pushVars : Bytes → List Bytes → Bytes
  | out, [] => out
  | out, var :: envp =>
    if environLimit < out.length + var.length + 1 then out
    else pushVars (out ++ var ++ [0]) envp

def envpToVec (envp : List Bytes) : Bytes := pushVars [] envp

/-- The names of the directories above a path, in front of it. -/
def prependDirs {I : Type} : PathComponent I → Str → Str
  | .root name _, path => name ++ '/' :: path
  | .child parentDir name _, path => prependDirs parentDir (name ++ '/' :: path)

def resolveAbsolutePath {I : Type} : PathComponent I → Str
  | .root name _ => if Lookup.startsWithSlash name then name else ['/']
  | .child parentDir name _ => prependDirs parentDir name

/-! ## The process -/

inductive SigAction where
  | ignore
  | terminate
  | stop
  /-- `Continue` -/
  | resume
  | handler (handler : ℕ) (restorer : Option ℕ) (onAltstack : Bool) (saMask : BitVec 64)
  deriving DecidableEq, Repr

/-- `DEFAULT_ACTIONS` -/
def defaultAction (signal : Fin 64) : SigAction :=
  if signal.val ∈ [0, 17, 23, 28] then .ignore
  else if signal.val = 18 then .resume
  else if signal.val ∈ [19, 20, 21, 22] then .stop
  else .terminate

structure SignalDelivery where
  pending : BitVec 64
  actions : Fin 64 → SigAction
  nocldwait : Bool

def SignalDelivery.resetOnExec (signals : SignalDelivery) : SignalDelivery :=
  { signals with
    actions := fun signal =>
      match signals.actions signal with
      | .handler .. => defaultAction signal
      | action => action
    nocldwait := false }

structure Thread where
  pid : ℕ
  tgid : ℕ
  exitStatus : Option ℤ
  deriving DecidableEq, Repr

/-- A new address space with the entry point and the stack pointer. -/
structure UserspaceEntry (V : Type) where
  vm : V
  ip : ℕ
  userSp : ℕ

/-- The calling process and the tables in which its threads are. Opened files and
address spaces are left abstract. -/
structure ExecState (F V : Type) where
  pid : ℕ
  tgid : ℕ
  openedFiles : Fd.OpenedFileTable F
  cmdline : Cmdline
  environ : Bytes
  exePath : Str
  signals : SignalDelivery
  processes : List Thread
  scheduler : List ℕ
  exitedProcesses : List Thread
  vm : Option V
  frame : ℕ × ℕ

/-- What `execve` asks the rest of the kernel. The header is read into a new page, and
`doElfBinfmt` gives the address space with the vDSO page mapped. -/
structure ExecEnv (I Key V : Type) where
  rootFs : RootFs I Key
  fromUtf8 : Bytes → Option Str
  readHeader : I → Except Lookup.Errno Bytes
  doElfBinfmt : PathComponent I → List Bytes → List Bytes → Bytes →
    Except Lookup.Errno (UserspaceEntry V)

abbrev ExecM (F V α : Type) : Type := Fallible Failure (ExecState F V) α

section Model

variable {I Key F V : Type} [DecidableEq Key]

/-- The `?` operator on a result of the rest of the kernel. -/
def ofResult {α : Type} (r : Except Lookup.Errno α) : ExecM F V α :=
  match r with
  | .ok a => pure a
  | .error e => throw (.errno e)

/-- The path is resolved and stored; one that is too long leaves the empty string. -/
def setExePath (path : PathComponent I) : ExecM F V Unit :=
  modify fun s => { s with exePath := tryPushStr 256 [] (resolveAbsolutePath path) }

/-- `do_setup_userspace` of an interpreter, for which a shebang is not handled. -/
def setupInterpreter (env : ExecEnv I Key V) (path : PathComponent I) (argv envp : List Bytes) :
    ExecM F V (UserspaceEntry V) := do
  let buf ← ofResult (env.readHeader path.inode)
  ofResult (env.doElfBinfmt path argv envp buf)

def newline : BitVec 8 := 10

/-- The line behind `#!`, split at spaces. -/
def shebangWords (buf : Bytes) : List Bytes :=
  ((buf.drop 2).takeWhile (· != newline)).splitOn 32

def isScript (buf : Bytes) : Bool := [35, 33].isPrefixOf buf && buf.contains newline

/-- The path that the first word behind `#!` names. -/
def lookupInterpreter (env : ExecEnv I Key V) (buf : Bytes) :
    Except Lookup.Errno (PathComponent I) :=
  match (shebangWords buf).head?.bind env.fromUtf8 with
  | none => .error einval
  | some path => Lookup.lookupPath env.rootFs (Lookup.pathNew path) true

def doScriptBinfmt (env : ExecEnv I Key V) (scriptArgv envp : List Bytes) (buf : Bytes) :
    ExecM F V (UserspaceEntry V) :=
  match scriptArgv with
  | [] => throw .panic
  | argv0 :: args => do
    let shebangPath ← ofResult (lookupInterpreter env buf)
    setExePath shebangPath
    setupInterpreter env shebangPath (shebangWords buf ++ argv0 :: args) envp

def setupUserspace (env : ExecEnv I Key V) (path : PathComponent I) (argv envp : List Bytes) :
    ExecM F V (UserspaceEntry V) := do
  let buf ← ofResult (env.readHeader path.inode)
  if isScript buf then doScriptBinfmt env argv envp buf
  else ofResult (env.doElfBinfmt path argv envp buf)

namespace ExecState

def isSibling (s : ExecState F V) (thread : Thread) : Bool :=
  thread.tgid == s.tgid && thread.pid != s.pid

/-- `de_thread`: the other threads of the thread group end. -/
def deThread (s : ExecState F V) : ExecState F V :=
  { s with
    processes := s.processes.filter fun thread => !s.isSibling thread
    scheduler := s.scheduler.filter fun pid =>
      !(s.processes.any fun thread => s.isSibling thread && thread.pid == pid)
    exitedProcesses := s.exitedProcesses ++
      (s.processes.filter s.isSibling).map fun thread => { thread with exitStatus := some 0 } }

/-- Everything that `execve` does once the new address space exists. -/
def enter (s : ExecState F V) (entry : UserspaceEntry V) : ExecState F V :=
  { s.deThread with
    signals := s.signals.resetOnExec
    vm := some entry.vm
    frame := (entry.ip, entry.userSp) }

end ExecState

/-- What is replaced before anything can fail. -/
def commitEarly (env : ExecEnv I Key V) (path : PathComponent I) (argv envp : List Bytes) :
    ExecM F V Unit := do
  modify fun s => { s with openedFiles := (Fd.closeCloexecFiles s.openedFiles).2 }
  modify fun s => { s with cmdline := setByArgv env.fromUtf8 argv }
  modify fun s => { s with environ := envpToVec envp }
  setExePath path

def execve (env : ExecEnv I Key V) (path : PathComponent I) (argv envp : List Bytes) :
    ExecM F V Unit := do
  commitEarly env path argv envp
  let entry ← setupUserspace env path argv envp
  modify fun s => s.enter entry

/-! ## A call that fails -/

/-- The interpreter of a script, if the call gets as far as finding it. -/
def scriptInterpreter (env : ExecEnv I Key V) (argv : List Bytes) (buf : Bytes) :
    Option (PathComponent I) :=
  if argv.isEmpty then none else (lookupInterpreter env buf).toOption

def interpreter (env : ExecEnv I Key V) (path : PathComponent I) (argv : List Bytes) :
    Option (PathComponent I) :=
  match env.readHeader path.inode with
  | .ok buf =>
    if isScript buf then scriptInterpreter env argv buf else none
  | .error _ => none

/-- The file whose path is stored in the end. -/
def storedPath (env : ExecEnv I Key V) (path : PathComponent I) (argv : List Bytes) :
    PathComponent I :=
  (interpreter env path argv).getD path

/-- The process after an interpreter was found or not. -/
def ExecState.interpretedBy (s : ExecState F V) : Option (PathComponent I) → ExecState F V
  | some shebangPath => { s with exePath := tryPushStr 256 [] (resolveAbsolutePath shebangPath) }
  | none => s

/-- The process after a call that fails. -/
def ExecState.committed (s : ExecState F V) (env : ExecEnv I Key V) (path : PathComponent I)
    (argv envp : List Bytes) : ExecState F V :=
  { s with
    openedFiles := (Fd.closeCloexecFiles s.openedFiles).2
    cmdline := setByArgv env.fromUtf8 argv
    environ := envpToVec envp
    exePath := tryPushStr 256 [] (resolveAbsolutePath (storedPath env path argv)) }

/-- However the program ends, it leaves the process in a given state. -/
abbrev Leaves {α : Type} (x : ExecM F V α) (s u : ExecState F V) : Prop :=
  x.Ends s (fun _ s' => s' = u) (fun _ s' => s' = u)

lemma leaves_ofResult {α : Type} (r : Except Lookup.Errno α) (s : ExecState F V) :
    Leaves (ofResult r) s s := by
  cases r with
  | ok a | error e => rfl

omit [DecidableEq Key] in
lemma leaves_setupInterpreter (env : ExecEnv I Key V) (path : PathComponent I)
    (argv envp : List Bytes) (s : ExecState F V) :
    Leaves (setupInterpreter env path argv envp) s s := by
  refine (leaves_ofResult _ s).bind ?_ fun _ _ h => h
  rintro buf u rfl
  exact leaves_ofResult _ u

/-- What a script leaves behind: the path of its interpreter. -/
lemma leaves_doScriptBinfmt (env : ExecEnv I Key V) {argv : List Bytes} (envp : List Bytes)
    (buf : Bytes) (s : ExecState F V) :
    Leaves (doScriptBinfmt env argv envp buf) s
      (s.interpretedBy (scriptInterpreter env argv buf)) := by
  unfold doScriptBinfmt scriptInterpreter
  cases argv with
  | nil => rfl
  | cons argv0 args =>
    cases lookupInterpreter env buf with
    | error e => rfl
    | ok shebangPath => exact leaves_setupInterpreter env shebangPath _ envp _

/-- Setting up the address space touches the process only where a script names its
interpreter. -/
lemma leaves_setupUserspace (env : ExecEnv I Key V) (path : PathComponent I)
    (argv envp : List Bytes) (s : ExecState F V) :
    Leaves (setupUserspace env path argv envp) s
      (s.interpretedBy (interpreter env path argv)) := by
  unfold setupUserspace interpreter
  cases env.readHeader path.inode with
  | error e => rfl
  | ok buf =>
    refine ends_pure_bind ?_
    dsimp only
    cases isScript buf with
    | true => exact leaves_doScriptBinfmt env envp buf s
    | false => exact leaves_ofResult _ s

/-- A call fails only where it sets up the address space. -/
lemma execve_fails_state {env : ExecEnv I Key V} {path : PathComponent I}
    {argv envp : List Bytes} {s s' : ExecState F V} {e : Failure}
    (h : (execve env path argv envp).Fails s e s') : s' = s.committed env path argv envp := by
  have hends : (execve env path argv envp).Ends s (fun _ _ => True)
      (fun _ s' => s' = s.committed env path argv envp) := by
    have hearly : (commitEarly env path argv envp).Returns s ()
        { s with
          openedFiles := (Fd.closeCloexecFiles s.openedFiles).2
          cmdline := setByArgv env.fromUtf8 argv
          environ := envpToVec envp
          exePath := tryPushStr 256 [] (resolveAbsolutePath path) } := rfl
    refine hearly.bind_ends_iff.mpr ?_
    refine (leaves_setupUserspace env path argv envp _).bind (fun _ _ _ => trivial) ?_
    rintro e u rfl
    unfold ExecState.committed storedPath
    cases interpreter env path argv with
    | none | some shebangPath => rfl
  exact hends.fails h

/-- A failed call leaves the process as it was iff there was nothing to close and the
command line, the environment and the path were already the new ones. -/
theorem execve_failed_unchanged_iff (env : ExecEnv I Key V) (path : PathComponent I)
    (argv envp : List Bytes) (s s' : ExecState F V) (e : Lookup.Errno)
    (h : (execve env path argv envp).Fails s (.errno e) s') :
    s' = s ↔ (∀ slot ∈ s.openedFiles.files, Fd.isCloexec slot = false) ∧
      s.cmdline = setByArgv env.fromUtf8 argv ∧ s.environ = envpToVec envp ∧
      s.exePath = tryPushStr 256 [] (resolveAbsolutePath (storedPath env path argv)) := by
  rw [execve_fails_state h, ← Fd.closeCloexecFiles_eq_self_iff]
  constructor
  · intro heq
    exact ⟨congrArg ExecState.openedFiles heq, (congrArg ExecState.cmdline heq).symm,
      (congrArg ExecState.environ heq).symm, (congrArg ExecState.exePath heq).symm⟩
  · rintro ⟨hfiles, hcmdline, henviron, hpath⟩
    rw [ExecState.committed, hfiles, ← hcmdline, ← henviron, ← hpath]

end Model

/-- Every file is empty, and an empty file is not an executable. -/
def emptyFiles : ExecEnv Bool Unit Unit where
  rootFs := Lookup.mirrorFs (.root [] true)
  fromUtf8 bytes := some (bytes.map fun b => Char.ofNat b.toNat)
  readHeader _ := .ok []
  doElfBinfmt _ _ _ _ := .error (.other 8)

/-- A shell with a close-on-exec descriptor. -/
def shell : ExecState Unit Unit where
  pid := 2
  tgid := 2
  openedFiles :=
    { files := [some ⟨(), true⟩]
      lowestFreeHint := 1
      length_lt := by norm_num [Fd.maxSlots] }
  cmdline := ⟨['s', 'h'], ['s', 'h']⟩
  environ := [65, 61, 0]
  exePath := ['/', 's', 'h']
  signals := ⟨0, defaultAction, false⟩
  processes := [⟨2, 2, none⟩]
  scheduler := []
  exitedProcesses := []
  vm := some ()
  frame := (0, 0)

def emptyPath : PathComponent Bool := .child (.root [] true) ['x'] true

/-- The call fails with `ENOEXEC`, and the descriptor is closed and the rest replaced. -/
theorem execve_fails_changed : ∃ s',
    (execve emptyFiles emptyPath [[120]] []).Fails shell (.errno (.other 8)) s' ∧
    s'.openedFiles.files = [none] ∧ s'.cmdline = ⟨['x'], ['x']⟩ ∧ s'.environ = [] ∧
    s'.exePath = ['/', 'x'] := by
  refine ⟨_, rfl, rfl, ?_, rfl, ?_⟩
  · decide
  · decide

/-- The second of two calls that fail in the same way changes nothing. -/
theorem execve_fails_unchanged_again : ∃ s : ExecState Unit Unit,
    s.openedFiles.files = [none] ∧
    (execve emptyFiles emptyPath [[120]] []).Fails s (.errno (.other 8)) s := by
  have hfails : (execve emptyFiles emptyPath [[120]] []).Fails
      (shell.committed emptyFiles emptyPath [[120]] []) (.errno (.other 8))
      ((shell.committed emptyFiles emptyPath [[120]] []).committed emptyFiles emptyPath
        [[120]] []) := rfl
  have hsame := (execve_failed_unchanged_iff _ _ _ _ _ _ _ hfails).mpr ⟨by decide, rfl, rfl, rfl⟩
  exact ⟨_, rfl, hfails⟩

end Kevlar.Exec
