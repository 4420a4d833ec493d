import Kevlar.FallibleState
import Kevlar.MemoryImage
import Kevlar.VmArea

/-!
# Signal frames

A signal handler runs on a context that delivery writes to the user stack. The kernel
keeps two stacks of four slots beside it: the interrupted register frames and the
addresses of the contexts. Delivery pushes to both, `sigreturn` pops both, and `execve`
clears only the first. A session remembers which deliveries have not been returned
from; as long as neither stack is full and the contexts stay as they were written,
every `sigreturn` restores the registers and the signal mask of the last of them.
It leaves by `SYSRET`, which overwrites two registers, so a delivery on the way out of an
interrupt is undone only if these two held what `SYSRET` puts there.
-/

/-- A vector with a fixed capacity that is used as a stack; the top comes first. -/
structure ArrayVec (α : Type) (capacity : ℕ) where
  items : List α
  length_le : items.length ≤ capacity

namespace ArrayVec

variable {α : Type} {capacity : ℕ}

def empty : ArrayVec α capacity := ⟨[], Nat.zero_le _⟩

def isFull (v : ArrayVec α capacity) : Bool := v.items.length == capacity

/-- Push unless the vector is full. -/
def pushIfRoom (a : α) (v : ArrayVec α capacity) : ArrayVec α capacity :=
  if h : v.items.length < capacity then ⟨a :: v.items, h⟩ else v

def pop (v : ArrayVec α capacity) : Option α × ArrayVec α capacity :=
  (v.items.head?, ⟨v.items.tail, by rw [List.length_tail]; have := v.length_le; omega⟩)

lemma items_pushIfRoom {v : ArrayVec α capacity} (a : α) (h : v.isFull = false) :
    (v.pushIfRoom a).items = a :: v.items := by
  have hlt : v.items.length < capacity := by
    have hle := v.length_le
    have hne : v.items.length ≠ capacity := by simpa [isFull] using h
    omega
  rw [pushIfRoom, dif_pos hlt]

end ArrayVec

namespace Kevlar.Signal

open ByteBuffer
open Fallible hiding pure bind

/-- The registers of a frame that user code runs on. -/
structure UserRegs where
  (r15 r14 r13 r12 rbp rbx r11 r10 r9 r8 rax rcx rdx rsi rdi : BitVec 64)
  (rip rflags rsp : BitVec 64)
  deriving DecidableEq

/-- `SYSRET` takes the segments from a model-specific register and nothing reads
`orig_rax`, so these three fields do not reach user code. -/
structure PtRegs extends UserRegs where
  (origRax cs ss : BitVec 64)
  deriving DecidableEq

/-- The way back to user code: the stub of system calls, or the one of interrupts. -/
inductive Exit where
  | sysret
  | iret
  deriving DecidableEq

/-- What user code gets. Both stubs set the interrupt flag. The one of system calls skips the
slots of `rcx` and `r11`, which `SYSRET` uses for the address and the flags; `rax` is the
result, which `dispatch` has put into the frame too. -/
def Exit.load (frame : PtRegs) : Exit → UserRegs
  | .iret => { frame.toUserRegs with rflags := frame.rflags ||| 0x200 }
  | .sysret => { frame.toUserRegs with
      rflags := frame.rflags ||| 0x200
      rcx := frame.rip
      r11 := frame.rflags ||| 0x200 }

structure AccessError where
  deriving DecidableEq

/-! ## User memory -/

/-- `UserVAddr::new_nonnull`. -/
def userAddr (addr : ℕ) : Fallible AccessError Bytes ℕ :=
  if addr = 0 then throw ⟨⟩ else pure addr

def writeBytes (addr : ℕ) (buf : List (BitVec 8)) : Fallible AccessError Bytes Unit :=
  if accessOk addr buf.length then modify fun mem => store mem addr buf else throw ⟨⟩

def wordBytes (value : BitVec 64) : List (BitVec 8) := littleEndian 8 value.toNat

def writeU64 (addr : ℕ) (value : BitVec 64) : Fallible AccessError Bytes Unit :=
  writeBytes addr (wordBytes value)

def readU64 (mem : Bytes) (addr : ℕ) : Option (BitVec 64) :=
  if accessOk addr 8 then some (BitVec.ofNat 64 (readWord mem addr 8)) else none

/-! ## The context on the user stack -/

/-- The saved signal mask and registers, in the order of the layout. -/
def contextWords (frame : PtRegs) (savedSigmask originalRsp : BitVec 64) : List (BitVec 64) :=
  [savedSigmask, frame.rip, originalRsp, frame.rbp, frame.rax, frame.rbx, frame.rcx, frame.rdx,
    frame.rsi, frame.rdi, frame.r8, frame.r9, frame.r10, frame.r11, frame.r12, frame.r13,
    frame.r14, frame.r15, frame.rflags]

/-- The bytes of a context. -/
def contextSize : ℕ := 152

/-- The loop over the words, from the word with index `i` on. -/
def writeWords (ctxBase : ℕ) : ℕ → List (BitVec 64) → Fallible AccessError Bytes Unit
  | _, [] => pure ()
  | i, val :: rest => do
    writeU64 (wadd ctxBase (i * 8)) val
    writeWords ctxBase (i + 1) rest

/-- `mov eax, 15; syscall; nop`. -/
def trampoline : List (BitVec 8) := [0xb8, 0x0f, 0x00, 0x00, 0x00, 0x0f, 0x05, 0x90]

/-- The context lies below the red zone, at the bottom of an area of 832 bytes. -/
def contextBase (rsp : BitVec 64) : ℕ := wsub (wsub rsp.toNat 128) 832

/-- The stack pointer and the return address of the handler: the restorer, or a
trampoline written below the context. -/
def placeReturn (ctxBase : ℕ) : Option (BitVec 64) → Fallible AccessError Bytes (ℕ × BitVec 64)
  | some restorer => pure (ctxBase, restorer)
  | none => do
    let trampolineRip := wsub ctxBase trampoline.length
    writeBytes trampolineRip trampoline
    pure (trampolineRip, BitVec.ofNat 64 trampolineRip)

def setupSignalStack (frame : PtRegs) (signal : ℕ) (saHandler : BitVec 64)
    (restorer : Option (BitVec 64)) (savedSigmask originalRsp : BitVec 64) :
    Fallible AccessError Bytes (ℕ × PtRegs) := do
  let _ ← userAddr frame.rsp.toNat
  let ctxBase := contextBase frame.rsp
  writeWords ctxBase 0 (contextWords frame savedSigmask originalRsp)
  let (userRsp, returnRip) ← placeReturn ctxBase restorer
  let aligned ← userAddr (alignDown userRsp 16)
  let userRsp := wsub aligned 8
  writeU64 userRsp returnRip
  pure (ctxBase, { frame with
    rip := saHandler
    rsp := BitVec.ofNat 64 userRsp
    rdi := BitVec.ofNat 64 signal
    rsi := 0
    rdx := 0 })

/-- The restored frame and the saved mask; a word that cannot be read comes from the
frame that the kernel kept. -/
def setupSigreturnStack (mem : Bytes) (current signaled : PtRegs) (ctxBase : ℕ) :
    PtRegs × BitVec 64 :=
  if ctxBase = 0 then (signaled, 0)
  else
    let word (offset : ℕ) (kept : BitVec 64) := (readU64 mem (wadd ctxBase offset)).getD kept
    ({ current with
        rip := word 8 signaled.rip
        rsp := word 16 signaled.rsp
        rbp := word 24 signaled.rbp
        rax := word 32 signaled.rax
        rbx := word 40 signaled.rbx
        rcx := word 48 signaled.rcx
        rdx := word 56 signaled.rdx
        rsi := word 64 signaled.rsi
        rdi := word 72 signaled.rdi
        r8 := word 80 signaled.r8
        r9 := word 88 signaled.r9
        r10 := word 96 signaled.r10
        r11 := word 104 signaled.r11
        r12 := word 112 signaled.r12
        r13 := word 120 signaled.r13
        r14 := word 128 signaled.r14
        r15 := word 136 signaled.r15
        rflags := word 144 signaled.rflags },
      (readU64 mem ctxBase).getD 0)

/-! ## Delivery, `sigreturn` and `execve` -/

inductive SigAction where
  | ignore
  | terminate
  | stop
  | resume
  | handler (handler : BitVec 64) (restorer : Option (BitVec 64)) (onAltstack : Bool)
      (saMask : BitVec 64)
  deriving DecidableEq

/-- The fields of a process that signal frames use, with its user registers and memory. -/
structure Process where
  frame : PtRegs
  mem : Bytes
  sigset : BitVec 64
  signaledFrameStack : ArrayVec PtRegs 4
  signalCtxBaseStack : ArrayVec ℕ 4
  altStackSp : ℕ
  altStackSize : ℕ
  /-- `sigsuspend_saved_mask`, while `sigsuspend_has_mask` is set. -/
  sigsuspendMask : Option (BitVec 64)

inductive SignalFault where
  | access
  /-- `exit_by_signal` does not return. -/
  | exitBySignal (signal : ℕ)
  deriving DecidableEq

def sigkill : ℕ := 9

/-- The frame on which the context is set up: on the alternate stack if the handler asks
for it, one is registered and the stack pointer is not on it already. -/
def Process.handlerFrame (p : Process) (onAltstack : Bool) : PtRegs :=
  let altTop := wadd p.altStackSp p.altStackSize
  if onAltstack ∧ p.altStackSp ≠ 0 ∧ 0 < p.altStackSize ∧
      (p.frame.rsp.toNat < p.altStackSp ∨ altTop ≤ p.frame.rsp.toNat) then
    { p.frame with rsp := BitVec.ofNat 64 altTop }
  else p.frame

/-- The handler case of `try_delivering_signal`. The mask stays as it is: `sa_mask` is
not used. -/
def deliverToHandler (signal : ℕ) (handler : BitVec 64) (restorer : Option (BitVec 64))
    (onAltstack : Bool) : Fallible SignalFault Process Unit := fun p =>
  let frame := p.handlerFrame onAltstack
  let signaled := p.signaledFrameStack.pushIfRoom p.frame
  match setupSignalStack frame signal handler restorer p.sigset p.frame.rsp p.mem with
  | (.ok (ctxBase, frame), mem) =>
    (.ok (), { p with
      frame := frame
      mem := mem
      signaledFrameStack := signaled
      signalCtxBaseStack := p.signalCtxBaseStack.pushIfRoom ctxBase })
  | (.error _, mem) =>
    (.error .access, { p with frame := frame, mem := mem, signaledFrameStack := signaled })

/-- Delivery of the signal that `pop_pending_unblocked` returned. Stopping and continuing
leave the registers alone. -/
def tryDeliveringSignal (signal : ℕ) : SigAction → Fallible SignalFault Process Unit
  | .ignore => pure ()
  | .terminate => throw (.exitBySignal signal)
  | .stop => pure ()
  | .resume => pure ()
  | .handler handler restorer onAltstack _ => deliverToHandler signal handler restorer onAltstack

def restoreSignaledUserStack : Fallible SignalFault Process Unit := fun p =>
  let popped := p.signaledFrameStack.pop
  let ctxBase := p.signalCtxBaseStack.pop
  let p := { p with signaledFrameStack := popped.2, signalCtxBaseStack := ctxBase.2 }
  match popped.1 with
  | some signaled =>
    let restored := setupSigreturnStack p.mem p.frame signaled (ctxBase.1.getD 0)
    (.ok (), { p with frame := restored.1, sigset := restored.2 })
  | none => (.error (.exitBySignal sigkill), p)

def sigsuspendRestoreMask (p : Process) : Process :=
  match p.sigsuspendMask with
  | some bits => { p with sigset := bits, sigsuspendMask := none }
  | none => p

def sysRtSigreturn : Fallible SignalFault Process (BitVec 64) := do
  restoreSignaledUserStack
  modify sigsuspendRestoreMask
  let p ← get
  pure p.frame.rax

/-- What `execve` does to the signal frames; the registers and the memory are those of
the new program. -/
def execve (frame : PtRegs) (mem : Bytes) (p : Process) : Process :=
  { p with frame := frame, mem := mem, signaledFrameStack := ArrayVec.empty }

/-! ## Setting up a context -/

section UserMemory

variable {mem mem' : Bytes} {addr : ℕ}

lemma returns_userAddr {a : ℕ} :
    (userAddr addr).Returns mem a mem' ↔ addr ≠ 0 ∧ a = addr ∧ mem' = mem := by
  unfold userAddr
  by_cases h : addr = 0
  · simp [h]
  · simp [h]

variable {u : Unit} {words : List (BitVec 64)} {i : ℕ}

lemma returns_writeBytes {buf : List (BitVec 8)} :
    (writeBytes addr buf).Returns mem u mem' ↔
      addr + buf.length ≤ kernelBaseAddr ∧ mem' = store mem addr buf := by
  unfold writeBytes accessOk
  by_cases h : addr + buf.length ≤ kernelBaseAddr
  · simp [h]
  · simp [h]

@[simp] lemma length_wordBytes (value : BitVec 64) : (wordBytes value).length = 8 :=
  length_littleEndian 8 _

lemma readU64_of_holds {value : BitVec 64} (hmem : Holds mem addr (wordBytes value))
    (htop : addr + 8 ≤ kernelBaseAddr) : readU64 mem addr = some value := by
  have hlt : value.toNat < 256 ^ 8 := value.isLt
  rw [readU64, accessOk, if_pos (by simpa using htop), hmem.readWord_eq, Nat.mod_eq_of_lt hlt,
    BitVec.ofNat_toNat, BitVec.setWidth_eq]

@[simp] lemma length_flatMap_wordBytes (words : List (BitVec 64)) :
    (words.flatMap wordBytes).length = 8 * words.length := by
  induction words with
  | nil => rfl
  | cons w words ih => simp [ih]; omega

lemma holds_word (hmem : Holds mem addr (words.flatMap wordBytes)) (hi : i < words.length) :
    Holds mem (addr + 8 * i) (wordBytes words[i]) := by
  induction words generalizing addr i with
  | nil => simp at hi
  | cons w words ih =>
    rw [List.flatMap_cons, holds_append, length_wordBytes] at hmem
    cases i with
    | zero => exact hmem.1
    | succ i =>
      rw [List.getElem_cons_succ, mul_add, add_comm (8 * i), ← add_assoc]
      exact ih hmem.2 (by simpa using hi)

/-- The words are stored one behind the other, all of them below the kernel. -/
lemma returns_writeWords {ctxBase : ℕ} (hbase : ctxBase + i * 8 < 2 ^ 64)
    (h : (writeWords ctxBase i words).Returns mem u mem') :
    (words ≠ [] → ctxBase + i * 8 + 8 * words.length ≤ kernelBaseAddr) ∧
      mem' = store mem (ctxBase + i * 8) (words.flatMap wordBytes) := by
  induction words generalizing i mem with
  | nil =>
    rw [writeWords, returns_pure] at h
    simp [h.2]
  | cons w words ih =>
    rw [writeWords, returns_bind] at h
    obtain ⟨_, mem₁, hwrite, hrest⟩ := h
    rw [writeU64, returns_writeBytes, length_wordBytes, wadd_of_lt hbase] at hwrite
    obtain ⟨htop, rfl⟩ := hwrite
    have hnext : ctxBase + (i + 1) * 8 < 2 ^ 64 := by
      unfold kernelBaseAddr at htop
      omega
    obtain ⟨hlast, rfl⟩ := ih hnext hrest
    constructor
    · intro _
      rcases words with _ | ⟨v, words⟩
      · simpa using htop
      · have := hlast (by simp)
        simp only [List.length_cons] at this ⊢
        omega
    · rw [← store_take_drop mem (ctxBase + i * 8) ((w :: words).flatMap wordBytes) (n := 8)
        (by simp), List.flatMap_cons, List.take_left' (length_wordBytes w),
        List.drop_left' (length_wordBytes w)]
      congr 1
      omega

end UserMemory

/-- The bytes of the context of an interrupted frame. -/
def contextBytes (frame : PtRegs) (sigset : BitVec 64) : List (BitVec 8) :=
  (contextWords frame sigset frame.rsp).flatMap wordBytes

@[simp] lemma length_contextBytes (frame : PtRegs) (sigset : BitVec 64) :
    (contextBytes frame sigset).length = contextSize := by
  rfl

/-- A context of `frame` and `sigset` in user memory. -/
structure ContextAt (mem : Bytes) (ctxBase : ℕ) (frame : PtRegs) (sigset : BitVec 64) :
    Prop where
  pos : 0 < ctxBase
  top : ctxBase + contextSize ≤ kernelBaseAddr
  holds : Holds mem ctxBase (contextBytes frame sigset)

variable {mem mem' : Bytes} {ctxBase : ℕ} {frame : PtRegs} {sigset : BitVec 64}
  {restorer : Option (BitVec 64)} {p : Process} {s : Session}

lemma ContextAt.congr (h : ContextAt mem ctxBase frame sigset)
    (hsame : ∀ i < contextSize, mem' (ctxBase + i) = mem (ctxBase + i)) :
    ContextAt mem' ctxBase frame sigset where
  pos := h.pos
  top := h.top
  holds := h.holds.congr fun i hi => hsame i (by simpa using hi)

lemma returns_placeReturn {userRsp : ℕ} {returnRip : BitVec 64} (hbase : ctxBase < 2 ^ 64)
    (h : (placeReturn ctxBase restorer).Returns mem (userRsp, returnRip) mem') :
    userRsp ≤ ctxBase ∧ ∀ j, j < userRsp ∨ ctxBase ≤ j → mem' j = mem j := by
  cases restorer with
  | some restorer =>
    rw [placeReturn, returns_pure] at h
    simp_all
  | none =>
    rw [placeReturn, returns_bind] at h
    obtain ⟨_, mem₁, hwrite, hret⟩ := h
    rw [returns_writeBytes] at hwrite
    rw [returns_pure, Prod.mk.injEq] at hret
    obtain ⟨⟨hrsp, -⟩, hmem⟩ := hret
    obtain ⟨htop, hstore⟩ := hwrite
    have hlen : trampoline.length = 8 := rfl
    rw [← hrsp] at htop hstore
    have hle : userRsp + 8 ≤ ctxBase := by
      unfold kernelBaseAddr at htop
      unfold wsub at hrsp
      omega
    constructor
    · omega
    · intro j hj
      rw [hmem, hstore, store_apply_of_outside (by omega)]

variable {signal : ℕ} {handler : BitVec 64} {onAltstack : Bool} {i : Interrupted}

/-- What a delivery writes: the context at its base, and nothing above it or below the
stack pointer of the handler. -/
lemma returns_setupSignalStack {frame' : PtRegs} {originalRsp : BitVec 64}
    (h : (setupSignalStack frame signal handler restorer sigset originalRsp).Returns mem
      (ctxBase, frame') mem') :
    ctxBase = contextBase frame.rsp ∧
      ContextAt mem' ctxBase { frame with rsp := originalRsp } sigset ∧
      frame'.rsp.toNat ≤ ctxBase ∧
      ∀ j, j < frame'.rsp.toNat ∨ ctxBase + contextSize ≤ j → mem' j = mem j := by
  unfold setupSignalStack at h
  simp only [returns_bind, returns_userAddr, returns_pure, Prod.mk.injEq] at h
  obtain ⟨_, mem₀, ⟨-, -, hsame⟩, _, mem₁, hwords, ⟨userRsp, returnRip⟩, mem₂, hplace, aligned, _,
    ⟨hne, haligned, rfl⟩, _, mem₃, hpush, ⟨hctx, hframe⟩, rfl⟩ := h
  have hbase : contextBase frame.rsp < 2 ^ 64 := wsub_lt _ _
  rw [hsame] at hwords
  obtain ⟨htop, rfl⟩ := returns_writeWords (by simpa using hbase) hwords
  obtain ⟨hle, hout⟩ := returns_placeReturn hbase hplace
  rw [writeU64, returns_writeBytes, length_wordBytes] at hpush
  obtain ⟨-, hmem⟩ := hpush
  rw [zero_mul, add_zero] at htop hout
  rw [← hctx] at htop hout hbase hle
  -- the return address is the lowest word that is written
  have hlow : aligned ≤ userRsp ∧ 16 ≤ aligned := by
    have hmod := alignDown_mod userRsp 16
    have hdown := alignDown_le userRsp 16
    rw [← haligned] at hne hmod hdown
    omega
  have hrsp : frame'.rsp.toNat + 8 = aligned := by
    rw [hframe, BitVec.toNat_ofNat, wsub_of_le (by omega) (by omega)]
    omega
  have hpushed : ∀ j, j < frame'.rsp.toNat ∨ ctxBase ≤ j →
      mem' j = store mem ctxBase ((contextWords frame sigset originalRsp).flatMap wordBytes) j := by
    intro j hj
    rw [hmem, wsub_of_le (by omega) (by omega),
      store_apply_of_outside (by rw [length_wordBytes]; omega), hout j (by omega), hctx]
  refine ⟨hctx, ⟨by omega, htop (by simp [contextWords]), ?_⟩, by omega, ?_⟩
  · exact (holds_store mem ctxBase _).congr fun i _ => hpushed _ (by omega)
  · intro j hj
    rw [hpushed j (by omega)]
    apply store_apply_of_outside
    exact hj.imp (fun h => by omega) id

/-! ## Reading a context back -/

lemma ContextAt.readU64_eq {value : BitVec 64} (h : ContextAt mem ctxBase frame sigset)
    (offset : ℕ) (hoffset : 8 * (offset / 8) = offset)
    (hvalue : (contextWords frame sigset frame.rsp)[offset / 8]? = some value) :
    readU64 mem (wadd ctxBase offset) = some value := by
  obtain ⟨hi, hget⟩ := List.getElem?_eq_some_iff.mp hvalue
  have hlen : (contextWords frame sigset frame.rsp).length = 19 := rfl
  have htop := h.top
  unfold contextSize at htop
  have hadd : wadd ctxBase offset = ctxBase + 8 * (offset / 8) := by
    rw [hoffset]
    exact wadd_of_lt (by unfold kernelBaseAddr at htop; omega)
  rw [hadd]
  apply readU64_of_holds
  · rw [← hget]
    exact holds_word h.holds hi
  · omega

/-- Whatever the current frame is, the context decides what `sigreturn` restores. -/
lemma ContextAt.setupSigreturnStack_eq (h : ContextAt mem ctxBase frame sigset)
    (current signaled : PtRegs) :
    (setupSigreturnStack mem current signaled ctxBase).1.toUserRegs = frame.toUserRegs ∧
      (setupSigreturnStack mem current signaled ctxBase).2 = sigset := by
  have hmask : readU64 mem ctxBase = some sigset := by
    have hlt : ctxBase < 2 ^ 64 := by
      have htop := h.top
      unfold kernelBaseAddr at htop
      omega
    have hread := h.readU64_eq 0 rfl rfl
    rwa [wadd_of_lt (by simpa using hlt), add_zero] at hread
  rw [setupSigreturnStack, if_neg h.pos.ne']
  constructor
  · simp only [h.readU64_eq 8 rfl rfl, h.readU64_eq 16 rfl rfl, h.readU64_eq 24 rfl rfl,
      h.readU64_eq 32 rfl rfl, h.readU64_eq 40 rfl rfl, h.readU64_eq 48 rfl rfl,
      h.readU64_eq 56 rfl rfl, h.readU64_eq 64 rfl rfl, h.readU64_eq 72 rfl rfl,
      h.readU64_eq 80 rfl rfl, h.readU64_eq 88 rfl rfl, h.readU64_eq 96 rfl rfl,
      h.readU64_eq 104 rfl rfl, h.readU64_eq 112 rfl rfl, h.readU64_eq 120 rfl rfl,
      h.readU64_eq 128 rfl rfl, h.readU64_eq 136 rfl rfl, h.readU64_eq 144 rfl rfl,
      Option.getD_some]
  · rw [hmask, Option.getD_some]

/-! ## Sessions -/

/-- What a delivery interrupted, the way on which it did so, and where it put the context. -/
structure Interrupted where
  frame : PtRegs
  sigset : BitVec 64
  ctxBase : ℕ
  via : Exit
  deriving DecidableEq

/-- `SYSRET` loads the two registers with what they would have held. -/
def Reloads (frame : PtRegs) (via : Exit) : Prop :=
  via = .sysret ∨ frame.rcx = frame.rip ∧ frame.r11 = frame.rflags ||| 0x200

lemma Reloads.load_eq {frame : PtRegs} {via : Exit} (h : Reloads frame via) :
    Exit.load frame .sysret = Exit.load frame via := by
  obtain rfl | ⟨hrcx, hr11⟩ := h
  · rfl
  · cases via with
    | sysret => rfl
    | iret => simp only [Exit.load, ← hrcx, ← hr11]

/-- A process with the deliveries that have not been returned from, the last one first. -/
structure Session where
  process : Process
  interrupted : List Interrupted

/-- Only a handler interrupts the process. -/
def interruptedBy (p : Process) (via : Exit) : SigAction → Option Interrupted
  | .handler _ _ onAltstack _ =>
    some ⟨p.frame, p.sigset, contextBase (p.handlerFrame onAltstack).rsp, via⟩
  | _ => none

inductive Event where
  /-- User code and every other system call. -/
  | user
  | deliver (via : Exit) (signal : ℕ) (action : SigAction)
  /-- A delivery whose context cannot be written. -/
  | failedDelivery
  | sigreturn
  | execve

inductive Step : Event → Session → Session → Prop where
  | user {s : Session} {p : Process}
      (hframes : p.signaledFrameStack = s.process.signaledFrameStack)
      (hbases : p.signalCtxBaseStack = s.process.signalCtxBaseStack) :
      Step .user s ⟨p, s.interrupted⟩
  | deliver {s : Session} {p : Process} (via : Exit) {signal : ℕ} {action : SigAction}
      (hret : (tryDeliveringSignal signal action).Returns s.process () p) :
      Step (.deliver via signal action) s
        ⟨p, (interruptedBy s.process via action).toList ++ s.interrupted⟩
  | failedDelivery {s : Session} {p : Process} {signal : ℕ} {action : SigAction}
      (hfail : (tryDeliveringSignal signal action).Fails s.process .access p) :
      Step .failedDelivery s ⟨p, s.interrupted⟩
  | sigreturn {s : Session} {p : Process} {rax : BitVec 64}
      (hret : sysRtSigreturn.Returns s.process rax p) :
      Step .sigreturn s ⟨p, s.interrupted.tail⟩
  | execve {s : Session} (frame : PtRegs) (mem : Bytes) :
      Step .execve s ⟨execve frame mem s.process, []⟩

/-- The condition on a step. A delivery finds room in both stacks, writes apart from the
contexts that are still needed, and interrupts the return from a system call or registers
that `SYSRET` reloads; user code does not write to the contexts; no mask of `sigsuspend`
waits at a `sigreturn`. -/
def Respects : Event → Session → Session → Prop
  | .user, s, s' => ∀ i ∈ s.interrupted, ∀ j < contextSize,
      s'.process.mem (i.ctxBase + j) = s.process.mem (i.ctxBase + j)
  | .deliver via _ action, s, s' => ∀ new ∈ interruptedBy s.process via action,
      Reloads s.process.frame via ∧
      s.process.signaledFrameStack.isFull = false ∧
      s.process.signalCtxBaseStack.isFull = false ∧
      ∀ i ∈ s.interrupted, i.ctxBase + contextSize ≤ s'.process.frame.rsp.toNat ∨
        new.ctxBase + contextSize ≤ i.ctxBase
  | .failedDelivery, _, _ => False
  | .sigreturn, s, _ => s.process.sigsuspendMask = none
  | .execve, _, _ => True

def Next (s s' : Session) : Prop := ∃ e, Step e s s' ∧ Respects e s s'

/-- Both kernel stacks match the deliveries that have not been returned from; below
them, the second one may hold bases from before an `execve`. -/
structure Paired (s : Session) : Prop where
  frames : s.process.signaledFrameStack.items = s.interrupted.map (·.frame)
  bases : ∃ stale, s.process.signalCtxBaseStack.items = s.interrupted.map (·.ctxBase) ++ stale
  contexts : ∀ i ∈ s.interrupted, ContextAt s.process.mem i.ctxBase i.frame i.sigset
  reloads : ∀ i ∈ s.interrupted, Reloads i.frame i.via

lemma contextAt_handlerFrame
    (h : ContextAt mem ctxBase { p.handlerFrame onAltstack with rsp := p.frame.rsp } p.sigset) :
    ContextAt mem ctxBase p.frame p.sigset := by
  have heq : { p.handlerFrame onAltstack with rsp := p.frame.rsp } = p.frame := by
    unfold Process.handlerFrame
    simp only
    split_ifs <;> rfl
  rwa [heq] at h

/-- A delivery to a handler pushes the frame and the base and writes the context. -/
lemma returns_deliverToHandler {p' : Process} {u : Unit}
    (h : (deliverToHandler signal handler restorer onAltstack).Returns p u p') :
    let ctxBase := contextBase (p.handlerFrame onAltstack).rsp
    p'.signaledFrameStack = p.signaledFrameStack.pushIfRoom p.frame ∧
      p'.signalCtxBaseStack = p.signalCtxBaseStack.pushIfRoom ctxBase ∧
      ContextAt p'.mem ctxBase p.frame p.sigset ∧
      ∀ j, j < p'.frame.rsp.toNat ∨ ctxBase + contextSize ≤ j → p'.mem j = p.mem j := by
  unfold Returns deliverToHandler at h
  simp only at h
  split at h
  next ctxBase frame mem hsetup =>
    obtain ⟨hbase, hcontext, -, hout⟩ := returns_setupSignalStack hsetup
    cases h
    exact ⟨rfl, by rw [hbase], hbase ▸ contextAt_handlerFrame hcontext, hbase ▸ hout⟩
  next => cases h

lemma Paired.push (h : Paired s)
    (hframes : p.signaledFrameStack.items = i.frame :: s.process.signaledFrameStack.items)
    (hbases : p.signalCtxBaseStack.items = i.ctxBase :: s.process.signalCtxBaseStack.items)
    (hcontext : ContextAt p.mem i.ctxBase i.frame i.sigset) (hreloads : Reloads i.frame i.via)
    (hrest : ∀ o ∈ s.interrupted, ∀ j < contextSize,
      p.mem (o.ctxBase + j) = s.process.mem (o.ctxBase + j)) :
    Paired ⟨p, i :: s.interrupted⟩ where
  frames := by rw [hframes, h.frames, List.map_cons]
  bases := by
    obtain ⟨stale, hstale⟩ := h.bases
    exact ⟨stale, by rw [hbases, hstale, List.map_cons, List.cons_append]⟩
  contexts := by
    intro o ho
    rcases List.mem_cons.mp ho with rfl | ho
    · exact hcontext
    · exact (h.contexts o ho).congr (hrest o ho)
  reloads := List.forall_mem_cons.mpr ⟨hreloads, h.reloads⟩

/-- `sigreturn` takes the last delivery from both stacks and restores what it
interrupted. -/
lemma Paired.returns_sysRtSigreturn {rest : List Interrupted} (h : Paired s)
    (hint : s.interrupted = i :: rest) (hmask : s.process.sigsuspendMask = none) :
    ∃ p, sysRtSigreturn.Returns s.process i.frame.rax p ∧
      Exit.load p.frame .sysret = Exit.load i.frame i.via ∧ p.sigset = i.sigset ∧
      p.sigsuspendMask = none ∧ Paired ⟨p, rest⟩ := by
  obtain ⟨stale, hstale⟩ := h.bases
  have hframes := h.frames
  have hcontexts := h.contexts
  have hreloads := h.reloads
  rw [hint] at hreloads
  rw [hint, List.map_cons] at hframes
  rw [hint, List.map_cons, List.cons_append] at hstale
  rw [hint] at hcontexts
  obtain ⟨hregs, hset⟩ := (hcontexts i List.mem_cons_self).setupSigreturnStack_eq
    s.process.frame i.frame
  let restored := setupSigreturnStack s.process.mem s.process.frame i.frame i.ctxBase
  let p : Process := { s.process with
    frame := restored.1
    sigset := restored.2
    signaledFrameStack := s.process.signaledFrameStack.pop.2
    signalCtxBaseStack := s.process.signalCtxBaseStack.pop.2 }
  have hrestore : restoreSignaledUserStack.Returns s.process () p := by
    have hframe : s.process.signaledFrameStack.pop.1 = some i.frame := by
      simp [ArrayVec.pop, hframes]
    have hbase : s.process.signalCtxBaseStack.pop.1 = some i.ctxBase := by
      simp [ArrayVec.pop, hstale]
    simp only [Returns, restoreSignaledUserStack, hframe, hbase, Option.getD_some]
    rfl
  have hsuspend : sigsuspendRestoreMask p = p := by
    rw [sigsuspendRestoreMask, show p.sigsuspendMask = none from hmask]
  have hload : Exit.load p.frame .sysret = Exit.load i.frame .sysret := by
    simp only [Exit.load, show p.frame.toUserRegs = i.frame.toUserRegs from hregs]
  refine ⟨p, ?_, hload.trans (hreloads i List.mem_cons_self).load_eq, hset, hmask, ?_⟩
  · unfold sysRtSigreturn
    rw [returns_bind]
    refine ⟨(), p, hrestore, ?_⟩
    rw [returns_modify_bind, hsuspend, returns_get_bind, returns_pure]
    exact ⟨congrArg UserRegs.rax hregs.symm, rfl⟩
  · exact {
      frames := by simp [p, ArrayVec.pop, hframes]
      bases := ⟨stale, by simp [p, ArrayVec.pop, hstale]⟩
      contexts := fun o ho => hcontexts o (List.mem_cons_of_mem i ho)
      reloads := fun o ho => hreloads o (List.mem_cons_of_mem i ho) }

/-- Without an open delivery the stack of frames is empty, and `sigreturn` kills the
process. -/
lemma Paired.not_returns_sysRtSigreturn {rax : BitVec 64} (h : Paired s)
    (hint : s.interrupted = []) : ¬ sysRtSigreturn.Returns s.process rax p := by
  intro hret
  obtain ⟨_, _, hrestore, -⟩ := returns_bind.mp hret
  have hframes := h.frames
  rw [hint, List.map_nil] at hframes
  have hframe : s.process.signaledFrameStack.pop.1 = none := by
    simp [ArrayVec.pop, hframes]
  simp [Returns, restoreSignaledUserStack, hframe] at hrestore

lemma Paired.next {s' : Session} (h : Paired s) (hnext : Next s s') : Paired s' := by
  obtain ⟨e, hstep, hrespects⟩ := hnext
  cases hstep with
  | user hframes hbases =>
    exact {
      frames := by rw [hframes, h.frames]
      bases := by rw [hbases]; exact h.bases
      contexts := fun i hi => (h.contexts i hi).congr (hrespects i hi)
      reloads := h.reloads }
  | @deliver _ p via signal action hret =>
    cases action with
    | handler handler restorer onAltstack saMask =>
      obtain ⟨hreloads, hroom, hroom', hapart⟩ := hrespects _ rfl
      obtain ⟨hframes, hbases, hcontext, hout⟩ := returns_deliverToHandler hret
      apply h.push
      · rw [hframes, ArrayVec.items_pushIfRoom _ hroom]
      · rw [hbases, ArrayVec.items_pushIfRoom _ hroom']
      · exact hcontext
      · exact hreloads
      · intro o ho j hj
        have := hapart o ho
        exact hout _ (by dsimp only at this; omega)
    | terminate => simp [tryDeliveringSignal] at hret
    | ignore | stop | resume =>
      rw [tryDeliveringSignal, returns_pure] at hret
      simpa [hret.2, interruptedBy] using h
  | failedDelivery => exact hrespects.elim
  | @sigreturn _ p rax hret =>
    cases hint : s.interrupted with
    | nil => exact (h.not_returns_sysRtSigreturn hint hret).elim
    | cons i rest =>
      obtain ⟨p', hret', -, -, -, hpaired⟩ := h.returns_sysRtSigreturn hint hrespects
      cases hret.symm.trans hret'
      exact hpaired
  | execve frame mem =>
    exact {
      frames := rfl
      bases := ⟨_, rfl⟩
      contexts := fun i hi => by simp at hi
      reloads := fun i hi => by simp at hi }

lemma paired_of_run (hframes : p.signaledFrameStack = ArrayVec.empty)
    (hrun : Relation.ReflTransGen Next ⟨p, []⟩ s) : Paired s := by
  induction hrun with
  | refl =>
    exact {
      frames := by rw [hframes]; rfl
      bases := ⟨_, rfl⟩
      contexts := fun i hi => by simp at hi
      reloads := fun i hi => by simp at hi }
  | tail _ hnext ih => exact ih.next hnext

/-- In every run whose steps all respect the condition, user code gets from a `sigreturn` the
registers and the mask that the last open delivery kept it from. The step it makes
respects the condition too, so this applies to the next `sigreturn` in turn. -/
theorem sigreturn_restores {p : Process} {s : Session} {i : Interrupted} {rest : List Interrupted}
    (hframes : p.signaledFrameStack = ArrayVec.empty) (hrun : Relation.ReflTransGen Next ⟨p, []⟩ s)
    (hint : s.interrupted = i :: rest) (hmask : s.process.sigsuspendMask = none) :
    ∃ p', sysRtSigreturn.Returns s.process i.frame.rax p' ∧
      Exit.load p'.frame .sysret = Exit.load i.frame i.via ∧ p'.sigset = i.sigset ∧
      p'.sigsuspendMask = none ∧ Next s ⟨p', rest⟩ := by
  obtain ⟨p', hret, hregs, hset, hnone, -⟩ :=
    (paired_of_run hframes hrun).returns_sysRtSigreturn hint hmask
  refine ⟨p', hret, hregs, hset, hnone, .sigreturn, ?_, hmask⟩
  have hstep := Step.sigreturn hret
  rwa [hint] at hstep

/-- A process with an alternate stack, before any delivery. -/
def freshProcess (rsp : BitVec 64) (altStackSize : ℕ) : Process where
  frame := ⟨⟨0, 0, 0, 0, 0, 0, 0, 0, 0, 0, 0, 0, 0, 0, 0, 0x401000, 0x202, rsp⟩, 0, 40, 32⟩
  mem := zeros
  sigset := 5
  signaledFrameStack := ArrayVec.empty
  signalCtxBaseStack := ArrayVec.empty
  altStackSp := 0x700000
  altStackSize := altStackSize
  sigsuspendMask := none

/-- `SIGUSR1` with a handler and a restorer. -/
def usr1Action (onAltstack : Bool) : SigAction :=
  .handler 0x402000 (some 0x403000) onAltstack 0

/-- A handler on the alternate stack inside one on the ordinary stack: its `sigreturn`
leads back into the outer handler. -/
theorem sigreturn_restores_outer_handler :
    let p₀ := freshProcess 0x9ffff000 8192
    let p₁ := (tryDeliveringSignal 10 (usr1Action false) p₀).2
    let p₂ := (tryDeliveringSignal 10 (usr1Action true) p₁).2
    ∃ p', sysRtSigreturn.Returns p₂ p₁.frame.rax p' ∧
      Exit.load p'.frame .sysret = Exit.load p₁.frame .sysret ∧ p'.sigset = p₁.sigset := by
  intro p₀ p₁ p₂
  have hfirst : (tryDeliveringSignal 10 (usr1Action false)).Returns p₀ () p₁ :=
    returns_snd (by decide +kernel)
  have hsecond : (tryDeliveringSignal 10 (usr1Action true)).Returns p₁ () p₂ :=
    returns_snd (by decide +kernel)
  have hroom : p₁.signaledFrameStack.isFull = false ∧ p₁.signalCtxBaseStack.isFull = false := by
    decide +kernel
  have hapart : contextBase p₀.frame.rsp + contextSize ≤ p₂.frame.rsp.toNat ∨
      contextBase (p₁.handlerFrame true).rsp + contextSize ≤ contextBase p₀.frame.rsp := by
    decide +kernel
  have hmask : p₂.sigsuspendMask = none := by decide +kernel
  clear_value p₂ p₁
  have hnext₁ : Next ⟨p₀, []⟩ ⟨p₁, (interruptedBy p₀ .sysret (usr1Action false)).toList ++ []⟩ :=
    ⟨_, .deliver _ hfirst, fun _ _ => ⟨.inl rfl, rfl, rfl, fun i hi => nomatch hi⟩⟩
  have hnext₂ : Next ⟨p₁, (interruptedBy p₀ .sysret (usr1Action false)).toList ++ []⟩
      ⟨p₂, (interruptedBy p₁ .sysret (usr1Action true)).toList ++
        ((interruptedBy p₀ .sysret (usr1Action false)).toList ++ [])⟩ := by
    refine ⟨_, .deliver _ hsecond, ?_⟩
    intro new hnew
    cases hnew
    refine ⟨.inl rfl, hroom.1, hroom.2, ?_⟩
    intro i hi
    cases List.mem_singleton.mp hi
    exact hapart
  obtain ⟨p', hret, hregs, hset, -⟩ :=
    sigreturn_restores rfl ((Relation.ReflTransGen.single hnext₁).tail hnext₂) rfl hmask
  exact ⟨p', hret, hregs, hset⟩

/-- So many deliveries of `SIGUSR1`, one inside the other, each with its `sigreturn`. -/
def nested (onAltstack : Bool) : ℕ → Fallible SignalFault Process Unit
  | 0 => pure ()
  | k + 1 => do
    tryDeliveringSignal 10 (usr1Action onAltstack)
    nested onAltstack k
    let _ ← sysRtSigreturn
    pure ()

/-- The frame of the fifth delivery is not kept, so the fifth `sigreturn` kills the
process. After an `execve` inside a handler four deliveries are too many: the base of
the last one is not kept, and the last `sigreturn` reads at the base from before. On the
smallest alternate stack the fourth context overwrites the first. One delivery on the way
out of an interrupt is enough to lose `rcx`. -/
theorem nested_deliveries_not_restored :
    (nested false 5).Ends (freshProcess 0x9ffff000 8192) (fun _ _ => False)
      (fun e _ => e = .exitBySignal sigkill) ∧
    (do
      tryDeliveringSignal 10 (usr1Action false)
      modify (execve (freshProcess 0x9fffe000 8192).frame zeros)
      nested false 4).Ends (freshProcess 0x9ffff000 8192)
        (fun _ p => Exit.load p.frame .sysret ≠
          Exit.load (freshProcess 0x9fffe000 8192).frame .sysret) (fun _ _ => False) ∧
    (nested true 4).Ends (freshProcess 0x9ffff000 2048)
      (fun _ p => Exit.load p.frame .sysret ≠
        Exit.load (freshProcess 0x9ffff000 2048).frame .sysret) (fun _ _ => False) ∧
    (nested false 1).Ends (freshProcess 0x9ffff000 8192)
      (fun _ p => Exit.load p.frame .sysret ≠
        Exit.load (freshProcess 0x9ffff000 8192).frame .iret) (fun _ _ => False) := by
  decide +kernel

end Kevlar.Signal
