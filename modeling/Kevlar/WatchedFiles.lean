import Kevlar.FallibleState
import Kevlar.RingBuffer
import Kevlar.VmArea

/-!
# Files that count their changes for epoll

Pipes, stream sockets and listeners carry a generation that counts their changes,
but only while they have edge-triggered watchers; an eventfd counts always. The
model has the readiness of every file, the generation that it shows to an epoll and
all operations that can change either. A call that goes to sleep and the attempt it
makes when woken are two operations.
-/
namespace Kevlar.Watch
open Function

/-! ## Readiness -/

/-- The `PollStatus` flags; the other bits are never set. -/
structure PollStatus where
  bits : BitVec 16
  valid : bits &&& 0x3ff#16 = bits
  deriving DecidableEq

namespace PollStatus

def empty : PollStatus := ⟨0, by decide⟩
def pollin : PollStatus := ⟨0x001, by decide⟩
def pollout : PollStatus := ⟨0x004, by decide⟩
def pollerr : PollStatus := ⟨0x008, by decide⟩
def pollhup : PollStatus := ⟨0x010, by decide⟩

def union (s t : PollStatus) : PollStatus :=
  ⟨s.bits ||| t.bits, by
    rw [BitVec.and_comm, BitVec.and_or_distrib_left, BitVec.and_comm, s.valid, BitVec.and_comm,
      t.valid]⟩

def contains (s t : PollStatus) : Bool := s.bits &&& t.bits == t.bits

def fromBitsTruncate (bits : BitVec 16) : PollStatus :=
  ⟨bits &&& 0x3ff#16, by rw [BitVec.and_assoc, BitVec.and_self]⟩

lemma fromBitsTruncate_bits (s : PollStatus) : fromBitsTruncate s.bits = s := by
  obtain ⟨bits, valid⟩ := s
  simp only [fromBitsTruncate, valid]

/-- The flags survive being stored in 64 bits. -/
lemma fromBitsTruncate_signExtend (s : PollStatus) :
    fromBitsTruncate ((s.bits.signExtend 64).setWidth 16) = s := by
  have hbits : (s.bits.signExtend 64).setWidth 16 = s.bits := by
    apply BitVec.eq_of_getLsbD_eq
    intro i hi
    rw [BitVec.getLsbD_setWidth, BitVec.getLsbD_signExtend]
    simp [hi, show i < 64 by omega]
  rw [hbits, s.fromBitsTruncate_bits]

end PollStatus

/-! ## Generations that only watched objects maintain -/

/-- A shared object with its generation and its number of edge-triggered watchers. -/
structure Gated (δ : Type) where
  inner : δ
  stateGen : ℕ
  etWatcherCount : ℕ

namespace Gated

variable {δ : Type}

def new (inner : δ) : Gated δ := ⟨inner, 1, 0⟩

def bumpGen (x : Gated δ) : Gated δ :=
  if 0 < x.etWatcherCount then { x with stateGen := wadd x.stateGen 1 } else x

/-- `notify_epoll_et`: the count has 32 bits and wraps. -/
def notifyEpollEt (x : Gated δ) (added : Bool) : Gated δ :=
  { x with
    etWatcherCount :=
      if added then (x.etWatcherCount + 1) % 2 ^ 32 else (x.etWatcherCount + 2 ^ 32 - 1) % 2 ^ 32 }

def pollGen (x : Gated δ) : ℕ := if 0 < x.etWatcherCount then x.stateGen else 0

/-- Change the object and count the change. -/
def change (x : Gated δ) (f : δ → δ) : Gated δ := bumpGen { x with inner := f x.inner }

end Gated

/-! ## Moving bytes between a ring buffer and a user's buffer -/

inductive IoError
  | EFAULT | EINVAL | EAGAIN | EPIPE | ENOTCONN | EINTR
  /-- The caller goes to sleep, or back to sleep. -/
  | sleeps
  /-- The source leaves the ring buffer's array. -/
  | undefined
  deriving DecidableEq

/-- A buffer to read from: kernel memory, or user memory at an address. -/
structure UserBuffer where
  base : Option ℕ
  bytes : List (BitVec 8)

/-- A buffer to write to. -/
structure UserBufferMut where
  base : Option ℕ
  len : ℕ
  len_lt : len < 2 ^ 64

/-- The access check of a copy of `n` bytes at position `pos`. -/
def reachable (base : Option ℕ) (pos n : ℕ) : Bool :=
  match base with
  | none => true
  | some base => accessOk (wadd base pos) n

/-- A ring buffer of bytes whose indices lie inside the array. -/
structure ByteRing (cap : ℕ) where
  ring : RingBuffer (BitVec 8) cap
  rp_lt : ring.rp < cap
  wp_lt : ring.wp < cap

namespace ByteRing

variable {cap : ℕ}

def new (cap : ℕ) (h : 0 < cap) : ByteRing cap := ⟨.new cap fun _ => 0, h, h⟩

def isReadable (r : ByteRing cap) : Bool := r.ring.isReadable

def isWritable (r : ByteRing cap) : Bool := r.ring.isWritable

/-- Fill the front of the slice of `writable_contiguous` and advance over it. -/
def commit (r : ByteRing cap) (bytes : List (BitVec 8)) : ByteRing cap where
  ring := RingBuffer.advanceWrite
    { r.ring with buf := RingBuffer.copyAt r.ring.buf r.ring.wp bytes } bytes.length
  rp_lt := r.rp_lt
  wp_lt := Nat.mod_lt _ (Nat.zero_lt_of_lt r.rp_lt)

/-- The indices after a pop. -/
lemma popSlice_lt (r : ByteRing cap) {len : ℕ} {data : Option (List (BitVec 8))}
    {ring : RingBuffer (BitVec 8) cap} (h : r.ring.popSlice len = some (data, ring)) :
    ring.rp < cap ∧ ring.wp < cap := by
  unfold RingBuffer.popSlice at h
  split_ifs at h
  · cases h
    exact ⟨r.rp_lt, r.wp_lt⟩
  all_goals
    obtain ⟨_, _, hpair⟩ := Option.map_eq_some_iff.mp h
    cases hpair
    exact ⟨Nat.mod_lt _ (Nat.zero_lt_of_lt r.rp_lt), r.wp_lt⟩

/-- `pop_slice`; leaving the array is an error of its own. -/
def popSlice (r : ByteRing cap) (len : ℕ) :
    Except IoError (Option (List (BitVec 8)) × ByteRing cap) :=
  match h : r.ring.popSlice len with
  | none => .error .undefined
  | some (data, ring) => .ok (data, ⟨ring, (r.popSlice_lt h).1, (r.popSlice_lt h).2⟩)

end ByteRing

section Transfers

open Fallible (get modify throw)

variable {cap : ℕ}

abbrev Transfer (cap : ℕ) := Fallible IoError (ByteRing cap)

/-- Pop at most `len` bytes. -/
def pop (len : ℕ) : Transfer cap (Option (List (BitVec 8))) := fun r =>
  match r.popSlice len with
  | .error e => (.error e, r)
  | .ok (data, r') => (.ok data, r')

/-- The loop of `copy_user_to_pipe`: a piece at a time until the ring is full or the
buffer is used up. The position of the reader is the number of bytes written. -/
def copyIn (src : UserBuffer) : ℕ → ℕ → Transfer cap ℕ
  | 0, pos => pure pos
  | fuel + 1, pos => do
    let r ← get
    let copied := min (src.bytes.length - pos) r.ring.writableContiguous
    if copied = 0 then pure pos
    else if !reachable src.base pos copied then throw .EFAULT
    else do
      modify fun r => r.commit ((src.bytes.drop pos).take copied)
      copyIn src fuel (pos + copied)

/-- The loop that pops into the user's buffer. A piece that the user cannot take is
already popped. -/
def copyOut (dst : UserBufferMut) : ℕ → ℕ → Transfer cap ℕ
  | 0, pos => pure pos
  | fuel + 1, pos => do
    match ← pop (dst.len - pos) with
    | none => pure pos
    | some data =>
      if !reachable dst.base pos data.length then throw .EFAULT
      else copyOut dst fuel (pos + data.length)

/-- Drop the rest of a message. -/
def discard : ℕ → ℕ → Transfer cap Unit
  | 0, _ => pure ()
  | fuel + 1, remaining =>
    if remaining = 0 then pure ()
    else do
      match ← pop remaining with
      | none => pure ()
      | some data => discard fuel (remaining - data.length)

/-- The payload of a message; what does not fit into the buffer is dropped. -/
def dgramPayload (dst : UserBufferMut) : ℕ → ℕ → ℕ → Transfer cap ℕ
  | 0, _, pos => pure pos
  | fuel + 1, remaining, pos =>
    let toRead := min remaining (dst.len - pos)
    if remaining = 0 then pure pos
    else if toRead = 0 then do
      discard remaining remaining
      pure pos
    else do
      match ← pop toRead with
      | none => pure pos
      | some data =>
        if !reachable dst.base pos data.length then throw .EFAULT
        else dgramPayload dst fuel (remaining - data.length) (pos + data.length)

/-- `dgram_read_one`: a two-byte length, then the payload. -/
def dgramReadOne (dst : UserBufferMut) : Transfer cap ℕ := do
  match ← pop 1 with
  | none => pure 0
  | some b0 =>
    match ← pop 1 with
    | none => pure 0
    | some b1 =>
      let msgLen := (b0.headD 0).toNat + 256 * (b1.headD 0).toNat
      dgramPayload dst msgLen msgLen 0

/-- The length in front of a message, if there is room for it in one piece. -/
def dgramHeader (len : ℕ) : Transfer cap Unit := modify fun r =>
  if 2 ≤ r.ring.writableContiguous then
    r.commit [BitVec.ofNat 8 len, BitVec.ofNat 8 (len / 256)]
  else r

end Transfers

/-- How a call runs: from its start, or from its wait queue after a wake-up, which may
also have come from a signal. -/
inductive Attempt
  | first (nonblock : Bool)
  | woken (signalled : Bool)

/-- What a call does that finds nothing to do. -/
def Attempt.idle : Attempt → IoError
  | .first true => .EAGAIN
  | _ => .sleeps

def Attempt.signalled : Attempt → Bool
  | .woken s => s
  | .first _ => false

/-! ## Pipes -/

def pipeSize : ℕ := 65536

structure PipeInner where
  buf : ByteRing pipeSize
  closedByReader : Bool
  closedByWriter : Bool

abbrev Pipe := Gated PipeInner

namespace Pipe

open Fallible (get modify throw)

def new : Pipe := Gated.new ⟨.new pipeSize (by decide), false, false⟩

def withBuf (p : Pipe) (buf : ByteRing pipeSize) : Pipe :=
  { p with inner := { p.inner with buf := buf } }

/-- Run a transfer on the buffer of the pipe. -/
def onBuf {α : Type} (x : Transfer pipeSize α) : Fallible IoError Pipe α := fun p =>
  ((x p.inner.buf).1, withBuf p (x p.inner.buf).2)

/-- Count the bytes of a transfer on the fast path: only a transfer that moved
something counts as a change. -/
def report (written : ℕ) (idle : IoError) : Fallible IoError Pipe ℕ :=
  if 0 < written then do
    modify Gated.bumpGen
    pure written
  else throw idle

/-- The fast path of `PipeWriter::write`. -/
def writeFirst (src : UserBuffer) (nonblock : Bool) : Fallible IoError Pipe ℕ := do
  let p ← get
  if p.inner.closedByReader then throw .EPIPE
  else if p.inner.buf.isWritable then do
    let written ← onBuf (copyIn src src.bytes.length 0)
    report written (Attempt.idle (.first nonblock))
  else throw (Attempt.idle (.first nonblock))

/-- The closure of the slow path of `PipeWriter::write`. -/
def writeWoken (src : UserBuffer) : Fallible IoError Pipe ℕ := do
  let p ← get
  if p.inner.closedByReader then throw .EPIPE
  else do
    let written ← onBuf (copyIn src src.bytes.length 0)
    if 0 < written then pure written else throw .sleeps

/-- The fast path of `PipeReader::read`. -/
def readFirst (dst : UserBufferMut) (nonblock : Bool) : Fallible IoError Pipe ℕ := do
  let written ← onBuf (copyOut dst dst.len 0)
  let p ← get
  if written = 0 ∧ p.inner.closedByWriter then pure 0
  else report written (Attempt.idle (.first nonblock))

/-- The closure of the slow path of `PipeReader::read`. -/
def readWoken (dst : UserBufferMut) : Fallible IoError Pipe ℕ := do
  let written ← onBuf (copyOut dst dst.len 0)
  let p ← get
  if 0 < written then pure written
  else if p.inner.closedByWriter then pure 0
  else throw .sleeps

/-- The end of a slow path: whatever the closure or a signal made it return, the call
counts a change. -/
def wake (x : Fallible IoError Pipe ℕ) : Fallible IoError Pipe ℕ := fun p =>
  match x p with
  | (.error .sleeps, p') => (.error .sleeps, p')
  | (r, p') => (r, p'.bumpGen)

def write (src : UserBuffer) : Attempt → Fallible IoError Pipe ℕ
  | .first nonblock => writeFirst src nonblock
  | .woken signalled => wake (if signalled then throw .EINTR else writeWoken src)

def read (dst : UserBufferMut) : Attempt → Fallible IoError Pipe ℕ
  | .first nonblock => readFirst dst nonblock
  | .woken signalled => wake (if signalled then throw .EINTR else readWoken dst)

def dropWriter (p : Pipe) : Pipe := p.change fun i => { i with closedByWriter := true }

def dropReader (p : Pipe) : Pipe := p.change fun i => { i with closedByReader := true }

def pollReader (p : Pipe) : PollStatus :=
  if p.inner.buf.isReadable then .pollin
  else if p.inner.closedByWriter then .pollhup
  else .empty

def pollWriter (p : Pipe) : PollStatus :=
  if p.inner.buf.isWritable then .pollout else .empty

end Pipe

/-! ## Eventfds -/

structure EventFd where
  counter : ℕ
  stateGen : ℕ
  semaphore : Bool

namespace EventFd

open Fallible (get modify throw)

def new (initval : BitVec 32) (semaphore : Bool) : EventFd := ⟨initval.toNat, 1, semaphore⟩

def tryReadCounter (e : EventFd) : Option EventFd :=
  if e.counter = 0 then none
  else some { e with
    counter := if e.semaphore then e.counter - 1 else 0
    stateGen := wadd e.stateGen 1 }

def tryWriteCounter (e : EventFd) (val : ℕ) : Option EventFd :=
  if e.counter + val < 2 ^ 64 - 1 then
    some { e with counter := e.counter + val, stateGen := wadd e.stateGen 1 }
  else none

/-- The counter is consumed before the value is written to the user. -/
def read (dst : UserBufferMut) (attempt : Attempt) : Fallible IoError EventFd ℕ := do
  let e ← get
  if dst.len < 8 then throw .EINVAL
  else if attempt.signalled then throw .EINTR
  else match e.tryReadCounter with
    | none => throw attempt.idle
    | some e' => do
      modify fun _ => e'
      if reachable dst.base 0 8 then pure 8 else throw .EFAULT

def write (src : UserBuffer) (attempt : Attempt) : Fallible IoError EventFd ℕ := do
  let e ← get
  let val := (src.bytes.take 8).foldr (fun b acc => b.toNat + 256 * acc) 0
  if src.bytes.length < 8 then throw .EINVAL
  else if !reachable src.base 0 8 then throw .EFAULT
  else if val = 2 ^ 64 - 1 then throw .EINVAL
  else if attempt.signalled then throw .EINTR
  else match e.tryWriteCounter val with
    | none => throw attempt.idle
    | some e' => do
      modify fun _ => e'
      pure 8

def poll (e : EventFd) : PollStatus :=
  (if 0 < e.counter then .pollin else PollStatus.empty).union
    (if e.counter < 2 ^ 64 - 2 then .pollout else .empty)

end EventFd

/-! ## Connected stream and datagram sockets -/

def unixStreamBufSize : ℕ := 262144

structure StreamInner where
  buf : ByteRing unixStreamBufSize
  shutWr : Bool

/-- The two ends of a pair. -/
inductive End
  | a | b
  deriving DecidableEq

def End.other : End → End
  | .a => .b
  | .b => .a

/-- Both directions of a pair: an end writes to its own side and reads from the side of
the other end. The two ends share one flag that says that either was dropped. -/
structure StreamPair where
  a : Gated StreamInner
  b : Gated StreamInner
  peerClosed : Bool
  dgram : Bool

inductive ShutdownHow
  | rd | wr | rdWr

namespace StreamPair

open Fallible (get modify throw)

def newPairTyped (dgram : Bool) : StreamPair where
  a := .new ⟨.new unixStreamBufSize (by decide), false⟩
  b := .new ⟨.new unixStreamBufSize (by decide), false⟩
  peerClosed := false
  dgram := dgram

def side (p : StreamPair) : End → Gated StreamInner
  | .a => p.a
  | .b => p.b

def setSide (p : StreamPair) (e : End) (x : Gated StreamInner) : StreamPair :=
  match e with
  | .a => { p with a := x }
  | .b => { p with b := x }

def bump (p : StreamPair) (e : End) : StreamPair := p.setSide e (p.side e).bumpGen

def withBuf (p : StreamPair) (e : End) (buf : ByteRing unixStreamBufSize) : StreamPair :=
  p.setSide e { p.side e with inner := { (p.side e).inner with buf := buf } }

/-- Run a transfer on the buffer of one side. -/
def onBuf {α : Type} (e : End) (x : Transfer unixStreamBufSize α) :
    Fallible IoError StreamPair α := fun p =>
  ((x (p.side e).inner.buf).1, p.withBuf e (x (p.side e).inner.buf).2)

/-- Count the bytes that moved through one side. -/
def report (e : End) (written : ℕ) (idle : Fallible IoError StreamPair ℕ) :
    Fallible IoError StreamPair ℕ :=
  if 0 < written then do
    modify fun p => p.bump e
    pure written
  else idle

/-- What a read takes out of its buffer: one message, or all bytes that fit. -/
def receive (p : StreamPair) (dst : UserBufferMut) : Transfer unixStreamBufSize ℕ :=
  if p.dgram then dgramReadOne dst else copyOut dst dst.len 0

/-- A read that got nothing is at the end of the stream, or has to wait. -/
def emptyRead (p : StreamPair) (e : End) (attempt : Attempt) : Fallible IoError StreamPair ℕ :=
  if (p.side e.other).inner.shutWr || p.peerClosed then pure 0 else throw attempt.idle

/-- `UnixStream::read` at end `e`: the two paths differ only when nothing moves. -/
def read (e : End) (dst : UserBufferMut) (attempt : Attempt) : Fallible IoError StreamPair ℕ := do
  let p ← get
  if attempt.signalled then throw .EINTR
  else do
    let written ← onBuf e.other (p.receive dst)
    report e.other written (p.emptyRead e attempt)

/-- A whole message on the fast path: it counts even when it is empty. -/
def writeDgram (e : End) (src : UserBuffer) (idle : IoError) : Fallible IoError StreamPair ℕ := do
  let p ← get
  if wadd 2 src.bytes.length ≤ (p.side e).inner.buf.ring.free then do
    onBuf e (dgramHeader src.bytes.length)
    let written ← onBuf e (copyIn src src.bytes.length 0)
    modify fun p => p.bump e
    pure written
  else throw idle

/-- `UnixStream::write` at end `e`. A call that had to sleep writes plain bytes, also on
a datagram socket. -/
def write (e : End) (src : UserBuffer) (attempt : Attempt) : Fallible IoError StreamPair ℕ := do
  let p ← get
  if attempt.signalled then throw .EINTR
  else if p.peerClosed then throw .EPIPE
  else if (p.side e).inner.shutWr then throw .EPIPE
  else match p.dgram, attempt with
    | true, .first _ => writeDgram e src attempt.idle
    | _, _ => do
      let written ← onBuf e (copyIn src src.bytes.length 0)
      report e written (throw attempt.idle)

def shutSide (p : StreamPair) (e : End) : StreamPair :=
  p.setSide e ((p.side e).change fun i => { i with shutWr := true })

def shutdown (p : StreamPair) (e : End) : ShutdownHow → StreamPair
  | .wr => p.shutSide e
  | .rdWr => (p.shutSide e).shutSide e.other
  | .rd => p.shutSide e.other

/-- The last reference to an end goes away. -/
def dropEnd (p : StreamPair) (e : End) : StreamPair :=
  ({ p with peerClosed := true }.shutSide e).bump e.other

def poll (p : StreamPair) (e : End) : PollStatus :=
  let rx := (p.side e.other).inner
  let tx := (p.side e).inner
  ((if rx.buf.isReadable then .pollin else PollStatus.empty).union
    (if rx.shutWr || p.peerClosed then .union .pollin .pollhup else .empty)).union
    (if tx.buf.isWritable && !tx.shutWr then .pollout else .empty)

def pollGen (p : StreamPair) (e : End) : ℕ :=
  if 0 < (p.side e).etWatcherCount ∨ 0 < (p.side e.other).etWatcherCount then
    wadd (p.side e).stateGen (p.side e.other).stateGen
  else 0

def notifyEpollEt (p : StreamPair) (added : Bool) : StreamPair :=
  { p with a := p.a.notifyEpollEt added, b := p.b.notifyEpollEt added }

end StreamPair

/-! ## Listeners and the socket object -/

/-- The backlog holds the pairs whose server end waits to be accepted. -/
structure ListenerInner where
  backlog : List ℕ
  maxBacklog : ℕ

abbrev Listener := Gated ListenerInner

namespace Listener

def new (maxBacklog : ℕ) : Listener := Gated.new ⟨[], maxBacklog⟩

def enqueueConnection (l : Listener) (pair : ℕ) : Option Listener :=
  if l.inner.maxBacklog ≤ l.inner.backlog.length then none
  else some (l.change fun i => { i with backlog := i.backlog ++ [pair] })

def accept (l : Listener) : Option (ℕ × Listener) :=
  match l.inner.backlog with
  | [] => none
  | pair :: rest => some (pair, l.change fun i => { i with backlog := rest })

def poll (l : Listener) : PollStatus := if l.inner.backlog.isEmpty then .empty else .pollin

end Listener

inductive SocketState
  | created
  | bound
  | listening (listener : ℕ)
  | connected (pair : ℕ) (e : End)
  deriving DecidableEq

/-! ## All files -/

/-- The files of the kernel. Pairs from `nextPair` and listeners from `nextListener` on
have not been handed out. Files of other kinds have a readiness and no generation; input
devices, which have a generation, are left out. -/
structure Files where
  pipes : ℕ → Pipe
  eventfds : ℕ → EventFd
  pairs : ℕ → StreamPair
  listeners : ℕ → Listener
  sockets : ℕ → SocketState
  others : ℕ → PollStatus
  nextPair : ℕ
  nextListener : ℕ

/-- What a descriptor refers to. -/
inductive File
  | pipeReader (k : ℕ)
  | pipeWriter (k : ℕ)
  | eventfd (k : ℕ)
  | stream (k : ℕ) (e : End)
  | socket (k : ℕ)
  | other (k : ℕ)
  deriving DecidableEq

namespace Files

open Fallible (get modify throw)

def setPipe (s : Files) (k : ℕ) (p : Pipe) : Files :=
  { s with pipes := update s.pipes k p }

def setEventfd (s : Files) (k : ℕ) (e : EventFd) : Files :=
  { s with eventfds := update s.eventfds k e }

def setPair (s : Files) (k : ℕ) (p : StreamPair) : Files :=
  { s with pairs := update s.pairs k p }

def setListener (s : Files) (k : ℕ) (l : Listener) : Files :=
  { s with listeners := update s.listeners k l }

def setSocket (s : Files) (k : ℕ) (t : SocketState) : Files :=
  { s with sockets := update s.sockets k t }

def poll (s : Files) : File → PollStatus
  | .pipeReader k => (s.pipes k).pollReader
  | .pipeWriter k => (s.pipes k).pollWriter
  | .eventfd k => (s.eventfds k).poll
  | .stream k e => (s.pairs k).poll e
  | .socket k =>
    match s.sockets k with
    | .listening l => (s.listeners l).poll
    | .connected k e => (s.pairs k).poll e
    | _ => .pollout
  | .other k => s.others k

def pollGen (s : Files) : File → ℕ
  | .pipeReader k => (s.pipes k).pollGen
  | .pipeWriter k => (s.pipes k).pollGen
  | .eventfd k => (s.eventfds k).stateGen
  | .stream k e => (s.pairs k).pollGen e
  | .socket k =>
    match s.sockets k with
    | .listening l => (s.listeners l).pollGen
    | .connected k e => (s.pairs k).pollGen e
    | _ => 0
  | .other _ => 0

def notifyEpollEt (s : Files) (file : File) (added : Bool) : Files :=
  match file with
  | .pipeReader k => s.setPipe k ((s.pipes k).notifyEpollEt added)
  | .pipeWriter k => s.setPipe k ((s.pipes k).notifyEpollEt added)
  | .eventfd _ => s
  | .stream k _ => s.setPair k ((s.pairs k).notifyEpollEt added)
  | .socket k =>
    match s.sockets k with
    | .listening l => s.setListener l ((s.listeners l).notifyEpollEt added)
    | .connected k _ => s.setPair k ((s.pairs k).notifyEpollEt added)
    | _ => s
  | .other _ => s

/-- The file was handed out. -/
def has (s : Files) : File → Bool
  | .stream k _ => k < s.nextPair
  | _ => true

/-- Run a program on one pipe. -/
def onPipe {α : Type} (k : ℕ) (x : Fallible IoError Pipe α) : Fallible IoError Files α := fun s =>
  ((x (s.pipes k)).1, s.setPipe k (x (s.pipes k)).2)

def onEventfd {α : Type} (k : ℕ) (x : Fallible IoError EventFd α) : Fallible IoError Files α :=
  fun s => ((x (s.eventfds k)).1, s.setEventfd k (x (s.eventfds k)).2)

def onPair {α : Type} (k : ℕ) (x : Fallible IoError StreamPair α) : Fallible IoError Files α :=
  fun s => ((x (s.pairs k)).1, s.setPair k (x (s.pairs k)).2)

/-- The stream behind a file. -/
def streamOf (s : Files) : File → Option (ℕ × End)
  | .stream k e => some (k, e)
  | .socket k =>
    match s.sockets k with
    | .connected k e => some (k, e)
    | _ => none
  | _ => none

def read (file : File) (dst : UserBufferMut) (attempt : Attempt) : Fallible IoError Files ℕ :=
  match file with
  | .pipeReader k => onPipe k (Pipe.read dst attempt)
  | .eventfd k => onEventfd k (EventFd.read dst attempt)
  | .pipeWriter _ => throw .EINVAL
  | .other _ => pure 0
  | file => do
    let s ← get
    match s.streamOf file with
    | some (k, e) => onPair k (StreamPair.read e dst attempt)
    | none => throw .ENOTCONN

def write (file : File) (src : UserBuffer) (attempt : Attempt) : Fallible IoError Files ℕ :=
  match file with
  | .pipeWriter k => onPipe k (Pipe.write src attempt)
  | .eventfd k => onEventfd k (EventFd.write src attempt)
  | .pipeReader _ => throw .EINVAL
  | .other _ => pure 0
  | file => do
    let s ← get
    match s.streamOf file with
    | some (k, e) => onPair k (StreamPair.write e src attempt)
    | none => throw .ENOTCONN

def shutdown (s : Files) (file : File) (how : ShutdownHow) : Files :=
  match s.streamOf file with
  | some (k, e) => s.setPair k ((s.pairs k).shutdown e how)
  | none => s

/-- The last reference to a file goes away. Dropping a socket object drops the stream or
the listener that it holds, and a listener the ends in its backlog, each in a step of
its own. -/
def drop (s : Files) : File → Files
  | .pipeReader k => s.setPipe k (s.pipes k).dropReader
  | .pipeWriter k => s.setPipe k (s.pipes k).dropWriter
  | .stream k e => s.setPair k ((s.pairs k).dropEnd e)
  | _ => s

def bind (s : Files) (k : ℕ) : Files :=
  match s.sockets k with
  | .created => s.setSocket k .bound
  | _ => s

def backlogMax : ℕ := 128

/-- `listen`: the socket becomes a new listener. -/
def listen (s : Files) (k : ℕ) (backlog : ℤ) : Files :=
  match s.sockets k with
  | .bound =>
    { (s.setListener s.nextListener (.new (min (max backlog 1).toNat backlogMax))).setSocket k
        (.listening s.nextListener) with
      nextListener := s.nextListener + 1 }
  | _ => s

/-- `connect` to the listener that the address leads to. The state of the socket is not
looked at before it is replaced. -/
def connect (s : Files) (k listener : ℕ) : Files :=
  match (s.listeners listener).enqueueConnection s.nextPair with
  | none => s
  | some l =>
    { ((s.setListener listener l).setPair s.nextPair (.newPairTyped false)).setSocket k
        (.connected s.nextPair .b) with
      nextPair := s.nextPair + 1 }

def accept (s : Files) (k : ℕ) : Files :=
  match s.sockets k with
  | .listening l =>
    match (s.listeners l).accept with
    | some (_, l') => s.setListener l l'
    | none => s
  | _ => s

/-- `socketpair`. -/
def socketpair (s : Files) (dgram : Bool) : Files :=
  { s.setPair s.nextPair (.newPairTyped dgram) with nextPair := s.nextPair + 1 }

end Files

end Kevlar.Watch
