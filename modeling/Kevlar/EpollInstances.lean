import Kevlar.WatchedFiles

/-!
# Epoll instances and their interests

The interests of all instances stand in one list, keyed by instance and descriptor;
within an instance they are in the order of the descriptors. An interest keeps the
readiness that it polled last together with the generation that the file showed at
that time, and reuses it while the file shows that generation.
-/
namespace Kevlar.Watch

def epollin : BitVec 32 := 0x001
def epollout : BitVec 32 := 0x004
def epollerr : BitVec 32 := 0x008
def epollhup : BitVec 32 := 0x010
def epollet : BitVec 32 := 0x80000000
def epolloneshot : BitVec 32 := 0x40000000

/-- The mask asks for edge-triggered events. -/
def isEdge (events : BitVec 32) : Bool := events &&& epollet != 0

def pollStatusToEpoll (status : PollStatus) : BitVec 32 :=
  (if status.contains .pollin then epollin else 0) |||
  (if status.contains .pollout then epollout else 0) |||
  (if status.contains .pollerr then epollerr else 0) |||
  (if status.contains .pollhup then epollhup else 0)

/-- An interest. Its `registered` mask is the one of the last `epoll_ctl`; the kernel
only has `events`, which a one-shot report clears. -/
structure Interest where
  file : File
  events : BitVec 32
  data : BitVec 64
  lastGen : ℕ
  cachedPollGen : ℕ
  cachedPollBits : BitVec 64
  registered : BitVec 32

structure Entry where
  ep : ℕ
  fd : ℤ
  interest : Interest

structure EpollEvent where
  events : BitVec 32
  data : BitVec 64

/-- `check_interest`: the mask if the interest is to be polled. An edge is reported once
per generation. -/
def checkInterest (s : Files) (i : Interest) : Option (BitVec 32) × Interest :=
  let curGen := s.pollGen i.file
  if i.events = 0 then (none, i)
  else if !isEdge i.events then (some i.events, i)
  else if curGen = 0 then (some i.events, i)
  else if curGen = i.lastGen then (none, i)
  else (some i.events, { i with lastGen := curGen })

/-- `poll_cached`. Where the source reads the generation through a pointer, the pointer
leads to the generation that `poll_gen` returns. -/
def pollCached (s : Files) (i : Interest) : PollStatus × Interest :=
  let curGen := s.pollGen i.file
  if curGen ≠ 0 ∧ curGen = i.cachedPollGen then
    (.fromBitsTruncate (i.cachedPollBits.setWidth 16), i)
  else
    let status := s.poll i.file
    if curGen ≠ 0 then
      (status,
        { i with cachedPollGen := curGen, cachedPollBits := status.bits.signExtend 64 })
    else (status, i)

/-- The mask of the interest and the events of it that are ready. -/
def examine (s : Files) (i : Interest) : Option (BitVec 32 × BitVec 32) × Interest :=
  match checkInterest s i with
  | (none, i) => (none, i)
  | (some ev, i) =>
    let r := pollCached s i
    (some (ev, pollStatusToEpoll r.1 &&& (ev ||| epollerr ||| epollhup)), r.2)

/-- A one-shot interest that was reported is disarmed. -/
def disarm (ev : BitVec 32) (i : Interest) : Interest :=
  if ev &&& epolloneshot ≠ 0 then { i with events := 0 } else i

/-- `collect_ready` of instance `ep`, also with the events written to user memory, where
`room` events can be written before a write fails. -/
def collectReady (s : Files) (ep max room : ℕ) : ℕ → List Entry → List Entry × List EpollEvent
  | _, [] => ([], [])
  | count, x :: xs =>
    if x.ep ≠ ep then
      let r := collectReady s ep max room count xs
      (x :: r.1, r.2)
    else if max ≤ count then (x :: xs, [])
    else match examine s x.interest with
      | (none, i) =>
        let r := collectReady s ep max room count xs
        ({ x with interest := i } :: r.1, r.2)
      | (some (ev, ready), i) =>
        if ready = 0 then
          let r := collectReady s ep max room count xs
          ({ x with interest := i } :: r.1, r.2)
        else if room ≤ count then ({ x with interest := i } :: xs, [])
        else
          let r := collectReady s ep max room (count + 1) xs
          ({ x with interest := disarm ev i } :: r.1, ⟨ready, i.data⟩ :: r.2)

/-- What one pass over the interests does to an interest. -/
inductive Visited (s : Files) (i : Interest) : Interest → Prop
  | skipped : Visited s i i
  | examined : Visited s i (examine s i).2
  | reported (ev : BitVec 32) : Visited s i (disarm ev (examine s i).2)

def Entry.Visited (s : Files) (x y : Entry) : Prop :=
  ∃ i, Watch.Visited s x.interest i ∧ y = { x with interest := i }

lemma Entry.visited_refl (s : Files) (x : Entry) : x.Visited s x := ⟨_, .skipped, rfl⟩

/-- A pass visits every entry at most once. -/
lemma collectReady_visited (s : Files) (ep max room count : ℕ) (entries : List Entry) :
    List.Forall₂ (Entry.Visited s) entries (collectReady s ep max room count entries).1 := by
  induction entries generalizing count with
  | nil => exact .nil
  | cons x xs ih =>
    have hrest : List.Forall₂ (Entry.Visited s) xs xs :=
      List.forall₂_same.mpr fun y _ => y.visited_refl s
    unfold collectReady
    split
    · exact .cons (x.visited_refl s) (ih count)
    split
    · exact .cons (x.visited_refl s) hrest
    split
    · next i he =>
      have hi : i = (examine s x.interest).2 := by rw [he]
      exact .cons ⟨i, hi ▸ .examined, rfl⟩ (ih count)
    · next ev ready i he =>
      have hi : i = (examine s x.interest).2 := by rw [he]
      split
      · exact .cons ⟨i, hi ▸ .examined, rfl⟩ (ih count)
      split
      · exact .cons ⟨i, hi ▸ .examined, rfl⟩ hrest
      · exact .cons ⟨_, hi ▸ .reported ev, rfl⟩ (ih (count + 1))

/-! ## The interface of an instance -/

structure Kernel where
  files : Files
  entries : List Entry

inductive CtlError
  | EEXIST | ENOENT
  deriving DecidableEq

def Entry.hasKey (ep : ℕ) (fd : ℤ) (x : Entry) : Bool := x.ep == ep && x.fd == fd

/-- Insert an entry in the order of its instance. -/
def insertEntry (x : Entry) : List Entry → List Entry
  | [] => [x]
  | y :: ys => if x.ep = y.ep ∧ x.fd < y.fd then x :: y :: ys else y :: insertEntry x ys

namespace Kernel

/-- `EPOLL_CTL_ADD`. -/
def add (s : Kernel) (ep : ℕ) (fd : ℤ) (file : File) (event : EpollEvent) :
    Except CtlError Kernel :=
  if s.entries.any (Entry.hasKey ep fd) then .error .EEXIST
  else .ok
    { files := if isEdge event.events then s.files.notifyEpollEt file true else s.files
      entries := insertEntry ⟨ep, fd, ⟨file, event.events, event.data, 0, 0, 0, event.events⟩⟩
        s.entries }

/-- The interest after `EPOLL_CTL_MOD`, which also invalidates the cache. -/
def rearm (event : EpollEvent) (x : Entry) : Entry :=
  { x with
    interest :=
      { x.interest with
        events := event.events
        data := event.data
        cachedPollGen := 0
        registered := event.events } }

/-- `EPOLL_CTL_MOD`. -/
def modify (s : Kernel) (ep : ℕ) (fd : ℤ) (event : EpollEvent) : Except CtlError Kernel :=
  match s.entries.find? (Entry.hasKey ep fd) with
  | none => .error .ENOENT
  | some x => .ok
    { files :=
        if isEdge x.interest.events ≠ isEdge event.events then
          s.files.notifyEpollEt x.interest.file (isEdge event.events)
        else s.files
      entries := s.entries.replaceF fun y =>
        if y.hasKey ep fd then some (rearm event y) else none }

/-- `EPOLL_CTL_DEL`. -/
def delete (s : Kernel) (ep : ℕ) (fd : ℤ) : Except CtlError Kernel :=
  match s.entries.find? (Entry.hasKey ep fd) with
  | none => .error .ENOENT
  | some x => .ok
    { files :=
        if isEdge x.interest.events then s.files.notifyEpollEt x.interest.file false else s.files
      entries := s.entries.eraseP (Entry.hasKey ep fd) }

def collect (s : Kernel) (ep max room : ℕ) : Kernel :=
  { s with entries := (collectReady s.files ep max room 0 s.entries).1 }

/-- The last reference to an instance goes away with all its interests; the watched files
are not told. -/
def dropInstance (s : Kernel) (ep : ℕ) : Kernel :=
  { s with entries := s.entries.filter fun x => x.ep != ep }

end Kernel

/-! ## Runs -/

/-- The steps of the system. -/
inductive Event
  | add (ep : ℕ) (fd : ℤ) (file : File) (event : EpollEvent)
  | modify (ep : ℕ) (fd : ℤ) (event : EpollEvent)
  | delete (ep : ℕ) (fd : ℤ)
  | collect (ep max room : ℕ)
  | dropInstance (ep : ℕ)
  | read (file : File) (dst : UserBufferMut) (attempt : Attempt)
  | write (file : File) (src : UserBuffer) (attempt : Attempt)
  | shutdown (file : File) (how : ShutdownHow)
  | drop (file : File)
  | bind (socket : ℕ)
  | listen (socket : ℕ) (backlog : ℤ)
  | connect (socket listener : ℕ)
  | accept (socket : ℕ)
  | socketpair (dgram : Bool)
  | setOther (k : ℕ) (status : PollStatus)

namespace Kernel

/-- A failed `epoll_ctl` changes nothing. -/
def orSame (s : Kernel) : Except CtlError Kernel → Kernel
  | .ok s' => s'
  | .error _ => s

/-- An operation on the files alone. -/
def onFiles (s : Kernel) (f : Files → Files) : Kernel := { s with files := f s.files }

/-- A read or write; there is no state after undefined behaviour. -/
def transfer (s : Kernel) (x : Fallible IoError Files ℕ) : Option Kernel :=
  if (x s.files).1 = .error .undefined then none else some { s with files := (x s.files).2 }

def step (s : Kernel) : Event → Option Kernel
  | .add ep fd file event =>
    if s.files.has file then some (s.orSame (s.add ep fd file event)) else none
  | .modify ep fd event => some (s.orSame (s.modify ep fd event))
  | .delete ep fd => some (s.orSame (s.delete ep fd))
  | .collect ep max room => some (s.collect ep max room)
  | .dropInstance ep => some (s.dropInstance ep)
  | .read file dst attempt => s.transfer (Files.read file dst attempt)
  | .write file src attempt => s.transfer (Files.write file src attempt)
  | .shutdown file how => some (s.onFiles fun f => f.shutdown file how)
  | .drop file => some (s.onFiles fun f => f.drop file)
  | .bind socket => some (s.onFiles fun f => f.bind socket)
  | .listen socket backlog => some (s.onFiles fun f => f.listen socket backlog)
  | .connect socket listener =>
    if listener < s.files.nextListener then some (s.onFiles fun f => f.connect socket listener)
    else none
  | .accept socket => some (s.onFiles fun f => f.accept socket)
  | .socketpair dgram => some (s.onFiles fun f => f.socketpair dgram)
  | .setOther k status =>
    some (s.onFiles fun f => { f with others := Function.update f.others k status })

def run (s : Kernel) : List Event → Option Kernel
  | [] => some s
  | e :: es => (s.step e).bind fun s' => run s' es

/-- Fresh files, no pair and no listener handed out and no interest; the counters and
flags that eventfds are created with are given. -/
def boot (initval : ℕ → BitVec 32) (semaphore : ℕ → Bool) (others : ℕ → PollStatus) : Kernel where
  files :=
    { pipes := fun _ => .new
      eventfds := fun k => .new (initval k) (semaphore k)
      pairs := fun _ => .newPairTyped false
      listeners := fun _ => .new Files.backlogMax
      sockets := fun _ => .created
      others := others
      nextPair := 0
      nextListener := 0 }
  entries := []

end Kernel

end Kevlar.Watch
