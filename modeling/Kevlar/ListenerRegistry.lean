import Mathlib.Tactic

/-!
# The registry of Unix listeners

A listener at a path is registered under its inode number and a generation, which each
`bind` at the number draws anew. The generation of a number is forgotten when the listener
that holds it is dropped, and drawing starts again at 1. The model has the files by their
inode numbers, so that a number can be used again after an `unlink`, and `connect` in the
three steps between which other calls can run.

Binds are numbered. The numbers say which bind at an inode was the last; no call reads
them.
-/
namespace Kevlar.UnixListeners
open List Function Option

structure InodeKey where
  devId : ℕ
  inodeNo : ℕ
  deriving DecidableEq

inductive ListenerKey
  | abstract (name : String)
  | inode (key : InodeKey) (generation : ℕ)
  deriving DecidableEq

/-- An address: a name of the abstract namespace, or the inode of a path. -/
inductive Address
  | name (name : String)
  | path (key : InodeKey)

structure BoundInfo where
  key : ListenerKey
  stamp : ℕ

inductive SocketState
  | created
  | bound (info : BoundInfo)
  | listening (listener : ℕ)
  | connected
  | closed

structure UnixSocket where
  state : SocketState
  dgram : Bool

/-- A listener; `owned` says that the state of a socket refers to it. -/
structure UnixListener where
  key : ListenerKey
  stamp : ℕ
  backlog : ℕ
  maxBacklog : ℕ
  owned : Bool

/-- A `connect` under way: the path is looked up, or the key is known. Then `since` is the
number of the last bind at the inode when the generation was read. -/
inductive Lookup
  | resolved (socket : ℕ) (key : InodeKey)
  | keyed (socket : ℕ) (key : ListenerKey) (since : ℕ)

inductive Errno
  | EINVAL | EADDRINUSE | ECONNREFUSED | ENOENT | EAGAIN
  deriving DecidableEq

structure Registry where
  files : InodeKey → Bool
  /-- `SOCKET_GENERATIONS`. -/
  generations : InodeKey → Option ℕ
  /-- `UNIX_LISTENERS`. -/
  table : List (ListenerKey × ℕ)
  sockets : ℕ → UnixSocket
  /-- The listeners that are alive. -/
  listeners : ℕ → Option UnixListener
  nextListener : ℕ
  lookups : ℕ → Option Lookup
  binds : ℕ
  latest : InodeKey → ℕ

namespace Registry

def backlogMax : ℕ := 128

def generationMax : ℕ := 2 ^ 32 - 1

def boot (files : InodeKey → Bool) (dgram : ℕ → Bool) : Registry where
  files := files
  generations _ := none
  table := []
  sockets i := ⟨.created, dgram i⟩
  listeners _ := none
  nextListener := 0
  lookups _ := none
  binds := 0
  latest _ := 0

def setSocket (s : Registry) (i : ℕ) (state : SocketState) : Registry :=
  { s with sockets := update s.sockets i { s.sockets i with state := state } }

/-- `bump_socket_generation`. -/
def bumpSocketGeneration (s : Registry) (k : InodeKey) : ℕ :=
  min ((s.generations k).getD 0 + 1) generationMax

def releaseSocketGeneration (s : Registry) : ListenerKey → Registry
  | .abstract _ => s
  | .inode k generation =>
    if s.generations k = some generation then
      { s with generations := update s.generations k none }
    else s

def registerListener (s : Registry) (key : ListenerKey) (l : ℕ) : Registry :=
  { s with table := s.table.filter (fun entry => entry.1 ≠ key) ++ [(key, l)] }

def unregisterListener (s : Registry) (key : ListenerKey) : Registry :=
  { s with table := s.table.filter (fun entry => entry.1 ≠ key) }

def alive (s : Registry) (l : ℕ) : Bool := (s.listeners l).isSome

/-- The listener that `find_listener` returns. -/
def findListener (s : Registry) (key : ListenerKey) : Option ℕ :=
  (s.table.find? fun entry => s.alive entry.2 && entry.1 == key).map (·.2)

/-- The entries that `find_listener` leaves. -/
def pruneListeners (s : Registry) : Registry :=
  { s with table := s.table.filter fun entry => s.alive entry.2 }

/-- The socket no longer refers to its listener. -/
def disown (s : Registry) (i : ℕ) : Registry :=
  match (s.sockets i).state with
  | .listening l =>
    { s with
      listeners := update s.listeners l
        ((s.listeners l).map fun x => { x with owned := false }) }
  | _ => s

/-- The key that a bind gives to its socket. -/
def mint (s : Registry) : Address → ListenerKey
  | .name name => .abstract name
  | .path k => .inode k (s.bumpSocketGeneration k)

/-- The file of the socket is created and its generation published. -/
def publish (s : Registry) : Address → Registry
  | .name _ => s
  | .path k =>
    { s with
      files := update s.files k true
      generations := update s.generations k (some (s.bumpSocketGeneration k)) }

/-- The number of the bind is the last one at its inode. -/
def stampLatest (s : Registry) : Address → InodeKey → ℕ
  | .name _ => s.latest
  | .path k => update s.latest k (s.binds + 1)

/-- The path is taken. -/
def taken (s : Registry) : Address → Bool
  | .name _ => false
  | .path k => s.files k

/-- `bind`: the state of the socket is looked at last. -/
def bind (s : Registry) (i : ℕ) (addr : Address) : Except Errno Unit × Registry :=
  if s.taken addr then (.error .EADDRINUSE, s)
  else
    match (s.sockets i).state with
    | .created =>
      (.ok (), { (s.publish addr).setSocket i (.bound ⟨s.mint addr, s.binds + 1⟩) with
        binds := s.binds + 1
        latest := s.stampLatest addr })
    | _ => (.error .EINVAL, s.publish addr)

def listen (s : Registry) (i : ℕ) (backlog : ℤ) : Except Errno Unit × Registry :=
  match (s.sockets i).state with
  | .bound info =>
    let l := s.nextListener
    (.ok (), { (s.registerListener info.key l).setSocket i (.listening l) with
      listeners := update s.listeners l
        (some ⟨info.key, info.stamp, 0, min (max backlog 1).toNat backlogMax, true⟩)
      nextListener := l + 1 })
  | _ => (.error .EINVAL, s)

/-- The first step of `connect`: the path is looked up. -/
def connect (s : Registry) (t i : ℕ) : Address → Except Errno Unit × Registry
  | .name name =>
    (.ok (), { s with lookups := update s.lookups t (some (.keyed i (.abstract name) 0)) })
  | .path k =>
    if s.files k then
      (.ok (), { s with lookups := update s.lookups t (some (.resolved i k)) })
    else (.error .ENOENT, s)

/-- A `connect` that finds nobody. -/
def refuse (s : Registry) (i : ℕ) : Except Errno Unit :=
  if (s.sockets i).dgram then .ok () else .error .ECONNREFUSED

def endLookup (s : Registry) (t : ℕ) : Registry :=
  { s with lookups := update s.lookups t none }

/-- The second step of `connect`: `current_socket_generation`. -/
def readGeneration (s : Registry) (t : ℕ) : Except Errno Unit × Registry :=
  match s.lookups t with
  | some (.resolved i k) =>
    match s.generations k with
    | some generation =>
      (.ok (), { s with
        lookups := update s.lookups t
          (some (.keyed i (.inode k generation) (s.latest k))) })
    | none => (s.refuse i, s.endLookup t)
  | _ => (.ok (), s)

/-- The last step of `connect`: `find_listener` and `enqueue_connection`. -/
def enqueue (s : Registry) (t : ℕ) : Except Errno Unit × Registry :=
  match s.lookups t with
  | some (.keyed i key _) =>
    let s' := s.pruneListeners.endLookup t
    match s.findListener key with
    | none => (s.refuse i, s')
    | some l =>
      match s.listeners l with
      | none => (s.refuse i, s')
      | some x =>
        if x.maxBacklog ≤ x.backlog then (.error .ECONNREFUSED, s')
        else
          let listeners := update s.listeners l (some { x with backlog := x.backlog + 1 })
          (.ok (), ({ s' with listeners := listeners }.disown i).setSocket i .connected)
  | _ => (.ok (), s)

def accept (s : Registry) (i : ℕ) : Except Errno Unit × Registry :=
  match (s.sockets i).state with
  | .listening l =>
    match s.listeners l with
    | some x =>
      if x.backlog = 0 then (.error .EAGAIN, s)
      else
        (.ok (), { s with
          listeners := update s.listeners l (some { x with backlog := x.backlog - 1 }) })
    | none => (.error .EAGAIN, s)
  | _ => (.error .EINVAL, s)

/-- The last reference to the socket goes away. -/
def close (s : Registry) (i : ℕ) : Registry := (s.disown i).setSocket i .closed

/-- The last reference to a listener goes away: `UnixListener::drop`. -/
def dropListener (s : Registry) (l : ℕ) : Registry :=
  match s.listeners l with
  | some x =>
    if x.owned then s
    else
      { (s.unregisterListener x.key).releaseSocketGeneration x.key with
        listeners := update s.listeners l none }
  | none => s

inductive Event
  | bind (i : ℕ) (addr : Address)
  | listen (i : ℕ) (backlog : ℤ)
  | connect (t i : ℕ) (addr : Address)
  | readGeneration (t : ℕ)
  | enqueue (t : ℕ)
  | accept (i : ℕ)
  | close (i : ℕ)
  | dropListener (l : ℕ)
  /-- A file that is not a socket takes the number. -/
  | create (k : InodeKey)
  | unlink (k : InodeKey)

def step (s : Registry) : Event → Registry
  | .bind i addr => (s.bind i addr).2
  | .listen i backlog => (s.listen i backlog).2
  | .connect t i addr => (s.connect t i addr).2
  | .readGeneration t => (s.readGeneration t).2
  | .enqueue t => (s.enqueue t).2
  | .accept i => (s.accept i).2
  | .close i => s.close i
  | .dropListener l => s.dropListener l
  | .create k => { s with files := update s.files k true }
  | .unlink k => { s with files := update s.files k false }

def run (s : Registry) (events : List Event) : Registry := events.foldl step s

/-! ## What is claimed -/

/-- A bound socket or a listener that is alive, with its key and the number of its bind. -/
inductive Holds (s : Registry) : ℕ ⊕ ℕ → ListenerKey → ℕ → Prop
  | socket {i info} : (s.sockets i).state = .bound info → Holds s (.inl i) info.key info.stamp
  | listener {l x} : s.listeners l = some x → Holds s (.inr l) x.key x.stamp

/-- Listeners that are alive have different keys. -/
def Distinct (s : Registry) : Prop :=
  ∀ l l' x x', s.listeners l = some x → s.listeners l' = some x' → x.key = x'.key → l = l'

/-- A listener that a `connect` by path reaches was bound at the inode, no earlier than the
last bind there when the generation was read. -/
def ReachesLatest (s : Registry) (t : ℕ) : Prop :=
  ∀ i k generation since l, s.lookups t = some (.keyed i (.inode k generation) since) →
    s.findListener (.inode k generation) = some l →
    ∃ x, s.listeners l = some x ∧ x.key = .inode k generation ∧ since ≤ x.stamp ∧
      x.stamp ≤ s.latest k

/-- Only entries of the listener disappear from the registry. -/
def RemovesOwn (s : Registry) (l : ℕ) : Prop :=
  ∀ entry ∈ s.table, entry ∉ (s.dropListener l).table → entry.2 = l

/-- The state and the next step are as claimed. -/
def Safe (s : Registry) : Event → Prop
  | .enqueue t => s.Distinct ∧ s.ReachesLatest t
  | .dropListener l => s.Distinct ∧ s.RemovesOwn l
  | _ => s.Distinct

/-- Nobody holds the key that a bind draws. -/
def Fresh (s : Registry) : Event → Prop
  | .bind _ addr => s.taken addr = false → ∀ h stamp, ¬ s.Holds h (s.mint addr) stamp
  | _ => True

def AllFresh (s : Registry) : List Event → Prop
  | [] => True
  | e :: rest => s.Fresh e ∧ AllFresh (s.step e) rest

/-! ## Holders -/

variable {s s' : Registry}

variable {i stamp l : ℕ} {key : ListenerKey} {addr : Address}

lemma holds_socket :
    s.Holds (.inl i) key stamp ↔ (s.sockets i).state = .bound ⟨key, stamp⟩ := by
  constructor
  · intro h
    cases h with
    | socket hs => exact hs
  · intro h
    exact Holds.socket h

lemma holds_listener :
    s.Holds (.inr l) key stamp ↔ ∃ x, s.listeners l = some x ∧ x.key = key ∧ x.stamp = stamp := by
  constructor
  · intro h
    cases h with
    | listener hx => exact ⟨_, hx, rfl, rfl⟩
  · rintro ⟨x, hx, rfl, rfl⟩
    exact Holds.listener hx

/-- What every state satisfies in a run whose binds draw fresh keys. -/
structure Inv (s : Registry) : Prop where
  unique : ∀ {h h' key stamp stamp'}, s.Holds h key stamp → s.Holds h' key stamp' → h = h'
  stamped : ∀ {h k generation stamp}, s.Holds h (.inode k generation) stamp →
    stamp ≤ s.latest k ∧ (s.generations k = some generation → stamp = s.latest k)
  entries : ∀ entry ∈ s.table, ∃ x, s.listeners entry.2 = some x ∧ x.key = entry.1
  keyed : ∀ {t i k generation since}, s.lookups t = some (.keyed i (.inode k generation) since) →
    since ≤ s.binds ∧ ∀ {h stamp}, s.Holds h (.inode k generation) stamp → since ≤ stamp
  latest_le : ∀ k, s.latest k ≤ s.binds
  unused : ∀ l, s.nextListener ≤ l → s.listeners l = none

lemma inv_boot (files : InodeKey → Bool) (dgram : ℕ → Bool) : (boot files dgram).Inv := by
  have hnone : ∀ {h key stamp}, ¬ (boot files dgram).Holds h key stamp := by
    intro h key stamp hh
    cases hh with
    | socket hs => cases hs
    | listener hx => cases hx
  refine ⟨fun hh => absurd hh hnone, fun hh => absurd hh hnone, ?_, ?_, fun _ => le_rfl,
    fun _ _ => rfl⟩
  · intro entry hentry
    cases hentry
  · intro t i k generation since hlookup
    cases hlookup

/-- A step after which nobody holds, no generation says and no lookup expects anything new. -/
lemma Inv.shrink (h : s.Inv)
    (hholds : ∀ {o key stamp}, s'.Holds o key stamp → s.Holds o key stamp)
    (hgen : ∀ {k generation}, s'.generations k = some generation →
      s.generations k = some generation)
    (hlookups : ∀ {t i k generation since},
      s'.lookups t = some (.keyed i (.inode k generation) since) →
        s.lookups t = some (.keyed i (.inode k generation) since))
    (hlatest : s'.latest = s.latest) (hbinds : s'.binds = s.binds)
    (hentries : ∀ entry ∈ s'.table, ∃ x, s'.listeners entry.2 = some x ∧ x.key = entry.1)
    (hunused : ∀ l, s'.nextListener ≤ l → s'.listeners l = none) : s'.Inv where
  unique h₁ h₂ := h.unique (hholds h₁) (hholds h₂)
  stamped hh := by
    rw [hlatest]
    exact ⟨(h.stamped (hholds hh)).1, fun hg => (h.stamped (hholds hh)).2 (hgen hg)⟩
  entries := hentries
  keyed hlookup := by
    rw [hbinds]
    exact ⟨(h.keyed (hlookups hlookup)).1, fun hh => (h.keyed (hlookups hlookup)).2 (hholds hh)⟩
  latest_le := by
    rw [hlatest, hbinds]
    exact h.latest_le
  unused := hunused

/-- A step that changes only the files and the calls under way. -/
lemma Inv.sameHolders (h : s.Inv) (hsockets : s'.sockets = s.sockets)
    (hlisteners : s'.listeners = s.listeners) (hgen : s'.generations = s.generations)
    (htable : ∀ entry ∈ s'.table, entry ∈ s.table) (hnext : s'.nextListener = s.nextListener)
    (hlookups : ∀ {t i k generation since},
      s'.lookups t = some (.keyed i (.inode k generation) since) →
        s.lookups t = some (.keyed i (.inode k generation) since))
    (hlatest : s'.latest = s.latest) (hbinds : s'.binds = s.binds) : s'.Inv := by
  refine h.shrink ?_ (by rw [hgen]; exact id) hlookups hlatest hbinds ?_ ?_
  · intro o key stamp hh
    cases o with
    | inl i =>
      rw [holds_socket, hsockets] at hh
      exact holds_socket.mpr hh
    | inr l =>
      rw [holds_listener, hlisteners] at hh
      exact holds_listener.mpr hh
  · intro entry hentry
    rw [hlisteners]
    exact h.entries entry (htable entry hentry)
  · rw [hlisteners, hnext]
    exact h.unused

/-! ## Steps -/

lemma Inv.publish (h : s.Inv) (hfresh : ∀ o stamp, ¬ s.Holds o (s.mint addr) stamp) :
    (s.publish addr).Inv := by
  cases addr with
  | name name => exact h
  | path k =>
    have hholds : ∀ {o key stamp}, (s.publish (.path k)).Holds o key stamp →
        s.Holds o key stamp := by
      intro o key stamp hh
      cases hh with
      | socket hs => exact Holds.socket hs
      | listener hx => exact Holds.listener hx
    refine ⟨fun h₁ h₂ => h.unique (hholds h₁) (hholds h₂), ?_, h.entries, ?_, h.latest_le, h.unused⟩
    · intro o k' generation stamp hh
      have hold := hholds hh
      refine ⟨(h.stamped hold).1, fun hgen => ?_⟩
      by_cases hk : k' = k
      · subst hk
        change update s.generations k' _ k' = _ at hgen
        rw [update_self, some.injEq] at hgen
        subst hgen
        exact absurd hold (hfresh o stamp)
      · change update s.generations k _ k' = _ at hgen
        rw [update_of_ne hk] at hgen
        exact (h.stamped hold).2 hgen
    · intro t i k' generation since hlookup
      exact ⟨(h.keyed hlookup).1, fun hh => (h.keyed hlookup).2 (hholds hh)⟩

variable {state : SocketState} {o : ℕ ⊕ ℕ} {k : InodeKey} {generation : ℕ} {x : UnixListener}

/-- The holders after a socket changed its state. -/
lemma holds_setSocket (hh : (s.setSocket i state).Holds o key stamp) :
    s.Holds o key stamp ∨ (o = .inl i ∧ state = .bound ⟨key, stamp⟩) := by
  cases o with
  | inl j =>
    rw [holds_socket] at hh
    change (update s.sockets i _ j).state = _ at hh
    by_cases hj : j = i
    · subst hj
      rw [update_self] at hh
      exact .inr ⟨rfl, hh⟩
    · rw [update_of_ne hj] at hh
      exact .inl (holds_socket.mpr hh)
  | inr l =>
    rw [holds_listener] at hh
    exact .inl (holds_listener.mpr hh)

lemma holds_publish :
    (s.publish addr).Holds o key stamp ↔ s.Holds o key stamp := by
  cases addr <;> cases o <;> simp only [holds_socket, holds_listener, publish]

/-- The generation that is published is the one of the new key. -/
lemma publish_generations (h : s.mint addr = .inode k generation) :
    (s.publish addr).generations k = some generation ∧
      s.stampLatest addr k = s.binds + 1 := by
  cases addr with
  | name name => cases h
  | path k' =>
    cases h
    exact ⟨update_self .., update_self ..⟩

/-- No other inode's number moves. -/
lemma stampLatest_cases (s : Registry) (addr : Address) (k : InodeKey) :
    s.stampLatest addr k = s.latest k ∨
      (s.stampLatest addr k = s.binds + 1 ∧ ∃ generation, s.mint addr = .inode k generation) := by
  cases addr with
  | name name => exact .inl rfl
  | path k' =>
    by_cases hk : k = k'
    · subst hk
      exact .inr ⟨update_self .., _, rfl⟩
    · exact .inl (update_of_ne hk _ _)

lemma Inv.bind (h : s.Inv) (hfresh : s.Fresh (.bind i addr)) :
    (s.bind i addr).2.Inv := by
  unfold Registry.bind
  split_ifs with htaken
  · exact h
  rw [Bool.not_eq_true] at htaken
  have hnew := hfresh htaken
  have hpub := h.publish hnew
  split
  case h_2 => exact hpub
  case h_1 hcreated =>
    -- the socket joins the holders with a fresh key and the last number
    have hcases : ∀ {o key stamp}, Holds { (s.publish addr).setSocket i
        (.bound ⟨s.mint addr, s.binds + 1⟩) with
          binds := s.binds + 1, latest := s.stampLatest addr } o key stamp →
        s.Holds o key stamp ∨ (o = .inl i ∧ key = s.mint addr ∧ stamp = s.binds + 1) := by
      intro o key stamp hh
      have hh' : ((s.publish addr).setSocket i (.bound ⟨s.mint addr, s.binds + 1⟩)).Holds
          o key stamp := by
        cases hh with
        | socket hs => exact Holds.socket hs
        | listener hx => exact Holds.listener hx
      rcases holds_setSocket hh' with hold | ⟨rfl, hinfo⟩
      · exact .inl (holds_publish.mp hold)
      · cases hinfo
        exact .inr ⟨rfl, rfl, rfl⟩
    have hle : ∀ k, s.latest k ≤ s.binds := h.latest_le
    constructor
    case entries =>
      intro entry hentry
      exact hpub.entries entry hentry
    case unused => exact hpub.unused
    case latest_le =>
      intro k
      have hk := hle k
      change s.stampLatest addr k ≤ s.binds + 1
      rcases s.stampLatest_cases addr k with heq | ⟨heq, -⟩ <;> omega
    case unique =>
      intro o o' key stamp stamp' h₁ h₂
      rcases hcases h₁ with hold₁ | ⟨rfl, hkey₁, -⟩
      · rcases hcases h₂ with hold₂ | ⟨-, rfl, -⟩
        · exact h.unique hold₁ hold₂
        · exact absurd hold₁ (hnew o stamp)
      · rcases hcases h₂ with hold₂ | ⟨rfl, -, -⟩
        · exact absurd (hkey₁ ▸ hold₂) (hnew o' stamp')
        · rfl
    case stamped =>
      intro o k generation stamp hh
      change stamp ≤ s.stampLatest addr k ∧
        ((s.publish addr).generations k = some generation → stamp = s.stampLatest addr k)
      rcases hcases hh with hold | ⟨-, hkey, rfl⟩
      · have hstamp := hpub.stamped (holds_publish.mpr hold)
        have hlatest : (s.publish addr).latest = s.latest := by cases addr <;> rfl
        rw [hlatest] at hstamp
        have hk := hle k
        rcases s.stampLatest_cases addr k with heq | ⟨heq, generation', hmint⟩
        · rw [heq]
          exact hstamp
        · refine ⟨by omega, fun hgen => ?_⟩
          rw [(publish_generations hmint).1, some.injEq] at hgen
          rw [← hgen, ← hmint] at hold
          exact absurd hold (hnew o stamp)
      · have hmint := publish_generations hkey.symm
        rw [hmint.2]
        exact ⟨le_rfl, fun _ => rfl⟩
    case keyed =>
      intro t j k generation since hlookup
      have hlookup' : s.lookups t = some (.keyed j (.inode k generation) since) := by
        cases addr <;> exact hlookup
      obtain ⟨hsince, hstamps⟩ := h.keyed hlookup'
      refine ⟨hsince.trans (Nat.le_succ _), fun hh => ?_⟩
      rcases hcases hh with hold | ⟨-, -, rfl⟩
      · exact hstamps hold
      · omega

/-- A listener takes the place of a socket among the holders. -/
lemma Inv.handOver (h : s.Inv) {info : BoundInfo} (hself : s.Holds (.inl i) info.key info.stamp)
    (hcases : ∀ {o key stamp}, s'.Holds o key stamp → (s.Holds o key stamp ∧ o ≠ .inl i) ∨
      (o = .inr l ∧ key = info.key ∧ stamp = info.stamp)) (hgen : s'.generations = s.generations)
    (hlookups : s'.lookups = s.lookups) (hlatest : s'.latest = s.latest)
    (hbinds : s'.binds = s.binds)
    (hentries : ∀ entry ∈ s'.table, ∃ x, s'.listeners entry.2 = some x ∧ x.key = entry.1)
    (hunused : ∀ l, s'.nextListener ≤ l → s'.listeners l = none) : s'.Inv := by
  have hholds : ∀ {o key stamp}, s'.Holds o key stamp → ∃ o', s.Holds o' key stamp := by
    intro o key stamp hh
    rcases hcases hh with ⟨hold, -⟩ | ⟨-, rfl, rfl⟩
    · exact ⟨o, hold⟩
    · exact ⟨_, hself⟩
  constructor
  case unique =>
    intro o o' key stamp stamp' h₁ h₂
    rcases hcases h₁ with ⟨hold₁, hne₁⟩ | ⟨rfl, hkey₁, -⟩
    · rcases hcases h₂ with ⟨hold₂, -⟩ | ⟨-, rfl, -⟩
      · exact h.unique hold₁ hold₂
      · exact absurd (h.unique hold₁ hself) hne₁
    · rcases hcases h₂ with ⟨hold₂, hne₂⟩ | ⟨rfl, -, -⟩
      · exact absurd (h.unique (hkey₁ ▸ hold₂) hself) hne₂
      · rfl
  case stamped =>
    intro o k generation stamp hh
    obtain ⟨o', hold⟩ := hholds hh
    rw [hlatest, hgen]
    exact h.stamped hold
  case keyed =>
    intro t j k generation since hlookup
    rw [hlookups] at hlookup
    rw [hbinds]
    refine ⟨(h.keyed hlookup).1, fun hh => ?_⟩
    obtain ⟨o', hold⟩ := hholds hh
    exact (h.keyed hlookup).2 hold
  case latest_le =>
    rw [hlatest, hbinds]
    exact h.latest_le
  case unused => exact hunused
  case entries => exact hentries

lemma Inv.listen (h : s.Inv) (i : ℕ) (backlog : ℤ) : (s.listen i backlog).2.Inv := by
  unfold Registry.listen
  split
  case h_2 => exact h
  case h_1 info hbound =>
    have hunused := h.unused s.nextListener le_rfl
    refine h.handOver (l := s.nextListener) (Holds.socket hbound) ?_ rfl rfl rfl rfl ?_ ?_
    · intro o key stamp hh
      cases o with
      | inl j =>
        rw [holds_socket] at hh
        change (update s.sockets i _ j).state = _ at hh
        by_cases hj : j = i
        · subst hj
          rw [update_self] at hh
          cases hh
        · rw [update_of_ne hj] at hh
          exact .inl ⟨holds_socket.mpr hh, fun heq => hj (Sum.inl.inj heq)⟩
      | inr l =>
        rw [holds_listener] at hh
        obtain ⟨x, hx, rfl, rfl⟩ := hh
        change update s.listeners s.nextListener _ l = _ at hx
        by_cases hl : l = s.nextListener
        · subst hl
          rw [update_self] at hx
          cases hx
          exact .inr ⟨rfl, rfl, rfl⟩
        · rw [update_of_ne hl] at hx
          exact .inl ⟨Holds.listener hx, fun heq => nomatch heq⟩
    · intro entry hentry
      change ∃ x, update s.listeners s.nextListener _ entry.2 = some x ∧ x.key = entry.1
      change entry ∈ s.table.filter _ ++ [(info.key, s.nextListener)] at hentry
      rw [mem_append, mem_singleton] at hentry
      rcases hentry with hold | rfl
      · obtain ⟨x, hx, hkey⟩ := h.entries entry (mem_of_mem_filter hold)
        have hne : entry.2 ≠ s.nextListener := by
          intro heq
          rw [heq, hunused] at hx
          cases hx
        exact ⟨x, by rw [update_of_ne hne, hx], hkey⟩
      · exact ⟨_, update_self .., rfl⟩
    · intro l hl
      change s.nextListener + 1 ≤ l at hl
      change update s.listeners s.nextListener _ l = none
      rw [update_of_ne (by omega)]
      exact h.unused l (by omega)

/-- The lookups after one of them changed. -/
lemma lookup_update {t u : ℕ} {x y : Option Lookup}
    (h : update s.lookups t x u = y) : (u = t ∧ x = y) ∨ s.lookups u = y := by
  by_cases hu : u = t
  · subst hu
    rw [update_self] at h
    exact .inl ⟨rfl, h⟩
  · rw [update_of_ne hu] at h
    exact .inr h

section

variable (h : s.Inv)
include h

lemma Inv.endLookup (t : ℕ) : (s.endLookup t).Inv := by
  refine h.sameHolders rfl rfl rfl (fun _ => id) rfl ?_ rfl rfl
  intro u i k generation since hlookup
  rcases lookup_update hlookup with ⟨-, hnone⟩ | hold
  · cases hnone
  · exact hold

lemma Inv.connect (t i : ℕ) (addr : Address) : (s.connect t i addr).2.Inv := by
  cases addr with
  | name name =>
    refine h.sameHolders rfl rfl rfl (fun _ => id) rfl ?_ rfl rfl
    intro u j k generation since hlookup
    rcases lookup_update hlookup with ⟨-, hnew⟩ | hold
    · cases hnew
    · exact hold
  | path k =>
    simp only [Registry.connect]
    split_ifs
    · refine h.sameHolders rfl rfl rfl (fun _ => id) rfl ?_ rfl rfl
      intro u j k' generation since hlookup
      rcases lookup_update hlookup with ⟨-, hnew⟩ | hold
      · cases hnew
      · exact hold
    · exact h

/-- The key that a lookup learns is held by the last bind at the inode only. -/
lemma Inv.readGeneration (t : ℕ) : (s.readGeneration t).2.Inv := by
  unfold Registry.readGeneration
  split
  case h_2 => exact h
  case h_1 i k hlookup =>
    split
    case h_2 => exact h.endLookup t
    case h_1 generation hgen =>
      have hholds : ∀ {o key stamp}, Holds { s with
          lookups := update s.lookups t
            (some (.keyed i (.inode k generation) (s.latest k))) } o key stamp →
          s.Holds o key stamp := by
        intro o key stamp hh
        cases hh with
        | socket hs => exact Holds.socket hs
        | listener hx => exact Holds.listener hx
      refine ⟨fun h₁ h₂ => h.unique (hholds h₁) (hholds h₂), fun hh => h.stamped (hholds hh),
        h.entries, ?_, h.latest_le, h.unused⟩
      intro u j k' generation' since hlookup'
      rcases lookup_update hlookup' with ⟨-, hnew⟩ | hold
      · cases hnew
        exact ⟨h.latest_le k, fun hh => ((h.stamped (hholds hh)).2 hgen).ge⟩
      · exact ⟨(h.keyed hold).1, fun hh => (h.keyed hold).2 (hholds hh)⟩

/-- A listener changes without its key or its number. -/
lemma Inv.setListener {y : UnixListener} (hx : s.listeners l = some x) (hkey : y.key = x.key)
    (hstamp : y.stamp = x.stamp) :
    ({ s with listeners := update s.listeners l (some y) } : Registry).Inv := by
  have hlt : l < s.nextListener := by
    by_contra hle
    rw [h.unused l (not_lt.mp hle)] at hx
    cases hx
  refine h.shrink ?_ id id rfl rfl ?_ ?_
  · intro o key stamp hh
    cases o with
    | inl i =>
      rw [holds_socket] at hh
      exact holds_socket.mpr hh
    | inr l' =>
      rw [holds_listener] at hh
      obtain ⟨z, hz, rfl, rfl⟩ := hh
      change update s.listeners l (some y) l' = some z at hz
      by_cases hl : l' = l
      · subst hl
        rw [update_self, some.injEq] at hz
        subst hz
        exact holds_listener.mpr ⟨x, hx, hkey.symm, hstamp.symm⟩
      · rw [update_of_ne hl] at hz
        exact Holds.listener hz
  · intro entry hentry
    obtain ⟨z, hz, hzkey⟩ := h.entries entry hentry
    change ∃ z, update s.listeners l (some y) entry.2 = some z ∧ z.key = entry.1
    by_cases hl : entry.2 = l
    · rw [hl] at hz ⊢
      rw [hx, some.injEq] at hz
      subst hz
      exact ⟨y, update_self .., hkey.trans hzkey⟩
    · exact ⟨z, by rw [update_of_ne hl, hz], hzkey⟩
  · intro l' hl'
    change update s.listeners l (some y) l' = none
    have hne : l' ≠ l := by
      change s.nextListener ≤ l' at hl'
      omega
    rw [update_of_ne hne]
    exact h.unused l' hl'

/-- A socket leaves the bound sockets. -/
lemma Inv.setSocket (hstate : ∀ info, state ≠ .bound info) : (s.setSocket i state).Inv := by
  refine h.shrink ?_ id id rfl rfl h.entries h.unused
  intro o key stamp hh
  rcases holds_setSocket hh with hold | ⟨-, hbound⟩
  · exact hold
  · exact absurd hbound (hstate _)

lemma Inv.disown (i : ℕ) : (s.disown i).Inv := by
  unfold Registry.disown
  split
  case h_2 => exact h
  case h_1 l hlistening =>
    match hx : s.listeners l with
    | some x => exact h.setListener hx rfl rfl
    | none =>
      have hsame : update s.listeners l none = s.listeners := by
        rw [← hx, update_eq_self]
      rw [map_none, hsame]
      exact h

lemma Inv.enqueue (t : ℕ) : (s.enqueue t).2.Inv := by
  have hprune : (s.pruneListeners.endLookup t).Inv := by
    refine Inv.endLookup ?_ t
    exact h.sameHolders rfl rfl rfl (fun _ => mem_of_mem_filter) rfl id rfl rfl
  unfold Registry.enqueue
  split
  case h_2 => exact h
  case h_1 i key since hlookup =>
    split
    case h_1 => exact hprune
    case h_2 l hfind =>
      split
      case h_1 => exact hprune
      case h_2 x hx =>
        split_ifs
        · exact hprune
        · refine Inv.setSocket (Inv.disown ?_ i) fun _ hinfo => nomatch hinfo
          exact hprune.setListener hx rfl rfl

lemma Inv.accept (i : ℕ) : (s.accept i).2.Inv := by
  unfold Registry.accept
  split
  case h_2 => exact h
  case h_1 l hlistening =>
    split
    case h_2 => exact h
    case h_1 x hx =>
      split_ifs
      · exact h
      · exact h.setListener hx rfl rfl

lemma Inv.close (i : ℕ) : (s.close i).Inv :=
  (h.disown i).setSocket fun _ hinfo => nomatch hinfo

end

lemma dropListener_table (s : Registry) (l : ℕ) (hx : s.listeners l = some x)
    (howned : x.owned = false) :
    (s.dropListener l).table = s.table.filter fun entry => entry.1 ≠ x.key := by
  unfold dropListener
  rw [hx]
  simp only [howned, Bool.false_eq_true, if_false]
  unfold releaseSocketGeneration
  split
  · rfl
  · split_ifs <;> rfl

lemma releaseSocketGeneration_generations
    (h : (s.releaseSocketGeneration key).generations k = some generation) :
    s.generations k = some generation := by
  unfold releaseSocketGeneration at h
  split at h
  · exact h
  case h_2 k' generation' =>
    split_ifs at h
    · change update s.generations k' none k = _ at h
      by_cases hk : k = k'
      · subst hk
        rw [update_self] at h
        cases h
      · rwa [update_of_ne hk] at h
    · exact h

/-- Releasing a generation changes nothing else. -/
lemma releaseSocketGeneration_same (s : Registry) (key : ListenerKey) :
    ∃ generations, s.releaseSocketGeneration key = { s with generations := generations } := by
  unfold releaseSocketGeneration
  split
  · exact ⟨_, rfl⟩
  · split_ifs <;> exact ⟨_, rfl⟩

lemma Inv.dropListener (h : s.Inv) (l : ℕ) : (s.dropListener l).Inv := by
  unfold Registry.dropListener
  split
  case h_2 => exact h
  case h_1 x hx =>
    split_ifs
    · exact h
    have hgen : ∀ {k generation}, ((s.unregisterListener x.key).releaseSocketGeneration
        x.key).generations k = some generation → s.generations k = some generation :=
      releaseSocketGeneration_generations
    obtain ⟨generations, hsame⟩ := releaseSocketGeneration_same (s.unregisterListener x.key) x.key
    rw [hsame] at hgen ⊢
    refine h.shrink ?_ hgen id rfl rfl ?_ ?_
    · intro o key stamp hh
      cases o with
      | inl i =>
        rw [holds_socket] at hh
        exact holds_socket.mpr hh
      | inr l' =>
        rw [holds_listener] at hh
        obtain ⟨z, hz, rfl, rfl⟩ := hh
        change update s.listeners l none l' = some z at hz
        by_cases hl : l' = l
        · subst hl
          rw [update_self] at hz
          cases hz
        · rw [update_of_ne hl] at hz
          exact Holds.listener hz
    · -- the entries that stay have another key than the dropped listener
      intro entry hentry
      change entry ∈ s.table.filter _ at hentry
      rw [mem_filter, decide_eq_true_iff] at hentry
      obtain ⟨z, hz, hzkey⟩ := h.entries entry hentry.1
      have hne : entry.2 ≠ l := by
        intro heq
        rw [heq, hx, some.injEq] at hz
        subst hz
        exact hentry.2 hzkey.symm
      exact ⟨z, (update_of_ne hne _ _).trans hz, hzkey⟩
    · intro l' hl'
      change update s.listeners l none l' = none
      by_cases hl : l' = l
      · subst hl
        exact update_self ..
      · rw [update_of_ne hl]
        exact h.unused l' hl'

lemma Inv.step (h : s.Inv) {e : Event} (hfresh : s.Fresh e) : (s.step e).Inv := by
  cases e with
  | bind i addr => exact h.bind hfresh
  | listen i backlog => exact h.listen i backlog
  | connect t i addr => exact h.connect t i addr
  | readGeneration t => exact h.readGeneration t
  | enqueue t => exact h.enqueue t
  | accept i => exact h.accept i
  | close i => exact h.close i
  | dropListener l => exact h.dropListener l
  | create k | unlink k => exact h.sameHolders rfl rfl rfl (fun _ => id) rfl id rfl rfl

lemma Inv.run (h : s.Inv) {events : List Event} (hfresh : s.AllFresh events) :
    (s.run events).Inv := by
  induction events generalizing s with
  | nil => exact h
  | cons e rest ih => exact ih (h.step hfresh.1) hfresh.2

/-! ## Safety -/

lemma Inv.distinct (h : s.Inv) : s.Distinct := by
  intro l l' x x' hx hx' hkey
  have hx₂ : s.Holds (.inr l') x.key x'.stamp := hkey ▸ Holds.listener hx'
  exact Sum.inr.inj (h.unique (Holds.listener hx) hx₂)

lemma Inv.reachesLatest (h : s.Inv) (t : ℕ) : s.ReachesLatest t := by
  intro i k generation since l hlookup hfind
  obtain ⟨entry, hentry, rfl⟩ := map_eq_some_iff.mp hfind
  have hmem := mem_of_find?_eq_some hentry
  have hmatch := find?_some hentry
  rw [Bool.and_eq_true, beq_iff_eq] at hmatch
  obtain ⟨x, hx, hkey⟩ := h.entries entry hmem
  rw [hmatch.2] at hkey
  have hheld := hkey ▸ Holds.listener hx
  exact ⟨x, hx, hkey, (h.keyed hlookup).2 hheld, (h.stamped hheld).1⟩

lemma Inv.removesOwn (h : s.Inv) (l : ℕ) : s.RemovesOwn l := by
  intro entry hentry hgone
  match hx : s.listeners l with
  | none =>
    rw [Registry.dropListener, hx] at hgone
    exact absurd hentry hgone
  | some x =>
    by_cases howned : x.owned = true
    · rw [Registry.dropListener, hx] at hgone
      simp only [howned, if_true] at hgone
      exact absurd hentry hgone
    · rw [Bool.not_eq_true] at howned
      rw [s.dropListener_table l hx howned, mem_filter, decide_eq_true_iff, not_and,
        not_not] at hgone
      obtain ⟨z, hz, hzkey⟩ := h.entries entry hentry
      exact h.distinct entry.2 l z x hz hx (hzkey.trans (hgone hentry))

/-- In every run whose binds draw keys that nobody holds, listeners that are alive have
different keys, a `connect` by path reaches the listener that was bound last, and dropping
a listener removes only its own entry. -/
theorem safe_run (files : InodeKey → Bool) (dgram : ℕ → Bool) (events : List Event)
    (hfresh : (boot files dgram).AllFresh events) (e : Event) :
    ((boot files dgram).run events).Safe e := by
  have hinv := (inv_boot files dgram).run hfresh
  cases e with
  | enqueue t => exact ⟨hinv.distinct, hinv.reachesLatest t⟩
  | dropListener l => exact ⟨hinv.distinct, hinv.removesOwn l⟩
  | _ => exact hinv.distinct

/-- A number that is used again while the listener of the unlinked file is alive. -/
theorem safe_run_recycled :
    let k : InodeKey := ⟨1, 12⟩
    ((boot (fun _ => false) fun _ => false).run [.bind 0 (.path k), .listen 0 5, .unlink k,
      .bind 1 (.path k), .listen 1 5, .connect 9 2 (.path k), .readGeneration 9]).Safe
        (.enqueue 9) := by
  refine safe_run _ _ _ ?_ _
  refine ⟨?_, trivial, trivial, ?_, trivial, trivial, trivial, trivial⟩
  · intro _ h stamp hh
    cases h with
    | inl i => cases holds_socket.mp hh
    | inr l =>
      obtain ⟨x, hx, -⟩ := holds_listener.mp hh
      cases hx
  · intro _ h stamp hh
    cases h with
    | inl i =>
      have hstate := holds_socket.mp hh
      match i with
      | 0 | i + 1 => cases hstate
    | inr l =>
      obtain ⟨x, hx, hkey, -⟩ := holds_listener.mp hh
      match l with
      | 0 =>
        cases hx
        revert hkey
        decide
      | l + 1 => cases hx

/-- The number is bound three times. Dropping the listener of the second file forgets the
generation, so the third one draws the key of the first, which is still alive. Dropping the
first listener then removes the entry of the third; and if the first socket starts to listen
last, a `connect` to the third file reaches it. -/
theorem keys_collide :
    let k : InodeKey := ⟨1, 12⟩
    let s := boot (fun _ => false) fun _ => false
    let first := s.run [.bind 0 (.path k), .listen 0 5, .unlink k, .bind 1 (.path k),
      .listen 1 5, .close 1, .dropListener 1, .unlink k, .bind 2 (.path k), .listen 2 5, .close 0]
    let late := s.run [.bind 0 (.path k), .unlink k, .bind 1 (.path k), .listen 1 5, .close 1,
      .dropListener 0, .unlink k, .bind 2 (.path k), .listen 2 5, .listen 0 5,
      .connect 9 3 (.path k), .readGeneration 9]
    ¬ first.Distinct ∧ ¬ first.RemovesOwn 0 ∧ ¬ late.ReachesLatest 9 := by
  refine ⟨fun h => ?_, fun h => ?_, fun h => ?_⟩
  · have heq := h 0 2 _ _ rfl rfl rfl
    revert heq
    decide
  · have heq := h (.inode ⟨1, 12⟩ 1, 2) (by decide +kernel) (by decide +kernel)
    revert heq
    decide
  · obtain ⟨x, hx, -, hsince, -⟩ := h 3 ⟨1, 12⟩ 1 3 2 rfl (by decide +kernel)
    cases hx
    revert hsince
    decide

end Registry

end Kevlar.UnixListeners
