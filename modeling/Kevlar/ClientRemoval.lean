import Mathlib.Data.Nat.Notation

/-!
# The disconnect of an X client

`poll_once` takes the clients that hung up out of its list and then delivers the
pending events. It leaves the resources, the redirect owners and the selection
owners as they are: `reap_client` is never called. The server keeps no grab, its
grab handlers only reply.
-/
namespace Kevlar.XClients

/-- A resource with the clients that listen to it and the rest of its data. A resource that is
no window has no listeners. -/
structure ResourceEntry (R : Type) where
  owner : ℕ
  listeners : List ℕ
  data : R

structure PendingEvent where
  targetClient : ℕ
  ev : List (BitVec 8)

structure Client where
  id : ℕ
  seq : BitVec 16
  writeBuf : List (BitVec 8)

/-- The owners of selections and redirections are given by their clients. -/
structure Server (R : Type) where
  clients : List Client
  resources : ℕ → Option (ResourceEntry R)
  pendingEvents : List PendingEvent
  selectionOwners : List ℕ
  redirectOwners : List ℕ

/-- `queue_event` and the `flush_events` that follows it. -/
def Client.queueEvent (c : Client) (ev : List (BitVec 8)) : Client :=
  { c with writeBuf := c.writeBuf ++
      (ev.set 2 (c.seq.setWidth 8)).set 3 ((c.seq >>> 8).setWidth 8) }

/-- An event whose target is gone is dropped. -/
def deliver (pe : PendingEvent) : List Client → List Client
  | [] => []
  | c :: rest =>
    if c.id = pe.targetClient then c.queueEvent pe.ev :: rest else c :: deliver pe rest

variable {R : Type}

/-- The part of `poll_once` after the requests: the clients at the indices
`drops` are removed, the highest first, the input adds the events `routed`, and
all pending events are delivered. -/
def Server.pollOnce (s : Server R) (drops : List ℕ) (routed : List PendingEvent) : Server R :=
  { s with
    clients := (s.pendingEvents ++ routed).foldl (fun clients pe => deliver pe clients)
      (drops.reverse.foldl List.eraseIdx s.clients)
    pendingEvents := [] }

/-- A table that the requests of clients fill names the client. -/
def Server.Names (s : Server R) (client : ℕ) : Prop :=
  (∃ id e, s.resources id = some e ∧ (e.owner = client ∨ client ∈ e.listeners)) ∨
    client ∈ s.redirectOwners ∨ client ∈ s.selectionOwners

def ResourceEntry.without (e : ResourceEntry R) (client : ℕ) : ResourceEntry R :=
  { e with listeners := e.listeners.filter (· ≠ client) }

/-- Nothing of `s'` refers to the client, and what the others own in `s` is in
`s'` with the client out of its listeners. -/
structure Forgotten (client : ℕ) (s s' : Server R) : Prop where
  tables : ¬ s'.Names client
  pending : ∀ pe ∈ s'.pendingEvents, pe.targetClient ≠ client
  others : ∀ id e, s.resources id = some e → e.owner ≠ client →
    s'.resources id = some (e.without client)

lemma ResourceEntry.without_eq {e : ResourceEntry R} {client : ℕ}
    (h : client ∉ e.listeners) : e.without client = e := by
  unfold ResourceEntry.without
  rw [List.filter_eq_self.mpr]
  exact fun l hl => decide_eq_true fun heq => h (heq ▸ hl)

/-- The server forgets a client that disconnects exactly when none of the tables
named it before. -/
theorem forgotten_pollOnce_iff (s : Server R) (drops : List ℕ) (routed : List PendingEvent)
    (client : ℕ) : Forgotten client s (s.pollOnce drops routed) ↔ ¬ s.Names client := by
  constructor
  · intro h
    exact h.tables
  · intro h
    refine ⟨h, List.forall_mem_nil _, ?_⟩
    intro id e he howner
    rw [ResourceEntry.without_eq]
    · exact he
    · intro hlistens
      exact h (.inl ⟨id, e, he, .inr hlistens⟩)

/-- The window of a client stays after its disconnect. -/
theorem window_outlives_client :
    let windows := fun id => if id = 2097153 then some ⟨1, [], ()⟩ else none
    let s : Server Unit := ⟨[⟨1, 0, []⟩], windows, [], [], []⟩
    (s.pollOnce [0] []).clients = [] ∧ ¬ Forgotten 1 s (s.pollOnce [0] []) :=
  ⟨rfl, fun h => h.tables (.inl ⟨2097153, ⟨1, [], ()⟩, rfl, .inl rfl⟩)⟩

end Kevlar.XClients
