import Kevlar.EpollSteps

/-!
# Watcher counts and edge-triggered interests

A pipe, a pair of streams and a listener each count their edge-triggered watchers. The
count follows `epoll_ctl` through the stored mask of an interest, which a one-shot
report clears, and through the object that a socket stands for at the time of the call.
A step keeps all counts equal to the numbers of registered edge-triggered interests
exactly under the condition stated here.
-/
namespace Kevlar.Watch
open Option Files Function List

/-- What has a watcher count. -/
inductive Counter
  | pipe (k : ℕ)
  | pair (k : ℕ)
  | listener (k : ℕ)
  deriving DecidableEq

namespace Files

/-- The count that a notification of the file reaches. -/
def counterOf (s : Files) : File → Option Counter
  | .pipeReader k => some (.pipe k)
  | .pipeWriter k => some (.pipe k)
  | .eventfd _ => none
  | .stream k _ => some (.pair k)
  | .socket k =>
    match s.sockets k with
    | .listening l => some (.listener l)
    | .connected k _ => some (.pair k)
    | _ => none
  | .other _ => none

/-- The count has the value `n`, for a pair on both sides. -/
def HasCount (s : Files) (c : Counter) (n : ℕ) : Prop :=
  match c with
  | .pipe k => (s.pipes k).etWatcherCount = n
  | .pair k => ∀ e, (s.pairs k).watchers e = n
  | .listener k => (s.listeners k).etWatcherCount = n

variable {s t : Files} {c : Counter} {n : ℕ}

lemma HasCount.unique {m : ℕ} (hm : s.HasCount c m) (hn : s.HasCount c n) : m = n := by
  cases c with
  | pipe k | listener k => exact hm.symm.trans hn
  | pair k => exact (hm .a).symm.trans (hn .a)

/-- A count after a notification. -/
def adjust (added : Bool) (n : ℕ) : ℕ :=
  if added then (n + 1) % 2 ^ 32 else (n + 2 ^ 32 - 1) % 2 ^ 32

lemma adjust_lt (added : Bool) (n : ℕ) : adjust added n < 2 ^ 32 := by
  unfold adjust
  split_ifs <;> omega

lemma adjust_true (h : n < 2 ^ 32) : adjust true n = n + 1 ↔ n + 1 < 2 ^ 32 := by
  unfold adjust
  rw [if_pos rfl]
  omega

lemma adjust_true_ne (n : ℕ) : adjust true (n + 1) ≠ n + 1 := by
  unfold adjust
  rw [if_pos rfl]
  omega

lemma adjust_false (h : n + 1 < 2 ^ 32) : adjust false (n + 1) = n := by
  unfold adjust
  rw [if_neg Bool.false_ne_true]
  omega

variable {b k listener : ℕ} {e r : Bool} {file : File}

/-- The count after a change of the mask: `b` other interests, `e` the stored edge bit,
`r` the registered one and `n` the new one. -/
lemma adjust_modify {n : Bool} (hstored : e = r ∨ e = false) (hlt : b + r.toNat < 2 ^ 32) :
    (if e ≠ n then adjust n (b + r.toNat) else b + r.toNat) = b + n.toNat ↔
      e = r ∧ (n → ¬ e → b + r.toNat + 1 < 2 ^ 32) := by
  cases e <;> cases r <;> cases n
  · simp
  · simpa using adjust_true hlt
  · simp
  · simpa using adjust_true_ne b
  · simp at hstored
  · simp at hstored
  · simpa using adjust_false hlt
  · simp

/-- The count after a deletion. -/
lemma adjust_delete (hstored : e = r ∨ e = false) (hlt : b + r.toNat < 2 ^ 32) :
    (if e then adjust false (b + r.toNat) else b + r.toNat) = b ↔ e = r := by
  cases e <;> cases r
  · simp
  · simp
  · simp at hstored
  · simpa using adjust_false hlt

lemma watchers_notify (p : StreamPair) (added : Bool) (e : End) :
    (p.notifyEpollEt added).watchers e = adjust added (p.watchers e) := by
  cases e <;> rfl

lemma hasCount_setPipe (p : Pipe) : (s.setPipe k p).HasCount c n ↔
      if c = .pipe k then p.etWatcherCount = n else s.HasCount c n := by
  split_ifs with hc
  · simp [hc, HasCount, setPipe]
  · cases c with
    | pipe j =>
      have hj : j ≠ k := fun h => hc (h ▸ rfl)
      simp [HasCount, setPipe, hj]
    | _ => exact .rfl

lemma hasCount_setPair (s : Files) (k : ℕ) (p : StreamPair) (c : Counter) (n : ℕ) :
    (s.setPair k p).HasCount c n ↔
      if c = .pair k then (∀ e, p.watchers e = n) else s.HasCount c n := by
  split_ifs with hc
  · simp [hc, HasCount, setPair]
  · cases c with
    | pair j =>
      have hj : j ≠ k := fun h => hc (h ▸ rfl)
      simp [HasCount, setPair, hj]
    | _ => exact .rfl

lemma hasCount_setListener (s : Files) (k : ℕ) (l : Listener) (c : Counter) (n : ℕ) :
    (s.setListener k l).HasCount c n ↔
      if c = .listener k then l.etWatcherCount = n else s.HasCount c n := by
  split_ifs with hc
  · simp [hc, HasCount, setListener]
  · cases c with
    | listener j =>
      have hj : j ≠ k := fun h => hc (h ▸ rfl)
      simp [HasCount, setListener, hj]
    | _ => exact .rfl

/-- A notification of the object that has the count. -/
def notifyAt (s : Files) (c : Counter) (added : Bool) : Files :=
  match c with
  | .pipe k => s.setPipe k ((s.pipes k).notifyEpollEt added)
  | .pair k => s.setPair k ((s.pairs k).notifyEpollEt added)
  | .listener k => s.setListener k ((s.listeners k).notifyEpollEt added)

lemma notifyEpollEt_of_some (h : s.counterOf file = some c) (added : Bool) :
    s.notifyEpollEt file added = s.notifyAt c added := by
  cases file with
  | socket k =>
    simp only [counterOf, notifyEpollEt] at h ⊢
    cases hs : s.sockets k with
    | listening l | connected k e =>
      simp only [hs] at h ⊢
      cases h
      rfl
    | created | bound => simp [hs] at h
  | eventfd k | other k => cases h
  | _ =>
    cases h
    rfl

lemma notifyEpollEt_of_none (h : s.counterOf file = none) (added : Bool) :
    s.notifyEpollEt file added = s := by
  cases file with
  | eventfd k | other k => rfl
  | socket k =>
    simp only [counterOf, notifyEpollEt] at h ⊢
    split
    · next hs => simp [hs] at h
    · next hs => simp [hs] at h
    · rfl
  | _ => cases h

lemma hasCount_notifyAt (h : s.HasCount c n) (added : Bool) :
    (s.notifyAt c added).HasCount c (adjust added n) := by
  cases c with
  | pipe k =>
    rw [notifyAt, hasCount_setPipe, if_pos rfl]
    exact congrArg (adjust added) h
  | pair k =>
    rw [notifyAt, hasCount_setPair, if_pos rfl]
    intro e
    rw [watchers_notify, h e]
  | listener k =>
    rw [notifyAt, hasCount_setListener, if_pos rfl]
    exact congrArg (adjust added) h

lemma hasCount_notifyAt_of_ne (s : Files) {d : Counter} (h : d ≠ c) (added : Bool) (n : ℕ) :
    (s.notifyAt c added).HasCount d n ↔ s.HasCount d n := by
  cases c with
  | pipe k => rw [notifyAt, hasCount_setPipe, if_neg h]
  | pair k => rw [notifyAt, hasCount_setPair, if_neg h]
  | listener k => rw [notifyAt, hasCount_setListener, if_neg h]

lemma hasCount_notifyAt_lt {added : Bool} (h : (s.notifyAt c added).HasCount c n) :
    n < 2 ^ 32 := by
  cases c with
  | pipe k =>
    rw [notifyAt, hasCount_setPipe, if_pos rfl] at h
    rw [← h]
    exact adjust_lt added _
  | pair k =>
    rw [notifyAt, hasCount_setPair, if_pos rfl] at h
    rw [← h .a, watchers_notify]
    exact adjust_lt added _
  | listener k =>
    rw [notifyAt, hasCount_setListener, if_pos rfl] at h
    rw [← h]
    exact adjust_lt added _

/-- Counts below the end of their range. -/
def Bounded (s : Files) : Prop := ∀ c n, s.HasCount c n → n < 2 ^ 32

lemma notifyEpollEt_bounded (h : s.Bounded) (file : File) (added : Bool) :
    (s.notifyEpollEt file added).Bounded := by
  intro c n hn
  match hfile : s.counterOf file with
  | none =>
    rw [notifyEpollEt_of_none hfile] at hn
    exact h c n hn
  | some d =>
    rw [notifyEpollEt_of_some hfile] at hn
    by_cases hc : c = d
    · rw [hc] at hn
      exact hasCount_notifyAt_lt hn
    · exact h c n ((hasCount_notifyAt_of_ne s hc added n).mp hn)

lemma counterOf_sockets (h : t.sockets = s.sockets) (file : File) :
    t.counterOf file = s.counterOf file := by
  cases file with
  | socket k => simp only [counterOf, h]
  | _ => rfl

lemma SameWatchers.hasCount (h : s.SameWatchers t) (c : Counter) (n : ℕ) :
    t.HasCount c n ↔ s.HasCount c n := by
  cases c with
  | pipe k => simp only [HasCount, h.pipes]
  | pair k => simp only [HasCount, h.pairs]
  | listener k => simp only [HasCount, h.listeners]

lemma SameWatchers.bounded (h : s.SameWatchers t) (hs : s.Bounded) : t.Bounded :=
  fun c n hn => hs c n ((h.hasCount c n).mp hn)

/-- A step that only resets objects which were not handed out. -/
lemma listen_hasCount (backlog : ℤ) (hbound : s.sockets k = .bound) (c : Counter) (n : ℕ) :
    (s.listen k backlog).HasCount c n ↔
      if c = .listener s.nextListener then 0 = n else s.HasCount c n := by
  simp only [Files.listen, hbound]
  exact hasCount_setListener s s.nextListener _ c n

lemma listen_of_ne (backlog : ℤ) (h : s.sockets k ≠ .bound) :
    s.listen k backlog = s := by
  unfold Files.listen
  split
  · next hbound => exact absurd hbound h
  · rfl

lemma connect_none (k : ℕ) (h : (s.listeners listener).enqueueConnection s.nextPair = none) :
    s.connect k listener = s := by
  simp only [connect, h]

lemma connect_hasCount (k : ℕ) (h : ((s.listeners listener).enqueueConnection s.nextPair).isSome)
    (c : Counter) (n : ℕ) :
    (s.connect k listener).HasCount c n ↔
      if c = .pair s.nextPair then 0 = n else s.HasCount c n := by
  obtain ⟨l, hl⟩ := isSome_iff_exists.mp h
  have hcount : l.etWatcherCount = (s.listeners listener).etWatcherCount := by
    unfold Listener.enqueueConnection at hl
    split at hl
    · cases hl
    · cases hl
      exact Gated.bumpGen_watchers _
  simp only [connect, hl]
  refine (hasCount_setPair (s.setListener listener l) s.nextPair (.newPairTyped false) c n).trans ?_
  have hfresh : (∀ e, (StreamPair.newPairTyped false).watchers e = n) ↔ 0 = n :=
    ⟨fun h => h .a, fun h e => by cases e <;> exact h⟩
  rw [hfresh, (sameWatchers_setListener hcount).hasCount c n]

lemma socketpair_hasCount (s : Files) (dgram : Bool) (c : Counter) (n : ℕ) :
    (s.socketpair dgram).HasCount c n ↔
      if c = .pair s.nextPair then 0 = n else s.HasCount c n := by
  refine (hasCount_setPair s s.nextPair (.newPairTyped dgram) c n).trans ?_
  have hfresh : (∀ e, (StreamPair.newPairTyped dgram).watchers e = n) ↔ 0 = n :=
    ⟨fun h => h .a, fun h e => by cases e <;> exact h⟩
  rw [hfresh]

end Files

/-! ## The counts of a state -/

namespace Kernel

/-- An edge-triggered interest whose file has the count. -/
def countsFor (s : Files) (c : Counter) (x : Entry) : Bool :=
  isEdge x.interest.registered && decide (s.counterOf x.interest.file = some c)

/-- The number of interests that are registered with `EPOLLET`. -/
def edges (s : Kernel) (c : Counter) : ℕ := s.entries.countP (countsFor s.files c)

/-- Every count is the number of edge-triggered interests. -/
def Consistent (s : Kernel) : Prop := ∀ c, s.files.HasCount c (s.edges c)

/-- The condition under which a step keeps the counts: an interest that is modified or
deleted was not disarmed while it was edge-triggered, no interest of a dropped instance
is counted, a socket that gets a new state has no edge-triggered interest, and no count
reaches the end of its 32 bits. -/
def KeepsCounts (s : Kernel) : Event → Prop
  | .add ep fd file event => s.entries.any (Entry.hasKey ep fd) = false → isEdge event.events →
      ∀ c, s.files.counterOf file = some c → s.edges c + 1 < 2 ^ 32
  | .modify ep fd event => ∀ x, s.entries.find? (Entry.hasKey ep fd) = some x →
      ∀ c, s.files.counterOf x.interest.file = some c →
        isEdge x.interest.events = isEdge x.interest.registered ∧
        (isEdge event.events → ¬ isEdge x.interest.events → s.edges c + 1 < 2 ^ 32)
  | .delete ep fd => ∀ x, s.entries.find? (Entry.hasKey ep fd) = some x →
      ∀ c, s.files.counterOf x.interest.file = some c →
        isEdge x.interest.events = isEdge x.interest.registered
  | .dropInstance ep => ∀ x ∈ s.entries, x.ep = ep → isEdge x.interest.registered →
      s.files.counterOf x.interest.file = none
  | .listen k _ => s.files.sockets k = .bound →
      ∀ x ∈ s.entries, x.interest.file = .socket k → ¬ isEdge x.interest.registered
  | .connect k listener =>
      ((s.files.listeners listener).enqueueConnection s.files.nextPair).isSome →
      ∀ x ∈ s.entries, x.interest.file = .socket k → ¬ isEdge x.interest.registered
  | _ => True

/-- What holds in every state that the steps reach. -/
structure Linked (s : Kernel) : Prop where
  handed : s.Handed
  stored : ∀ x ∈ s.entries, x.interest.events = x.interest.registered ∨ x.interest.events = 0
  bounded : s.files.Bounded

variable {s s' : Kernel} {file : File} {added : Bool} {t : Files} {d : Counter}

lemma bounded_reset {s : Files} (h : s.Bounded)
    (ht : ∀ c n, t.HasCount c n ↔ if c = d then 0 = n else s.HasCount c n) : t.Bounded := by
  intro c n hn
  rw [ht] at hn
  split_ifs at hn
  · omega
  · exact h c n hn

lemma Linked.step {s s' : Kernel} (h : s.Linked) {e : Event} (hstep : s.step e = some s') :
    s'.Linked := by
  have hhanded := h.handed.step hstep
  cases step_effect hstep with
  | ctl hctl =>
    refine ⟨hhanded, fun x hx => ?_, ?_⟩
    · obtain hx | hx := hctl.entries x hx
      · exact h.stored x hx
      · exact .inl hx.1
    · obtain hf | ⟨file, added, hf⟩ := hctl.files
      · exact hf ▸ h.bounded
      · exact hf ▸ notifyEpollEt_bounded h.bounded file added
  | sameWatchers hsame => exact ⟨hhanded, h.stored, hsame.bounded h.bounded⟩
  | collect ep max room =>
    refine ⟨hhanded, fun y hy => ?_, h.bounded⟩
    obtain ⟨x, hx, hxy⟩ :=
      exists_visited (collectReady_visited s.files ep max room 0 s.entries) y hy
    obtain ⟨-, hregistered, hevents | hevents⟩ := hxy.same
    · rw [hevents, hregistered]
      exact h.stored x hx
    · exact .inr hevents
  | dropInstance ep => exact ⟨hhanded, fun x hx => h.stored x (mem_of_mem_filter hx), h.bounded⟩
  | bind k =>
    refine ⟨hhanded, h.stored, ?_⟩
    change (s.files.bind k).Bounded
    unfold Files.bind
    split <;> exact h.bounded
  | listen k backlog =>
    refine ⟨hhanded, h.stored, ?_⟩
    change (s.files.listen k backlog).Bounded
    by_cases hbound : s.files.sockets k = .bound
    · exact bounded_reset h.bounded (listen_hasCount backlog hbound)
    · rw [listen_of_ne backlog hbound]
      exact h.bounded
  | connect k listener =>
    refine ⟨hhanded, h.stored, ?_⟩
    change (s.files.connect k listener).Bounded
    by_cases hroom : ((s.files.listeners listener).enqueueConnection s.files.nextPair).isSome
    · exact bounded_reset h.bounded (connect_hasCount k hroom)
    · rw [connect_none k (not_isSome_iff_eq_none.mp hroom)]
      exact h.bounded
  | socketpair dgram =>
    exact ⟨hhanded, h.stored, bounded_reset h.bounded (socketpair_hasCount _ dgram)⟩
  | setOther k status => exact ⟨hhanded, h.stored, h.bounded⟩

/-! ## One step -/

variable {c : Counter} {k : ℕ}

lemma countsFor_eq {s : Files} {x y : Entry}
    (hregistered : y.interest.registered = x.interest.registered)
    (hcounter : t.counterOf y.interest.file = s.counterOf x.interest.file) :
    countsFor t c y = countsFor s c x := by
  rw [countsFor, countsFor, hregistered, hcounter]

lemma countsFor_sockets {s : Files} (h : t.sockets = s.sockets) (c : Counter) :
    countsFor t c = countsFor s c := by
  funext x
  exact countsFor_eq rfl (counterOf_sockets h _)

lemma Consistent.sameWatchers (h : s.Consistent) (hsame : s.files.SameWatchers t) :
    Consistent { s with files := t } := by
  intro c
  rw [hsame.hasCount, edges, countsFor_sockets hsame.sockets]
  exact h c

/-- A notification of the object with count `d`, when only that count has to change. -/
lemma consistent_notifyAt (h : s.Consistent) (hfiles : s'.files = s.files.notifyAt d added)
    (hedges : ∀ c ≠ d, s'.edges c = s.edges c) :
    s'.Consistent ↔ adjust added (s.edges d) = s'.edges d := by
  have hcount : s'.files.HasCount d (adjust added (s.edges d)) := by
    rw [hfiles]
    exact hasCount_notifyAt (h d) added
  constructor
  · exact fun h' => hcount.unique (h' d)
  · intro heq c
    by_cases hc : c = d
    · rw [hc, ← heq]
      exact hcount
    · rw [hfiles, hasCount_notifyAt_of_ne _ hc, hedges c hc]
      exact h c

lemma consistent_same (h : s.Consistent) (hfiles : s'.files = s.files)
    (hedges : ∀ c ≠ d, s'.edges c = s.edges c) :
    s'.Consistent ↔ s.edges d = s'.edges d := by
  constructor
  · intro h'
    have hd := h' d
    rw [hfiles] at hd
    exact (h d).unique hd
  · intro heq c
    rw [hfiles]
    by_cases hc : c = d
    · rw [hc, ← heq]
      exact h d
    · rw [hedges c hc]
      exact h c

/-- The files of a step that notifies the counted object of a file, or notifies nothing. -/
lemma consistent_notified (h : s.Consistent) {c : Prop} [Decidable c]
    (hfiles : s'.files = if c then s.files.notifyEpollEt file added else s.files)
    (hother : ∀ d, s.files.counterOf file ≠ some d → s'.edges d = s.edges d) :
    s'.Consistent ↔ ∀ d, s.files.counterOf file = some d →
      (if c then adjust added (s.edges d) else s.edges d) = s'.edges d := by
  match hd : s.files.counterOf file with
  | none =>
    refine iff_of_true (fun d => ?_) fun d hc => nomatch hc
    rw [hother d (by simp [hd]), hfiles, notifyEpollEt_of_none hd, ite_self]
    exact h d
  | some d =>
    have hother' : ∀ d' ≠ d, s'.edges d' = s.edges d' := fun d' hne =>
      hother d' (by simp [hd, Ne.symm hne])
    simp only [some.injEq, forall_eq']
    by_cases hc : c
    · rw [if_pos hc, notifyEpollEt_of_some hd] at hfiles
      rw [if_pos hc]
      exact consistent_notifyAt h hfiles hother'
    · rw [if_neg hc] at hfiles
      rw [if_neg hc]
      exact consistent_same h hfiles hother'

lemma sockets_notified {c : Prop} [Decidable c]
    (hfiles : s'.files = if c then s.files.notifyEpollEt file added else s.files) :
    s'.files.sockets = s.files.sockets := by
  rw [hfiles]
  split_ifs
  · exact (s.files.notifyEpollEt_next file added).1
  · rfl

section

variable (h : s.Consistent)
  (ht : ∀ c n, t.HasCount c n ↔ if c = d then 0 = n else s.files.HasCount c n)
  (hfresh : ∀ x ∈ s.entries, s.files.counterOf x.interest.file ≠ some d)
include h ht hfresh

/-- Objects that were not handed out are reset, and no counted interest gets another count. -/
lemma consistent_reset (hcounter : ∀ x ∈ s.entries, isEdge x.interest.registered →
      t.counterOf x.interest.file = s.files.counterOf x.interest.file) :
    Consistent { s with files := t } := by
  intro c
  have hedges : edges { s with files := t } c = s.edges c := by
    apply countP_congr
    intro x hx
    by_cases hedge : isEdge x.interest.registered
    · rw [countsFor_eq rfl (hcounter x hx hedge)]
    · simp [countsFor, hedge]
  rw [ht, hedges]
  split_ifs with hc
  · symm
    apply countP_eq_zero.mpr
    intro x hx
    simp [countsFor, hc, hfresh x hx]
  · exact h c

/-- A socket gets a new object with a fresh count. -/
lemma consistent_socket (hother : ∀ file ≠ .socket k, t.counterOf file = s.files.counterOf file)
    (hsocket : t.counterOf (.socket k) = some d) : Consistent { s with files := t } ↔
      ∀ x ∈ s.entries, x.interest.file = .socket k → ¬ isEdge x.interest.registered := by
  constructor
  · intro h' x hx hfile hedge
    have hd := (ht d _).mp (h' d)
    rw [if_pos rfl, eq_comm] at hd
    have hx' := countP_eq_zero.mp hd x hx
    simp [countsFor, hedge, hfile, hsocket] at hx'
  · intro hnone
    refine consistent_reset h ht hfresh fun x hx hedge => hother _ ?_
    exact fun hfile => hnone x hx hfile hedge

end

lemma forall₂_countP {s : Files} {xs ys : List Entry} (h : List.Forall₂ (Entry.Visited s) xs ys) :
    ys.countP (countsFor s c) = xs.countP (countsFor s c) := by
  induction h with
  | nil => rfl
  | cons hxy _ ih =>
    obtain ⟨i, hi, rfl⟩ := hxy
    rw [countP_cons, countP_cons, ih, countsFor_eq hi.same.2.1 (by rw [hi.same.1])]

/-! ## `epoll_ctl` -/

section Ctl

variable {s s' : Kernel} (h : s.Consistent) (hlinked : s.Linked)

include h hlinked

lemma edges_lt (c : Counter) : s.edges c < 2 ^ 32 := hlinked.bounded c _ (h c)

variable {ep : ℕ} {fd : ℤ}

variable {event : EpollEvent} {x : Entry}

omit hlinked in
lemma consistent_add {file : File} (hok : s.add ep fd file event = .ok s') :
    s'.Consistent ↔ (isEdge event.events → ∀ c, s.files.counterOf file = some c →
      s.edges c + 1 < 2 ^ 32) := by
  obtain ⟨hfiles, hperm⟩ := add_ok hok
  have hedges : ∀ d, s'.edges d =
      s.edges d + if isEdge event.events && decide (s.files.counterOf file = some d)
        then 1 else 0 := by
    intro d
    rw [edges, countsFor_sockets (sockets_notified hfiles), hperm.countP_eq, countP_cons]
    rfl
  rw [consistent_notified h hfiles fun d hd => by simp [hedges d, hd], forall_comm]
  refine forall_congr' fun d => ?_
  rw [hedges d]
  by_cases hedge : isEdge event.events
  · simp only [hedge, adjust, if_true, Bool.true_and, forall_true_left]
    refine imp_congr_right fun hd => ?_
    simp only [hd, decide_true, if_true]
    omega
  · simp [hedge]

omit h hlinked in
/-- The numbers of interests around one entry. -/
lemma edges_around {l₁ l₂ : List Entry} (hold : s.entries = l₁ ++ x :: l₂) (c : Counter) :
    s.edges c = (l₁ ++ l₂).countP (countsFor s.files c) + (countsFor s.files c x).toNat := by
  rw [edges, hold, countP_append, countP_cons, countP_append, add_assoc]
  cases countsFor s.files c x <;> rfl

omit h hlinked in
lemma countsFor_of_eq {f : Files} {c : Counter} {x : Entry}
    (hc : f.counterOf x.interest.file = some c) :
    countsFor f c x = isEdge x.interest.registered := by
  rw [countsFor, hc, decide_eq_true rfl, Bool.and_true]

omit h hlinked in
lemma countsFor_of_ne {f : Files} {c : Counter} {x : Entry}
    (hc : f.counterOf x.interest.file ≠ some c) : countsFor f c x = false := by
  rw [countsFor, decide_eq_false hc, Bool.and_false]

omit h in
/-- The stored mask of an interest is the registered one or was cleared. -/
lemma stored_edge (hx : x ∈ s.entries) :
    isEdge x.interest.events = isEdge x.interest.registered ∨
      isEdge x.interest.events = false := by
  obtain hstored | hstored := hlinked.stored x hx
  · exact .inl (congrArg isEdge hstored)
  · rw [hstored]
    exact .inr rfl

lemma consistent_modify (hok : s.modify ep fd event = .ok s') :
    s'.Consistent ↔ s.KeepsCounts (.modify ep fd event) := by
  obtain ⟨l₁, x, l₂, hfind, hold, hnew, hfiles⟩ := modify_ok hok
  have hafter : ∀ c, s'.edges c = (l₁ ++ l₂).countP (countsFor s.files c) +
      (countsFor s.files c (rearm event x)).toNat := by
    intro c
    rw [edges_around hnew, countsFor_sockets (sockets_notified hfiles)]
  have hstored := stored_edge hlinked (mem_of_find?_eq_some hfind)
  have hother : ∀ c, s.files.counterOf x.interest.file ≠ some c → s'.edges c = s.edges c := by
    intro c hc
    have hx : countsFor s.files c (rearm event x) = false := countsFor_of_ne hc
    rw [hafter, edges_around hold, hx, countsFor_of_ne hc]
  rw [consistent_notified h hfiles hother]
  simp only [KeepsCounts, hfind, some.injEq, forall_eq']
  refine forall₂_congr fun d hd => ?_
  have hlt := edges_lt h hlinked d
  have hold' := edges_around hold d
  have hnew' := hafter d
  have hx : countsFor s.files d (rearm event x) = isEdge event.events := countsFor_of_eq hd
  rw [countsFor_of_eq hd] at hold'
  rw [hx] at hnew'
  rw [hold'] at hlt ⊢
  rw [hnew']
  exact adjust_modify hstored hlt

lemma consistent_delete (hok : s.delete ep fd = .ok s') :
    s'.Consistent ↔ s.KeepsCounts (.delete ep fd) := by
  obtain ⟨l₁, x, l₂, hfind, hold, hnew, hfiles⟩ := delete_ok hok
  have hafter : ∀ c, s'.edges c = (l₁ ++ l₂).countP (countsFor s.files c) := by
    intro c
    rw [edges, hnew, countsFor_sockets (sockets_notified hfiles)]
  have hstored := stored_edge hlinked (mem_of_find?_eq_some hfind)
  have hother : ∀ c, s.files.counterOf x.interest.file ≠ some c → s'.edges c = s.edges c := by
    intro c hc
    rw [hafter, edges_around hold, countsFor_of_ne hc]
    rfl
  rw [consistent_notified h hfiles hother]
  simp only [KeepsCounts, hfind, some.injEq, forall_eq']
  refine forall₂_congr fun d hd => ?_
  have hlt := edges_lt h hlinked d
  have hold' := edges_around hold d
  rw [countsFor_of_eq hd, ← hafter d] at hold'
  rw [hold'] at hlt ⊢
  exact adjust_delete hstored hlt

end Ctl

lemma consistent_dropInstance (h : s.Consistent) (ep : ℕ) :
    (s.dropInstance ep).Consistent ↔ s.KeepsCounts (.dropInstance ep) := by
  have hsplit : ∀ c, s.edges c = (s.dropInstance ep).edges c +
      (s.entries.filter fun x => !(x.ep != ep)).countP (countsFor s.files c) := by
    intro c
    exact countP_eq_countP_filter_add s.entries _ fun x => x.ep != ep
  constructor
  · intro h' x hx hep hedge
    match hd : s.files.counterOf x.interest.file with
    | none => rfl
    | some d =>
      have hzero : (s.entries.filter fun x => !(x.ep != ep)).countP (countsFor s.files d) = 0 := by
        have heq := (h d).unique (h' d)
        have hd := hsplit d
        omega
      have hx' := countP_eq_zero.mp hzero x (mem_filter.mpr ⟨hx, by simp [hep]⟩)
      simp [countsFor, hedge, hd] at hx'
  · intro hnone c
    have hzero : (s.entries.filter fun x => !(x.ep != ep)).countP (countsFor s.files c) = 0 := by
      apply countP_eq_zero.mpr
      intro x hx
      obtain ⟨hmem, hep⟩ := mem_filter.mp hx
      by_cases hedge : isEdge x.interest.registered
      · simp [countsFor, hnone x hmem (by simpa using hep) hedge]
      · simp [countsFor, hedge]
    have hc := h c
    rw [hsplit c, hzero, add_zero] at hc
    exact hc

/-- No interest refers to what was not handed out. -/
lemma counterOf_ne_fresh (h : s.Handed)
    (hc : c = .pair s.files.nextPair ∨ c = .listener s.files.nextListener) :
    ∀ x ∈ s.entries, s.files.counterOf x.interest.file ≠ some c := by
  intro x hx hcounter
  match hfile : x.interest.file with
  | .stream k e =>
    rw [hfile] at hcounter
    cases hcounter
    obtain hc | hc := hc <;> cases hc
    exact lt_irrefl _ (h.streams x hx _ e hfile)
  | .socket k =>
    simp only [hfile, counterOf] at hcounter
    split at hcounter <;> cases hcounter
    · obtain hc | hc := hc <;> cases hc
      exact lt_irrefl _ (h.files.listeners _ _ ‹_›)
    · obtain hc | hc := hc <;> cases hc
      exact lt_irrefl _ (h.files.pairs _ _ _ ‹_›)
  | .pipeReader k | .pipeWriter k | .eventfd k | .other k =>
    rcases hc with rfl | rfl <;> simp [hfile, counterOf] at hcounter

lemma counterOf_setSocket {s : Files} {state : SocketState}
    (hsockets : t.sockets = update s.sockets k state) :
    ∀ file ≠ .socket k, t.counterOf file = s.counterOf file := by
  intro file hfile
  cases file with
  | socket j =>
    have hj : j ≠ k := fun h => hfile (h ▸ rfl)
    simp only [counterOf, hsockets, update_of_ne hj]
  | _ => rfl

lemma consistent_listen (h : s.Consistent) (hhanded : s.Handed) (k : ℕ) (backlog : ℤ) :
    (s.onFiles fun f => f.listen k backlog).Consistent ↔
      s.KeepsCounts (.listen k backlog) := by
  by_cases hbound : s.files.sockets k = .bound
  · have hsockets : (s.files.listen k backlog).sockets =
        update s.files.sockets k (.listening s.files.nextListener) := by
      simp only [Files.listen, hbound]
      rfl
    simp only [KeepsCounts, hbound, forall_true_left]
    refine consistent_socket h (listen_hasCount backlog hbound)
      (counterOf_ne_fresh hhanded (.inr rfl)) (counterOf_setSocket hsockets) ?_
    simp only [counterOf, hsockets, update_self]
  · have hsame : (s.onFiles fun f => f.listen k backlog) = s := by
      simp only [onFiles, listen_of_ne backlog hbound]
    rw [hsame]
    exact ⟨fun _ hb => absurd hb hbound, fun _ => h⟩

lemma consistent_connect (h : s.Consistent) (hhanded : s.Handed) (k listener : ℕ) :
    (s.onFiles fun f => f.connect k listener).Consistent ↔
      s.KeepsCounts (.connect k listener) := by
  match hroom : (s.files.listeners listener).enqueueConnection s.files.nextPair with
  | none =>
    have hsame : (s.onFiles fun f => f.connect k listener) = s := by
      simp only [onFiles, connect_none k hroom]
    rw [hsame]
    exact ⟨fun _ hsome => absurd hsome (by simp [hroom]), fun _ => h⟩
  | some l =>
    have hsome : ((s.files.listeners listener).enqueueConnection s.files.nextPair).isSome := by
      simp [hroom]
    have hsockets : (s.files.connect k listener).sockets =
        update s.files.sockets k (.connected s.files.nextPair .b) := by
      simp only [connect, hroom]
      rfl
    simp only [KeepsCounts, hsome, forall_true_left]
    refine consistent_socket h (connect_hasCount k hsome)
      (counterOf_ne_fresh hhanded (.inl rfl)) (counterOf_setSocket hsockets) ?_
    simp only [counterOf, hsockets, update_self]

lemma consistent_bind (h : s.Consistent) (k : ℕ) :
    (s.onFiles fun f => f.bind k).Consistent := by
  by_cases hcreated : s.files.sockets k = .created
  · have hsockets : (s.files.bind k).sockets = update s.files.sockets k .bound := by
      simp only [Files.bind, hcreated]
      rfl
    have hcounter : ∀ file, (s.files.bind k).counterOf file = s.files.counterOf file := by
      intro file
      by_cases hfile : file = .socket k
      · simp only [hfile, counterOf, hsockets, update_self, hcreated]
      · exact counterOf_setSocket hsockets file hfile
    have hcount : ∀ c n, (s.files.bind k).HasCount c n ↔ s.files.HasCount c n := by
      intro c n
      simp only [Files.bind, hcreated]
      exact .rfl
    intro c
    have hedges : (s.onFiles fun f => f.bind k).edges c = s.edges c := by
      apply countP_congr
      intro x _
      exact iff_of_eq (congrArg (· = true) (countsFor_eq rfl (hcounter _)))
    rw [hedges]
    exact (hcount c _).mpr (h c)
  · have hbind : s.files.bind k = s.files := by
      unfold Files.bind
      split
      · next hc => exact absurd hc hcreated
      · rfl
    rwa [show (s.onFiles fun f => f.bind k) = s by simp only [onFiles, hbind]]

/-- The step lemma: a step from a consistent state leads to a consistent state exactly
under the condition. -/
lemma consistent_step (h : s.Consistent) (hlinked : s.Linked) {e : Event}
    (hstep : s.step e = some s') : s'.Consistent ↔ s.KeepsCounts e := by
  cases e with
  | add ep fd file event =>
    simp only [Kernel.step] at hstep
    split at hstep
    · cases hstep
      by_cases hany : s.entries.any (Entry.hasKey ep fd) = true
      · have hsame : s.orSame (s.add ep fd file event) = s := by
          simp only [add, hany, if_true, orSame]
        rw [hsame]
        exact ⟨fun _ hnone => absurd hany (by simp [hnone]), fun _ => h⟩
      · have hok : s.add ep fd file event = .ok (s.orSame (s.add ep fd file event)) := by
          simp only [add, hany]
          rfl
        rw [consistent_add h hok]
        exact ⟨fun hc _ => hc, fun hc => hc (by simpa using hany)⟩
    · cases hstep
  | modify ep fd event =>
    cases hstep
    cases hr : s.modify ep fd event with
    | ok s' => exact consistent_modify h hlinked hr
    | error _ =>
      have hnone : s.entries.find? (Entry.hasKey ep fd) = none := by
        unfold modify at hr
        split at hr
        · assumption
        · cases hr
      exact ⟨fun _ x hx => absurd hx (by simp [hnone]), fun _ => h⟩
  | delete ep fd =>
    cases hstep
    cases hr : s.delete ep fd with
    | ok s' => exact consistent_delete h hlinked hr
    | error _ =>
      have hnone : s.entries.find? (Entry.hasKey ep fd) = none := by
        unfold delete at hr
        split at hr
        · assumption
        · cases hr
      exact ⟨fun _ x hx => absurd hx (by simp [hnone]), fun _ => h⟩
  | collect ep max room =>
    cases hstep
    refine iff_of_true (fun c => ?_) trivial
    have hedges : (s.collect ep max room).edges c = s.edges c :=
      forall₂_countP (collectReady_visited s.files ep max room 0 s.entries)
    rw [hedges]
    exact h c
  | dropInstance ep =>
    cases hstep
    exact consistent_dropInstance h ep
  | read file dst attempt =>
    obtain ⟨-, rfl⟩ := transfer_some hstep
    exact iff_of_true (h.sameWatchers (read_sameWatchers _ file dst attempt)) trivial
  | write file src attempt =>
    obtain ⟨-, rfl⟩ := transfer_some hstep
    exact iff_of_true (h.sameWatchers (write_sameWatchers _ file src attempt)) trivial
  | shutdown file how =>
    cases hstep
    exact iff_of_true (h.sameWatchers (shutdown_sameWatchers _ file how)) trivial
  | drop file =>
    cases hstep
    exact iff_of_true (h.sameWatchers (drop_sameWatchers _ file)) trivial
  | bind k =>
    cases hstep
    exact iff_of_true (consistent_bind h k) trivial
  | listen k backlog =>
    cases hstep
    exact consistent_listen h hlinked.handed k backlog
  | connect k listener =>
    simp only [Kernel.step] at hstep
    split at hstep
    · cases hstep
      exact consistent_connect h hlinked.handed k listener
    · cases hstep
  | accept k =>
    cases hstep
    exact iff_of_true (h.sameWatchers (accept_sameWatchers _ k)) trivial
  | socketpair dgram =>
    cases hstep
    refine iff_of_true (consistent_reset h (socketpair_hasCount _ dgram)
      (counterOf_ne_fresh hlinked.handed (.inl rfl)) fun x _ _ => ?_) trivial
    exact counterOf_sockets rfl _
  | setOther k status =>
    cases hstep
    refine iff_of_true (fun c => ?_) trivial
    exact h c

/-! ## Runs -/

section

variable (initval : ℕ → BitVec 32) (semaphore : ℕ → Bool) (others : ℕ → PollStatus)
include initval semaphore others

lemma boot_linked : (boot initval semaphore others).Linked := by
  refine ⟨boot_handed initval semaphore others, nofun, ?_⟩
  intro c n hn
  cases c with
  | pipe k | listener k =>
    have hzero : 0 = n := hn
    omega
  | pair k =>
    have hzero : 0 = n := hn .a
    omega

lemma boot_consistent : (boot initval semaphore others).Consistent := by
  intro c
  cases c with
  | pipe k | listener k => rfl
  | pair k => exact fun e => by cases e <;> rfl

end

/-- A step under the condition. -/
def CountsNext (s s' : Kernel) : Prop := ∃ e, s.step e = some s' ∧ s.KeepsCounts e

lemma consistent_linked_run {s₀ : Kernel} (hc : s₀.Consistent) (hl : s₀.Linked)
    (hrun : Relation.ReflTransGen CountsNext s₀ s) : s.Consistent ∧ s.Linked := by
  induction hrun with
  | refl => exact ⟨hc, hl⟩
  | tail _ hnext ih =>
    obtain ⟨e, hstep, hkeeps⟩ := hnext
    exact ⟨(consistent_step ih.1 ih.2 hstep).mpr hkeeps, ih.2.step hstep⟩

/-- In every run whose steps keep the condition every watcher count is the number of
edge-triggered interests, and the condition is exactly what the next step needs. -/
theorem watcherCount_run {initval : ℕ → BitVec 32} {semaphore : ℕ → Bool}
    {others : ℕ → PollStatus} {s : Kernel}
    (hrun : Relation.ReflTransGen CountsNext (boot initval semaphore others) s) :
    s.Consistent ∧ ∀ e s', s.step e = some s' → (s'.Consistent ↔ s.KeepsCounts e) := by
  obtain ⟨hc, hl⟩ := consistent_linked_run (boot_consistent initval semaphore others)
    (boot_linked initval semaphore others) hrun
  exact ⟨hc, fun e s' hstep => consistent_step hc hl hstep⟩

/-- Edge-triggered interests in both ends of a pipe, of which one is deleted. -/
theorem watcherCount_run_pipe : ∃ s,
    (boot (fun _ => 0) (fun _ => false) fun _ => .empty).run
      [.add 0 3 (.pipeReader 0) ⟨epollin ||| epollet, 3⟩,
        .add 0 4 (.pipeWriter 0) ⟨epollout ||| epollet, 4⟩, .delete 0 3] = some s ∧
    (s.files.pipes 0).etWatcherCount = 1 ∧ s.Consistent := by
  refine ⟨_, rfl, by decide +kernel, ?_⟩
  have hone : CountsNext (boot (fun _ => 0) (fun _ => false) fun _ => .empty) _ :=
    ⟨.add 0 3 (.pipeReader 0) ⟨epollin ||| epollet, 3⟩, rfl, fun _ _ c _ => by
      change 0 + 1 < 2 ^ 32
      norm_num⟩
  have hboth := (Relation.ReflTransGen.single hone).tail
    ⟨.add 0 4 (.pipeWriter 0) ⟨epollout ||| epollet, 4⟩, rfl, fun _ _ c hc => by
      cases hc
      decide +kernel⟩
  exact (watcherCount_run (hboth.tail ⟨.delete 0 3, rfl, fun x hx c _ => by
    cases hx
    rfl⟩)).1

/-- A one-shot report clears the mask of an edge-triggered interest, and its deletion
leaves the count behind. An interest that was added before the socket listened takes
one watcher away from the listener, whose count wraps. -/
theorem watcherCount_diverges :
    (∃ s, (boot (fun _ => 0) (fun _ => false) fun _ => .empty).run
      [.add 0 3 (.pipeWriter 0) ⟨epollout ||| epollet ||| epolloneshot, 3⟩,
        .collect 0 8 8, .delete 0 3] = some s ∧
      s.entries = [] ∧ (s.files.pipes 0).etWatcherCount = 1) ∧
    ∃ s, (boot (fun _ => 0) (fun _ => false) fun _ => .empty).run
      [.add 0 3 (.socket 0) ⟨epollin ||| epollet, 3⟩, .bind 0, .listen 0 1,
        .delete 0 3] = some s ∧
      s.entries = [] ∧ (s.files.listeners 0).etWatcherCount = 2 ^ 32 - 1 := by
  refine ⟨⟨_, rfl, ?_, ?_⟩, _, rfl, ?_, ?_⟩
  · rfl
  · decide +kernel
  · rfl
  · decide +kernel

end Kernel

end Kevlar.Watch
