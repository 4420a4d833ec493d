import Kevlar.EpollInstances
import Kevlar.FileWatchers

/-!
# What the steps of the system change

The three forms of `epoll_ctl` change one entry of the list of interests, and the
watchers of the file of that entry. All other steps leave the list alone or visit its
entries one by one. No file is referred to before it is handed out.
-/
namespace Kevlar.Watch
open Files Function List

/-! ## One entry -/

lemma perm_insertEntry (x : Entry) (entries : List Entry) :
    (insertEntry x entries).Perm (x :: entries) := by
  induction entries with
  | nil => exact .refl _
  | cons y ys ih =>
    unfold insertEntry
    split_ifs
    · exact .refl _
    · exact (ih.cons y).trans (.swap x y ys)

/-- The entry that a search finds, replaced and erased. -/
lemma find_split {p : Entry → Bool} (f : Entry → Entry) {entries : List Entry} {x : Entry}
    (h : entries.find? p = some x) :
    ∃ l₁ l₂, entries = l₁ ++ x :: l₂ ∧ entries.eraseP p = l₁ ++ l₂ ∧
      (entries.replaceF fun y => if p y then some (f y) else none) = l₁ ++ f x :: l₂ := by
  induction entries with
  | nil => cases h
  | cons y ys ih =>
    by_cases hy : p y = true
    · rw [find?_cons_of_pos hy] at h
      cases h
      exact ⟨[], ys, rfl, by simp [hy], by simp [replaceF, hy]⟩
    · rw [find?_cons_of_neg hy] at h
      obtain ⟨l₁, l₂, hsplit, herase, hreplace⟩ := ih h
      refine ⟨y :: l₁, l₂, by rw [hsplit]; rfl, ?_, ?_⟩
      · rw [eraseP_cons_of_neg hy, herase]
        rfl
      · simp only [replaceF, hy, Bool.false_eq_true, if_false, hreplace]
        rfl

namespace Kernel

variable {s s' : Kernel} {ep : ℕ} {fd : ℤ} {event : EpollEvent}

/-- The entry of a new interest. -/
def newEntry (ep : ℕ) (fd : ℤ) (file : File) (event : EpollEvent) : Entry :=
  ⟨ep, fd, ⟨file, event.events, event.data, 0, 0, 0, event.events⟩⟩

lemma add_ok {file : File} (h : s.add ep fd file event = .ok s') :
    s'.files = (if isEdge event.events then s.files.notifyEpollEt file true else s.files) ∧
      s'.entries.Perm (newEntry ep fd file event :: s.entries) := by
  unfold add at h
  split at h
  · cases h
  · cases h
    exact ⟨rfl, perm_insertEntry _ _⟩

lemma modify_ok (h : s.modify ep fd event = .ok s') :
    ∃ l₁ x l₂, s.entries.find? (Entry.hasKey ep fd) = some x ∧ s.entries = l₁ ++ x :: l₂ ∧
      s'.entries = l₁ ++ rearm event x :: l₂ ∧
      s'.files = if isEdge x.interest.events ≠ isEdge event.events then
        s.files.notifyEpollEt x.interest.file (isEdge event.events) else s.files := by
  unfold modify at h
  split at h
  · cases h
  · next x hfind =>
    cases h
    obtain ⟨l₁, l₂, hsplit, -, hreplace⟩ := find_split (rearm event) hfind
    exact ⟨l₁, x, l₂, hfind, hsplit, hreplace, rfl⟩

lemma delete_ok (h : s.delete ep fd = .ok s') :
    ∃ l₁ x l₂, s.entries.find? (Entry.hasKey ep fd) = some x ∧ s.entries = l₁ ++ x :: l₂ ∧
      s'.entries = l₁ ++ l₂ ∧ s'.files = if isEdge x.interest.events then
        s.files.notifyEpollEt x.interest.file false else s.files := by
  unfold delete at h
  split at h
  · cases h
  · next x hfind =>
    cases h
    obtain ⟨l₁, l₂, hsplit, herase, -⟩ := find_split id hfind
    exact ⟨l₁, x, l₂, hfind, hsplit, herase, rfl⟩

lemma transfer_some {x : Fallible IoError Files ℕ} (h : s.transfer x = some s') :
    (x s.files).1 ≠ .error .undefined ∧ s' = { s with files := (x s.files).2 } := by
  unfold transfer at h
  split at h
  · cases h
  · next hundef =>
    cases h
    exact ⟨hundef, rfl⟩

/-- What `epoll_ctl` leaves: a file may have been told of its watchers, and each entry was
there before or is new or rearmed, with a file that is there. -/
structure Ctl (s s' : Kernel) : Prop where
  files : s'.files = s.files ∨ ∃ file added, s'.files = s.files.notifyEpollEt file added
  entries : ∀ x ∈ s'.entries, x ∈ s.entries ∨
    x.interest.events = x.interest.registered ∧ x.interest.cachedPollGen = 0 ∧
      (s.files.has x.interest.file = true ∨ ∃ y ∈ s.entries, y.interest.file = x.interest.file)

lemma ctl_orSame {r : Except CtlError Kernel} (h : ∀ s', r = .ok s' → s.Ctl s') :
    s.Ctl (s.orSame r) := by
  match r with
  | .ok s' => exact h s' rfl
  | .error _ => exact ⟨.inl rfl, fun _ => .inl⟩

lemma ctl_add {file : File} (hhas : s.files.has file = true) :
    s.Ctl (s.orSame (s.add ep fd file event)) := by
  refine ctl_orSame fun s' hok => ?_
  obtain ⟨hfiles, hperm⟩ := add_ok hok
  refine ⟨hfiles ▸ (ite_eq_or_eq _ _ _).symm.imp_right fun h => ⟨_, _, h⟩, fun x hx => ?_⟩
  obtain rfl | hx := mem_cons.mp (hperm.mem_iff.mp hx)
  · exact .inr ⟨rfl, rfl, .inl hhas⟩
  · exact .inl hx

lemma ctl_modify : s.Ctl (s.orSame (s.modify ep fd event)) := by
  refine ctl_orSame fun s' hok => ?_
  obtain ⟨l₁, x, l₂, -, hold, hnew, hfiles⟩ := modify_ok hok
  refine ⟨hfiles ▸ (ite_eq_or_eq _ _ _).symm.imp_right fun h => ⟨_, _, h⟩, fun y hy => ?_⟩
  rw [hnew] at hy
  rw [hold]
  simp only [mem_append, mem_cons] at hy ⊢
  obtain hy | rfl | hy := hy
  · exact .inl (.inl hy)
  · exact .inr ⟨rfl, rfl, .inr ⟨x, .inr (.inl rfl), rfl⟩⟩
  · exact .inl (.inr (.inr hy))

lemma ctl_delete : s.Ctl (s.orSame (s.delete ep fd)) := by
  refine ctl_orSame fun s' hok => ?_
  obtain ⟨l₁, x, l₂, -, hold, hnew, hfiles⟩ := delete_ok hok
  refine ⟨hfiles ▸ (ite_eq_or_eq _ _ _).symm.imp_right fun h => ⟨_, _, h⟩, fun y hy => .inl ?_⟩
  rw [hnew] at hy
  rw [hold]
  simp only [mem_append, mem_cons] at hy ⊢
  tauto

/-- What a step does. -/
inductive Effect (s : Kernel) : Kernel → Prop
  | ctl {s' : Kernel} (h : s.Ctl s') : Effect s s'
  | sameWatchers {t : Files} (h : s.files.SameWatchers t) : Effect s { s with files := t }
  | collect (ep max room : ℕ) : Effect s (s.collect ep max room)
  | dropInstance (ep : ℕ) : Effect s (s.dropInstance ep)
  | bind (k : ℕ) : Effect s (s.onFiles fun f => f.bind k)
  | listen (k : ℕ) (backlog : ℤ) : Effect s (s.onFiles fun f => f.listen k backlog)
  | connect (k listener : ℕ) : Effect s (s.onFiles fun f => f.connect k listener)
  | socketpair (dgram : Bool) : Effect s (s.onFiles fun f => f.socketpair dgram)
  | setOther (k : ℕ) (status : PollStatus) :
    Effect s (s.onFiles fun f => { f with others := update f.others k status })

lemma step_effect {e : Event} (hstep : s.step e = some s') : s.Effect s' := by
  cases e with
  | add ep fd file event =>
    simp only [Kernel.step] at hstep
    split at hstep
    · cases hstep
      exact .ctl (ctl_add ‹_›)
    · cases hstep
  | modify ep fd event =>
    cases hstep
    exact .ctl ctl_modify
  | delete ep fd =>
    cases hstep
    exact .ctl ctl_delete
  | collect ep max room =>
    cases hstep
    exact .collect ep max room
  | dropInstance ep =>
    cases hstep
    exact .dropInstance ep
  | read file dst attempt =>
    obtain ⟨-, rfl⟩ := transfer_some hstep
    exact .sameWatchers (read_sameWatchers _ file dst attempt)
  | write file src attempt =>
    obtain ⟨-, rfl⟩ := transfer_some hstep
    exact .sameWatchers (write_sameWatchers _ file src attempt)
  | shutdown file how =>
    cases hstep
    exact .sameWatchers (shutdown_sameWatchers _ file how)
  | drop file =>
    cases hstep
    exact .sameWatchers (drop_sameWatchers _ file)
  | bind k =>
    cases hstep
    exact .bind k
  | listen k backlog =>
    cases hstep
    exact .listen k backlog
  | connect k listener =>
    simp only [Kernel.step] at hstep
    split at hstep
    · cases hstep
      exact .connect k listener
    · cases hstep
  | accept k =>
    cases hstep
    exact .sameWatchers (accept_sameWatchers _ k)
  | socketpair dgram =>
    cases hstep
    exact .socketpair dgram
  | setOther k status =>
    cases hstep
    exact .setOther k status

end Kernel

/-! ## Handed-out files -/

/-- Everything that is referred to was handed out. -/
structure Files.Handed (s : Files) : Prop where
  pairs : ∀ j k e, s.sockets j = .connected k e → k < s.nextPair
  listeners : ∀ j l, s.sockets j = .listening l → l < s.nextListener

structure Kernel.Handed (s : Kernel) : Prop where
  files : s.files.Handed
  streams : ∀ x ∈ s.entries, ∀ k e, x.interest.file = .stream k e → k < s.files.nextPair

namespace Files

variable {s t : Files}

lemma Handed.same (h : s.Handed) (hsame : s.SameWatchers t) : t.Handed := by
  constructor
  · rw [hsame.sockets, hsame.nextPair]
    exact h.pairs
  · rw [hsame.sockets, hsame.nextListener]
    exact h.listeners

/-- A step that hands out files and gives one socket a new state. -/
lemma Handed.setSocket (h : s.Handed) {k : ℕ} {state : SocketState}
    (hsockets : t.sockets = update s.sockets k state) (hpair : s.nextPair ≤ t.nextPair)
    (hlistener : s.nextListener ≤ t.nextListener)
    (hstate : (∀ j e, state = .connected j e → j < t.nextPair) ∧
      ∀ l, state = .listening l → l < t.nextListener) : t.Handed := by
  constructor
  · intro j i e hj
    rw [hsockets] at hj
    by_cases hjk : j = k
    · rw [hjk, update_self] at hj
      exact hstate.1 i e hj
    · rw [update_of_ne hjk] at hj
      exact (h.pairs j i e hj).trans_le hpair
  · intro j l hj
    rw [hsockets] at hj
    by_cases hjk : j = k
    · rw [hjk, update_self] at hj
      exact hstate.2 l hj
    · rw [update_of_ne hjk] at hj
      exact (h.listeners j l hj).trans_le hlistener

lemma bind_handed (h : s.Handed) (k : ℕ) : (s.bind k).Handed := by
  unfold bind
  split
  · exact h.setSocket rfl le_rfl le_rfl ⟨nofun, nofun⟩
  · exact h

lemma listen_handed (h : s.Handed) (k : ℕ) (backlog : ℤ) :
    (s.listen k backlog).Handed := by
  unfold Files.listen
  split
  · refine h.setSocket rfl le_rfl (Nat.le_succ _) ⟨nofun, ?_⟩
    intro l hl
    cases hl
    exact Nat.lt_succ_self _
  · exact h

lemma connect_handed (h : s.Handed) (k listener : ℕ) :
    (s.connect k listener).Handed := by
  unfold connect
  split
  · exact h
  · refine h.setSocket rfl (Nat.le_succ _) le_rfl ⟨?_, nofun⟩
    intro j e hj
    cases hj
    exact Nat.lt_succ_self _

lemma notifyEpollEt_next (s : Files) (file : File) (added : Bool) :
    (s.notifyEpollEt file added).sockets = s.sockets ∧
      (s.notifyEpollEt file added).nextPair = s.nextPair ∧
      (s.notifyEpollEt file added).nextListener = s.nextListener := by
  unfold notifyEpollEt
  cases file with
  | socket k =>
    dsimp only
    split <;> exact ⟨rfl, rfl, rfl⟩
  | _ => exact ⟨rfl, rfl, rfl⟩

lemma notifyEpollEt_handed (h : s.Handed) (file : File) (added : Bool) :
    (s.notifyEpollEt file added).Handed := by
  obtain ⟨hsockets, hpair, hlistener⟩ := s.notifyEpollEt_next file added
  constructor
  · rw [hsockets, hpair]
    exact h.pairs
  · rw [hsockets, hlistener]
    exact h.listeners

end Files

lemma checkInterest_same (s : Files) (i : Interest) :
    (checkInterest s i).2.file = i.file ∧ (checkInterest s i).2.registered = i.registered ∧
      (checkInterest s i).2.events = i.events := by
  unfold checkInterest
  dsimp only
  split_ifs <;> exact ⟨rfl, rfl, rfl⟩

lemma pollCached_same (s : Files) (i : Interest) :
    (pollCached s i).2.file = i.file ∧ (pollCached s i).2.registered = i.registered ∧
      (pollCached s i).2.events = i.events := by
  unfold pollCached
  dsimp only
  split_ifs <;> exact ⟨rfl, rfl, rfl⟩

lemma examine_same (s : Files) (i : Interest) :
    (examine s i).2.file = i.file ∧ (examine s i).2.registered = i.registered ∧
      (examine s i).2.events = i.events := by
  have hcheck := checkInterest_same s i
  unfold examine
  match hc : checkInterest s i with
  | (none, j) =>
    rw [hc] at hcheck
    exact hcheck
  | (some ev, j) =>
    rw [hc] at hcheck
    have hpoll := pollCached_same s j
    exact ⟨hpoll.1.trans hcheck.1, hpoll.2.1.trans hcheck.2.1, hpoll.2.2.trans hcheck.2.2⟩

variable {s : Files}

/-- A visit keeps what the interest was registered for; it may clear the stored mask. -/
lemma Visited.same {i j : Interest} (h : Visited s i j) :
    j.file = i.file ∧ j.registered = i.registered ∧ (j.events = i.events ∨ j.events = 0) := by
  have hexamine := examine_same s i
  cases h with
  | skipped => exact ⟨rfl, rfl, .inl rfl⟩
  | examined => exact ⟨hexamine.1, hexamine.2.1, .inl hexamine.2.2⟩
  | reported ev =>
    unfold disarm
    split_ifs
    · exact ⟨hexamine.1, hexamine.2.1, .inr rfl⟩
    · exact ⟨hexamine.1, hexamine.2.1, .inl hexamine.2.2⟩

/-- The entries of a list whose entries were visited. -/
lemma exists_visited {xs ys : List Entry} (h : List.Forall₂ (Entry.Visited s) xs ys) :
    ∀ y ∈ ys, ∃ x ∈ xs, Visited s x.interest y.interest := by
  induction h with
  | nil => exact nofun
  | cons hxy _ ih =>
    obtain ⟨i, hi, rfl⟩ := hxy
    refine forall_mem_cons.mpr ⟨⟨_, mem_cons_self, hi⟩, fun y hy => ?_⟩
    obtain ⟨x, hx, hr⟩ := ih y hy
    exact ⟨x, mem_cons_of_mem _ hx, hr⟩

namespace Kernel

variable {s : Kernel}

lemma Handed.onFiles (h : s.Handed) {f : Files → Files} (hf : (f s.files).Handed)
    (hpair : s.files.nextPair ≤ (f s.files).nextPair) : (s.onFiles f).Handed :=
  ⟨hf, fun x hx k e hk => (h.streams x hx k e hk).trans_le hpair⟩

lemma Handed.sameWatchers (h : s.Handed) {t : Files} (hsame : s.files.SameWatchers t) :
    Kernel.Handed { s with files := t } :=
  ⟨h.files.same hsame, fun x hx k e hk =>
    (h.streams x hx k e hk).trans_eq hsame.nextPair.symm⟩

lemma Handed.ctl {s' : Kernel} (h : s.Handed) (hctl : s.Ctl s') : s'.Handed := by
  have hfiles : s'.files.Handed ∧ s'.files.nextPair = s.files.nextPair := by
    obtain hf | ⟨file, added, hf⟩ := hctl.files
    · rw [hf]
      exact ⟨h.files, rfl⟩
    · rw [hf]
      exact ⟨notifyEpollEt_handed h.files file added,
        (s.files.notifyEpollEt_next file added).2.1⟩
  refine ⟨hfiles.1, fun x hx k e hk => hfiles.2 ▸ ?_⟩
  obtain hx | ⟨-, -, hhas | ⟨y, hy, hfile⟩⟩ := hctl.entries x hx
  · exact h.streams x hx k e hk
  · rw [hk] at hhas
    exact of_decide_eq_true hhas
  · exact h.streams y hy k e (hfile.trans hk)

lemma Handed.step {s s' : Kernel} (h : s.Handed) {e : Event} (hstep : s.step e = some s') :
    s'.Handed := by
  cases step_effect hstep with
  | ctl hctl => exact h.ctl hctl
  | sameWatchers hsame => exact h.sameWatchers hsame
  | collect ep max room =>
    refine ⟨h.files, fun y hy k e hk => ?_⟩
    obtain ⟨x, hx, hxy⟩ :=
      exists_visited (collectReady_visited s.files ep max room 0 s.entries) y hy
    exact h.streams x hx k e (hxy.same.1.symm.trans hk)
  | dropInstance ep => exact ⟨h.files, fun x hx => h.streams x (mem_of_mem_filter hx)⟩
  | bind k =>
    refine h.onFiles (Files.bind_handed h.files k) ?_
    unfold Files.bind
    split <;> exact le_rfl
  | listen k backlog =>
    refine h.onFiles (listen_handed h.files k backlog) ?_
    unfold Files.listen
    split <;> exact le_rfl
  | connect k listener =>
    refine h.onFiles (connect_handed h.files k listener) ?_
    unfold connect
    split
    · exact le_rfl
    · exact Nat.le_succ _
  | socketpair dgram =>
    refine h.onFiles ⟨fun j k e hj => ?_, h.files.listeners⟩ (Nat.le_succ _)
    exact (h.files.pairs j k e hj).trans_le (Nat.le_succ _)
  | setOther k status => exact h.onFiles ⟨h.files.pairs, h.files.listeners⟩ le_rfl

lemma boot_handed (initval : ℕ → BitVec 32) (semaphore : ℕ → Bool) (others : ℕ → PollStatus) :
    (boot initval semaphore others).Handed :=
  ⟨⟨nofun, nofun⟩,
    nofun⟩

end Kernel

end Kevlar.Watch
