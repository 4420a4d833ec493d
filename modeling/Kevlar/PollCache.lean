import Kevlar.FileViews

/-!
# The cached readiness of an interest

An interest may reuse the readiness it polled last while the file shows the generation
that it showed then. This is right as long as three things hold: a file that has no
watcher left is not the file of an interest with a cached readiness, a transfer on a
watched file is not cut off, and no generation wraps. The invariant ties each cache to
the generation and the readiness of its file.
-/
namespace Kevlar.Watch
open Files

/-! ## Valid caches -/

/-- The status that a cache stands for. -/
def Interest.cachedStatus (i : Interest) : PollStatus :=
  .fromBitsTruncate (i.cachedPollBits.setWidth 16)

/-- A cache is empty, or it belongs to a watched file and holds the readiness of the file
unless the generation has moved on. -/
def Interest.Valid (s : Files) (i : Interest) : Prop :=
  i.cachedPollGen ≠ 0 → s.watched i.file ∧ i.cachedPollGen ≤ s.generation i.file ∧
    (i.cachedPollGen = s.generation i.file → i.cachedStatus = s.poll i.file)

variable {s : Files} {i : Interest}

lemma pollCached_of_valid (h : i.Valid s) :
    (pollCached s i).1 = s.poll i.file := by
  unfold pollCached
  dsimp only
  split_ifs with hcache hgen
  · obtain ⟨-, hpoll⟩ := watched_of_pollGen hcache.1
    have hne : i.cachedPollGen ≠ 0 := hcache.2 ▸ hcache.1
    exact (h hne).2.2 (hcache.2.symm.trans hpoll)
  · rfl
  · rfl

lemma pollCached_valid (h : i.Valid s) :
    (pollCached s i).2.Valid s := by
  unfold pollCached
  dsimp only
  split_ifs with hcache hgen
  · exact h
  · obtain ⟨hwatched, hpoll⟩ := watched_of_pollGen hgen
    intro _
    refine ⟨hwatched, hpoll.le, fun _ => ?_⟩
    exact PollStatus.fromBitsTruncate_signExtend _
  · exact h

lemma checkInterest_valid (h : i.Valid s) :
    (checkInterest s i).2.Valid s := by
  unfold checkInterest
  dsimp only
  split_ifs <;> exact h

lemma examine_valid (h : i.Valid s) : (examine s i).2.Valid s := by
  have hcheck := checkInterest_valid h
  unfold examine
  match hc : checkInterest s i with
  | (none, j) =>
    rw [hc] at hcheck
    exact hcheck
  | (some ev, j) =>
    rw [hc] at hcheck
    exact pollCached_valid hcheck

lemma disarm_valid (ev : BitVec 32) (h : i.Valid s) :
    (disarm ev i).Valid s := by
  unfold disarm
  split_ifs <;> exact h

lemma Visited.valid {j : Interest} (h : Visited s i j) (hi : i.Valid s) :
    j.Valid s := by
  cases h with
  | skipped => exact hi
  | examined => exact examine_valid hi
  | reported ev => exact disarm_valid ev (examine_valid hi)

lemma collectReady_valid (ep max room count : ℕ) {entries : List Entry}
    (h : ∀ x ∈ entries, x.interest.Valid s) :
    ∀ y ∈ (collectReady s ep max room count entries).1, y.interest.Valid s := by
  intro y hy
  obtain ⟨x, hx, hxy⟩ := exists_visited (collectReady_visited s ep max room count entries) y hy
  exact hxy.valid (h x hx)

lemma Interest.Valid.later {t : Files} (h : i.Valid s) (hlater : s.Later t i.file) :
    i.Valid t := by
  intro hne
  obtain ⟨hwatched, hle, hcached⟩ := h hne
  obtain ⟨hwatched', hle', hpoll⟩ := hlater hwatched
  refine ⟨hwatched', hle.trans hle', fun hgen => ?_⟩
  have hsame : t.generation i.file = s.generation i.file := by omega
  rw [hcached (hgen.trans hsame), hpoll hsame]

lemma Interest.Valid.sameState {t : Files} (h : i.Valid s) (hsame : s.SameState t)
    (hwatched : i.cachedPollGen ≠ 0 → t.watched i.file) : i.Valid t := by
  intro hne
  obtain ⟨-, hle, hcached⟩ := h hne
  obtain ⟨hgen, hpoll⟩ := hsame.view i.file
  rw [hgen, hpoll]
  exact ⟨hwatched hne, hle, hcached⟩

/-! ## Runs -/

namespace Kernel

/-- No file without watchers has an interest that caches its readiness. -/
def NoneOrphaned (s : Kernel) : Prop :=
  ∀ x ∈ s.entries, x.interest.cachedPollGen ≠ 0 → s.files.watched x.interest.file

/-- The condition on a step: an `epoll_ctl` or a `connect` leaves no orphaned cache, a
transfer on a watched file is neither cut off nor loses a message, and the generations
stay below half of their range. -/
def KeepsCaches (s : Kernel) (e : Event) (s' : Kernel) : Prop :=
  s'.files.Young ∧
  match e with
  | .add _ _ _ _ => s'.NoneOrphaned
  | .modify _ _ _ => s'.NoneOrphaned
  | .delete _ _ => s'.NoneOrphaned
  | .connect _ _ => s'.NoneOrphaned
  | .read file dst attempt => s.files.watched file →
      ¬ s.files.Cut file attempt (Files.read file dst attempt s.files).1 ∧
      ¬ s.files.Lost file (Files.read file dst attempt s.files).1
  | .write file src attempt => s.files.watched file →
      ¬ s.files.Cut file attempt (Files.write file src attempt s.files).1
  | _ => True

/-- Every cache is valid. -/
structure Cached (s : Kernel) : Prop where
  handed : s.Handed
  young : s.files.Young
  even : s.files.Even
  valid : ∀ x ∈ s.entries, x.interest.Valid s.files

variable {s : Kernel}

lemma Cached.announces (h : s.Cached) {t : Files} (ha : s.files.Announces t)
    (hsame : s.files.SameWatchers t) (hyoung : t.Young) : Cached { s with files := t } :=
  ⟨h.handed.sameWatchers hsame, hyoung, hsame.even h.even, fun x hx =>
    (h.valid x hx).later (ha.later h.even hyoung _)⟩

/-- The caches after an `epoll_ctl`: each is empty or was there before. -/
lemma Cached.ctl {s' : Kernel} (h : s.Cached) (hctl : s.Ctl s') (hyoung : s'.files.Young)
    (horphans : s'.NoneOrphaned) : s'.Cached := by
  have hfiles : s.files.SameState s'.files ∧ s'.files.Even := by
    obtain hf | ⟨file, added, hf⟩ := hctl.files
    · rw [hf]
      exact ⟨.refl _, h.even⟩
    · rw [hf]
      exact ⟨notifyEpollEt_sameState _ _ _, notifyEpollEt_even h.even _ _⟩
  refine ⟨h.handed.ctl hctl, hyoung, hfiles.2, fun x hx hne => ?_⟩
  obtain hold | hnew := hctl.entries x hx
  · exact (h.valid x hold).sameState hfiles.1 (horphans x hx) hne
  · exact absurd hnew.2.1 hne

lemma Cached.later (h : s.Cached) {f : Files → Files} (hhanded : (s.onFiles f).Handed)
    (hyoung : (f s.files).Young) (heven : (f s.files).Even)
    (hlater : ∀ x ∈ s.entries, s.files.Later (f s.files) x.interest.file) :
    (s.onFiles f).Cached :=
  ⟨hhanded, hyoung, heven, fun x hx => (h.valid x hx).later (hlater x hx)⟩

/-- The step lemma: under the condition a step keeps all caches valid. -/
lemma Cached.step {s s' : Kernel} (h : s.Cached) {e : Event} (hstep : s.step e = some s')
    (hkeeps : KeepsCaches s e s') : s'.Cached := by
  have hhanded := h.handed.step hstep
  obtain ⟨hyoung, hcond⟩ := hkeeps
  cases e with
  | add ep fd file event =>
    simp only [Kernel.step] at hstep
    split at hstep
    · cases hstep
      exact h.ctl (ctl_add ‹_›) hyoung hcond
    · cases hstep
  | modify ep fd event =>
    cases hstep
    exact h.ctl ctl_modify hyoung hcond
  | delete ep fd =>
    cases hstep
    exact h.ctl ctl_delete hyoung hcond
  | collect ep max room =>
    cases hstep
    exact ⟨hhanded, hyoung, h.even, collectReady_valid ep max room 0 h.valid⟩
  | dropInstance ep =>
    cases hstep
    exact ⟨hhanded, hyoung, h.even, fun x hx => h.valid x (List.mem_of_mem_filter hx)⟩
  | read file dst attempt =>
    obtain ⟨hundef, rfl⟩ := transfer_some hstep
    exact h.announces (read_announces h.young hundef (fun hw => (hcond hw).1)
      fun hw => (hcond hw).2) (read_sameWatchers _ file dst attempt) hyoung
  | write file src attempt =>
    obtain ⟨hundef, rfl⟩ := transfer_some hstep
    exact h.announces (write_announces h.young hundef hcond)
      (write_sameWatchers _ file src attempt) hyoung
  | shutdown file how =>
    cases hstep
    exact h.announces (shutdown_announces h.young how) (shutdown_sameWatchers _ file how) hyoung
  | drop file =>
    cases hstep
    exact h.announces (drop_announces h.young) (drop_sameWatchers _ file) hyoung
  | bind k =>
    cases hstep
    refine h.later hhanded hyoung ?_ fun x hx =>
      Files.bind_later h.handed.files (h.handed.streams x hx) k
    unfold Files.bind
    split <;> exact h.even
  | listen k backlog =>
    cases hstep
    refine h.later hhanded hyoung ?_ fun x hx =>
      listen_later h.handed.files (h.handed.streams x hx) k backlog
    unfold Files.listen
    split <;> exact h.even
  | connect k listener =>
    simp only [Kernel.step] at hstep
    split at hstep
    · cases hstep
      refine ⟨hhanded, hyoung, connect_even h.even k listener, fun x hx => ?_⟩
      by_cases hfile : x.interest.file = .socket k
      · obtain hsame | hunwatched := s.files.connect_unwatched k listener
        · rw [show (s.onFiles fun f => f.connect k listener).files = s.files from hsame]
          exact h.valid x hx
        · intro hne
          exact absurd (hfile ▸ hcond x hx hne) hunwatched
      · exact (h.valid x hx).later (connect_later h.handed.files (h.handed.streams x hx)
          h.even h.young k listener hyoung hfile)
    · cases hstep
  | accept k =>
    cases hstep
    exact h.announces (accept_announces h.young k) (accept_sameWatchers _ k) hyoung
  | socketpair dgram =>
    cases hstep
    exact h.later hhanded hyoung (even_setPair h.even rfl) fun x hx =>
      socketpair_later h.handed.files (h.handed.streams x hx) dgram
  | setOther k status =>
    cases hstep
    refine h.later hhanded hyoung h.even fun x _ => Files.SameAt.later ?_
    cases x.interest.file with
    | socket j =>
      refine ⟨rfl, ?_⟩
      split <;> trivial
    | other j => trivial
    | _ => rfl

lemma boot_cached (initval : ℕ → BitVec 32) (semaphore : ℕ → Bool) (others : ℕ → PollStatus) :
    (boot initval semaphore others).Cached where
  handed := boot_handed initval semaphore others
  young := by
    refine ⟨fun k => ?_, fun k => ?_, fun k e => ?_, fun k => ?_⟩
    · exact Nat.one_lt_two_pow (by decide)
    · exact Nat.one_lt_two_pow (by decide)
    · cases e <;> exact Nat.one_lt_two_pow (by decide)
    · exact Nat.one_lt_two_pow (by decide)
  even := fun _ => rfl
  valid := nofun

/-- A step under the condition. -/
def KeepsNext (s s' : Kernel) : Prop := ∃ e, s.step e = some s' ∧ KeepsCaches s e s'

lemma cached_run {s₀ : Kernel} (h₀ : s₀.Cached) (hrun : Relation.ReflTransGen KeepsNext s₀ s) :
    s.Cached := by
  induction hrun with
  | refl => exact h₀
  | tail _ hnext ih =>
    obtain ⟨e, hstep, hkeeps⟩ := hnext
    exact ih.step hstep hkeeps

/-- In every run whose steps keep the condition, the cached readiness of every interest
is the readiness that polling the file returns, in every state that is reached. -/
theorem pollCached_eq_poll {initval : ℕ → BitVec 32} {semaphore : ℕ → Bool}
    {others : ℕ → PollStatus} {s : Kernel}
    (hrun : Relation.ReflTransGen KeepsNext (boot initval semaphore others) s) :
    ∀ x ∈ s.entries, (pollCached s.files x.interest).1 = s.files.poll x.interest.file :=
  fun x hx => pollCached_of_valid
    ((cached_run (boot_cached initval semaphore others) hrun).valid x hx)

/-- The kernel before anything has happened. -/
def idle : Kernel := boot (fun _ => 0) (fun _ => false) fun _ => .empty

/-- A level-triggered interest in the read end and an edge-triggered one in the write end
of a pipe, and one pass over them. -/
def twoInterests : List Event :=
  [.add 0 3 (.pipeReader 0) ⟨epollin, 3⟩,
    .add 0 4 (.pipeWriter 0) ⟨epollout ||| epollet, 4⟩,
    .collect 0 8 8]

/-- The condition is met by a run that fills a cache. -/
theorem pollCached_eq_poll_two : ∃ s, idle.run twoInterests = some s ∧
    (∃ x ∈ s.entries, x.fd = 3 ∧ x.interest.cachedPollGen = 1) ∧
    ∀ x ∈ s.entries, (pollCached s.files x.interest).1 = s.files.poll x.interest.file := by
  have hyoung : idle.files.Young := (boot_cached _ _ _).young
  have hyoung' : (idle.files.notifyEpollEt (.pipeWriter 0) true).Young :=
    (notifyEpollEt_sameState _ _ _).young hyoung
  let s₁ := idle.orSame (idle.add 0 3 (.pipeReader 0) ⟨epollin, 3⟩)
  let s₂ := s₁.orSame (s₁.add 0 4 (.pipeWriter 0) ⟨epollout ||| epollet, 4⟩)
  have hempty₁ : ∀ x ∈ s₁.entries, x.interest.cachedPollGen = 0 := by decide +kernel
  have hempty₂ : ∀ x ∈ s₂.entries, x.interest.cachedPollGen = 0 := by decide +kernel
  have h₁ : KeepsNext idle s₁ :=
    ⟨.add 0 3 (.pipeReader 0) ⟨epollin, 3⟩, rfl, hyoung, fun x hx hne =>
      absurd (hempty₁ x hx) hne⟩
  have h₂ : KeepsNext s₁ s₂ :=
    ⟨.add 0 4 (.pipeWriter 0) ⟨epollout ||| epollet, 4⟩, rfl, hyoung', fun x hx hne =>
      absurd (hempty₂ x hx) hne⟩
  have h₃ : KeepsNext s₂ (s₂.collect 0 8 8) := ⟨.collect 0 8 8, rfl, hyoung', trivial⟩
  have hfilled : ∃ x ∈ (s₂.collect 0 8 8).entries, x.fd = 3 ∧ x.interest.cachedPollGen = 1 := by
    decide +kernel
  refine ⟨s₂.collect 0 8 8, rfl, hfilled, ?_⟩
  exact pollCached_eq_poll (((Relation.ReflTransGen.single h₁).tail h₂).tail h₃)

/-- Without a watcher the write does not move the generation, and the next watcher brings
the cached readiness back. -/
theorem pollCached_stale :
    ∃ s, idle.run (twoInterests ++
      [.delete 0 4,
        .write (.pipeWriter 0) ⟨some 0x1000, [65]⟩ (.first true),
        .add 0 4 (.pipeWriter 0) ⟨epollout ||| epollet, 4⟩]) = some s ∧
    ∃ x ∈ s.entries, x.fd = 3 ∧ (pollCached s.files x.interest).1 = .empty ∧
      s.files.poll x.interest.file = .pollin := by
  refine ⟨_, rfl, _, List.mem_cons_self, rfl, ?_, ?_⟩
  · decide +kernel
  · decide +kernel

end Kernel

end Kevlar.Watch
