import Kevlar.WatchedFiles

/-!
# The descriptor sets of select

A check clears the bits of a set whose files are not ready, and stores the set only if
some file of it is ready. It looks at the descriptors up to `max_fd`, that one included.
The three sets lie apart in user memory. An error ends the call, which is `none` here.
-/
namespace Kevlar.Select
open Option List

open Watch (PollStatus)

inductive Kind
  | read
  | write
  | error
  deriving DecidableEq

def Kind.isReady (status : PollStatus) : Kind → Bool
  | read => status.contains .pollin || status.contains .pollhup
  | write => status.contains .pollout
  | error => status.contains .pollerr || status.contains .pollhup

/-- One descriptor, with the count and the bits so far. -/
def visit (maxFd : ℤ) (ready : ℕ → Option Bool) (s : ℕ × Finset ℕ) (fd : ℕ) :
    Option (ℕ × Finset ℕ) :=
  if fd ∈ s.2 ∧ fd ≤ maxFd then
    (ready fd).map fun b => if b then (s.1 + 1, s.2) else (s.1, s.2.erase fd)
  else some s

def numBytes (maxFd : ℤ) : ℕ := alignUp (maxFd % 2 ^ 64).toNat 8 / 8

/-- `ready` is what `is_ready` says of the status of a file. -/
def checkFdStatuses (maxFd : ℤ) (ready : ℕ → Option Bool) (fds : Finset ℕ) :
    Option (ℕ × Finset ℕ) :=
  if 1024 < numBytes maxFd then none
  else ((List.range (numBytes maxFd * 8)).foldlM (visit maxFd ready) (0, fds)).map fun r =>
    if 0 < r.1 then r else (0, fds)

/-- What a pass of the loop sees of the files and the clock. -/
structure Pass where
  poll : Kind → ℕ → Option PollStatus
  timedOut : Bool

def Pass.ready (p : Pass) (k : Kind) (fd : ℕ) : Option Bool := (p.poll k fd).map (k.isReady ·)

/-- The sets are those whose pointer is not null, in the order of the checks. -/
def Pass.run (p : Pass) (maxFd : ℤ) : List (Kind × Finset ℕ) → Option (ℕ × List (Kind × Finset ℕ))
  | [] => some (0, [])
  | (k, fds) :: rest => do
    let r ← checkFdStatuses maxFd (p.ready k) fds
    let s ← p.run maxFd rest
    some (r.1 + s.1, (k, r.2) :: s.2)

/-- The last pass comes with the result. A call that still sleeps after the
passes gives `none` as well. -/
def sysSelect (maxFd : ℤ) (sets : List (Kind × Finset ℕ)) :
    List Pass → Option (ℕ × List (Kind × Finset ℕ) × Pass)
  | [] => none
  | p :: rest => do
    let r ← p.run maxFd sets
    if 0 < r.1 ∨ p.timedOut then some (r.1, r.2, p) else sysSelect maxFd r.2 rest

/-- The members below `max_fd` whose files are ready. -/
def chosen (maxFd : ℤ) (ready : ℕ → Option Bool) (fds : Finset ℕ) : Finset ℕ :=
  {fd ∈ fds | (fd : ℤ) < maxFd ∧ ready fd = some true}

/-- No member but those below `max_fd` is kept, and a set with members has a
ready one. -/
def Sound (maxFd : ℤ) (ready : ℕ → Option Bool) (fds : Finset ℕ) : Prop :=
  (∀ fd ∈ fds, fd < maxFd ∨ fd < numBytes maxFd * 8 ∧ fd ≤ maxFd ∧ ready fd ≠ some true) ∧
    (fds.Nonempty → (chosen maxFd ready fds).Nonempty)

variable {maxFd : ℤ} {ready : ℕ → Option Bool} {fds out : Finset ℕ} {n : ℕ}

lemma foldlM_visit {r : ℕ × Finset ℕ}
    (h : (range n).foldlM (visit maxFd ready) (0, fds) = some r) :
    r.1 = Nat.count (fun fd => fd ∈ fds ∧ (fd : ℤ) ≤ maxFd ∧ ready fd = some true) n ∧
      ∀ fd, fd ∈ r.2 ↔ fd ∈ fds ∧ (fd < n → fd ≤ maxFd → ready fd = some true) := by
  induction n generalizing r with
  | zero =>
    cases h
    simp
  | succ n ih =>
    rw [range_succ, foldlM_append] at h
    obtain ⟨u, hu, h⟩ := bind_eq_some_iff.mp h
    obtain ⟨v, hv, h⟩ := bind_eq_some_iff.mp h
    cases h
    obtain ⟨hcount, hmem⟩ := ih hu
    have hn : n ∈ u.2 ↔ n ∈ fds := by simp [hmem]
    have hnext : ∀ fd, (fd ∈ fds ∧ (fd < n + 1 → fd ≤ maxFd → ready fd = some true)) ↔
        fd ∈ u.2 ∧ (fd = n → fd ≤ maxFd → ready fd = some true) := by
      intro fd
      rw [hmem, and_assoc, Nat.lt_succ_iff_lt_or_eq, or_imp]
    simp only [Nat.count_succ, ← hcount, ← hn, hnext]
    unfold visit at hv
    split_ifs at hv with hasked
    · obtain ⟨b, hb, rfl⟩ := map_eq_some_iff.mp hv
      cases b with
      | true => exact ⟨by simp [hasked, hb], fun fd => by simp +contextual [hb]⟩
      | false =>
        refine ⟨by simp [hb], fun fd => ?_⟩
        by_cases hfd : fd = n <;> simp [hfd, hasked, hb]
    · cases hv
      refine ⟨by rw [if_neg (by tauto), add_zero], fun fd => ?_⟩
      rw [iff_self_and]
      rintro hfd rfl hle
      exact absurd ⟨hfd, hle⟩ hasked

/-- A check leaves the chosen members exactly when the set is sound, and then
it counts them. -/
lemma checkFdStatuses_spec (hmax : maxFd < 2 ^ 31)
    (h : checkFdStatuses maxFd ready fds = some (n, out)) : (n = 0 → out = fds) ∧
      (out = chosen maxFd ready fds ↔ Sound maxFd ready fds) ∧
      (out = chosen maxFd ready fds → n = out.card) := by
  unfold checkFdStatuses at h
  split_ifs at h with hbytes
  obtain ⟨r, hr, heq⟩ := map_eq_some_iff.mp h
  obtain ⟨hcount, hmem⟩ := foldlM_visit hr
  rw [Nat.count_eq_card_filter_range] at hcount
  have hlen : maxFd ≤ numBytes maxFd * 8 := by
    simp only [numBytes, alignUp, alignDown, wadd]
    omega
  split_ifs at heq with hpos
  · cases heq
    dsimp only at hcount hmem hpos
    refine ⟨by omega, ⟨fun hout => ⟨?_, fun _ => ?_⟩, fun hsound => ?_⟩, fun hout => ?_⟩
    · grind [chosen]
    · rw [hcount, Finset.card_pos] at hpos
      grind [chosen]
    · ext fd
      grind [Sound, chosen]
    · rw [hcount]
      congr 1
      ext fd
      grind [chosen]
  · cases heq
    have hnone : chosen maxFd ready fds = ∅ := by
      have := Finset.card_eq_zero.mp (hcount.symm.trans (by omega))
      grind [chosen]
    rw [hnone]
    refine ⟨fun _ => rfl, ⟨?_, fun hsound => ?_⟩, fun hout => by simp [hout]⟩
    · rintro rfl
      simp [Sound]
    · by_contra hne
      simpa [hnone] using hsound.2 (Finset.nonempty_iff_ne_empty.mpr hne)

def Pass.chosen (p : Pass) (maxFd : ℤ) (s : Kind × Finset ℕ) : Kind × Finset ℕ :=
  (s.1, Select.chosen maxFd (p.ready s.1) s.2)

variable {p : Pass} {sets sets' : List (Kind × Finset ℕ)}

lemma Pass.run_spec (hmax : maxFd < 2 ^ 31) (h : p.run maxFd sets = some (n, sets')) :
    (n = 0 → sets' = sets) ∧
      (sets' = sets.map (p.chosen maxFd) ↔ ∀ s ∈ sets, Sound maxFd (p.ready s.1) s.2) ∧
      (sets' = sets.map (p.chosen maxFd) → n = (sets'.map (·.2.card)).sum) := by
  induction sets generalizing n sets' with
  | nil =>
    cases h
    simp
  | cons s rest ih =>
    simp only [Pass.run, bind_eq_bind, bind_eq_some_iff] at h
    obtain ⟨r, hr, u, hu, heq⟩ := h
    cases heq
    obtain ⟨hkeep, hsound, hcount⟩ := checkFdStatuses_spec hmax hr
    obtain ⟨hkeep', hsound', hcount'⟩ := ih hu
    simp only [map_cons, cons.injEq, forall_mem_cons, sum_cons, Pass.chosen,
      Prod.mk.injEq, true_and]
    refine ⟨fun hzero => ?_, and_congr hsound hsound', fun hall => ?_⟩
    · rw [hkeep (by omega), hkeep' (by omega)]
      exact ⟨rfl, rfl⟩
    · rw [hcount hall.1, hcount' hall.2]

/-- A pass that finds nothing leaves the sets, so the last one starts from the
sets of the call. -/
lemma run_of_sysSelect (hmax : maxFd < 2 ^ 31) {passes : List Pass}
    (h : sysSelect maxFd sets passes = some (n, sets', p)) :
    p.run maxFd sets = some (n, sets') := by
  induction passes with
  | nil => cases h
  | cons q rest ih =>
    obtain ⟨r, hrun, h⟩ := bind_eq_some_iff.mp h
    split_ifs at h with hdone
    · cases h
      exact hrun
    · rw [(Pass.run_spec hmax hrun).1 (by omega)] at h
      exact ih h

/-- A call that returns has left in every set the ready members below `max_fd`
and counted them, exactly when every set was sound at its last pass. -/
theorem sysSelect_exact_iff (hmax : maxFd < 2 ^ 31) {passes : List Pass}
    (h : sysSelect maxFd sets passes = some (n, sets', p)) :
    (sets' = sets.map (p.chosen maxFd) ∧ n = (sets'.map (·.2.card)).sum) ↔
      ∀ s ∈ sets, Sound maxFd (p.ready s.1) s.2 := by
  obtain ⟨-, hsound, hcount⟩ := Pass.run_spec hmax (run_of_sysSelect hmax h)
  rw [← hsound]
  exact ⟨And.left, fun hexact => ⟨hexact, hcount hexact⟩⟩

/-- A pass after the timeout that finds no file ready. -/
def idle : Pass := ⟨fun _ _ => some .empty, true⟩

def waiting : Pass := { idle with timedOut := false }

/-- Descriptor 1 can be read and 2 written, the other files are not ready. -/
def oneEach : Pass where
  poll k fd :=
    some (if k = .read ∧ fd = 1 then .pollin else if k = .write ∧ fd = 2 then .pollout else .empty)
  timedOut := false

/-- After a pass that finds nothing, descriptors 0 and 1 leave the sets they are not ready for. -/
theorem sysSelect_exact_iff_oneEach : ∃ n sets',
    sysSelect 3 [(.read, {0, 1}), (.write, {1, 2})] [waiting, oneEach] =
      some (n, sets', oneEach) ∧
    sets' = [(Kind.read, {0, 1}), (.write, {1, 2})].map (oneEach.chosen 3) ∧
    n = (sets'.map (·.2.card)).sum := by
  have h : sysSelect 3 [(.read, {0, 1}), (.write, {1, 2})] [waiting, oneEach] =
      some (2, [(.read, {1}), (.write, {2})], oneEach) := by
    rfl
  refine ⟨_, _, h, (sysSelect_exact_iff (by decide) h).mpr ?_⟩
  unfold Sound
  decide +kernel

/-- A call that times out leaves the bit of a file that is not ready. -/
theorem timeout_keeps_bits :
    (sysSelect 1 [(.read, {0})] [idle]).map (fun r => (r.1, r.2.1)) = some (0, [(.read, {0})]) ∧
      idle.chosen 1 (.read, {0}) = (.read, ∅) := by
  decide +kernel

end Kevlar.Select
