import Kevlar.DisjointRegions

/-!
# POSIX record locks

`fcntl` keeps the record locks of a file as a list of half-open ranges and works with the
range that `resolve_range` computes from the request. Next to the list the model keeps
what the processes hold by the definition of `fcntl(2)`, byte by byte. The two agree as
long as the computed ranges of the granted requests are the defined ones.
-/
namespace Kevlar.RecordLocks
open Function DisjointRegions List

/-- The device and the number of an inode. -/
abbrev InodeKey := ℕ × ℕ

def fRdlck : ℤ := 0
def fWrlck : ℤ := 1
def fUnlck : ℤ := 2

def seekSet : ℤ := 0
def seekCur : ℤ := 1
def seekEnd : ℤ := 2

/-- The fields of `struct flock` that a request reads. -/
structure Flock where
  lType : ℤ
  lWhence : ℤ
  lStart : ℤ
  lLen : ℤ
  lStart_bounds : -2 ^ 63 ≤ lStart ∧ lStart < 2 ^ 63
  lLen_bounds : -2 ^ 63 ≤ lLen ∧ lLen < 2 ^ 63

/-- A lock on the bytes from `start` up to but not including `stop`. -/
structure RecordLock where
  start : ℕ
  stop : ℕ
  lType : ℤ
  pid : ℤ

def u64Max : ℕ := 2 ^ 64 - 1

/-- A sum of two `i64`. -/
def addI64 (a b : ℤ) : ℤ := Int.bmod (a + b) (2 ^ 64)

/-- The start that `resolve_range` computes. -/
def resolveStart (fl : Flock) (fileSize : ℕ) : ℕ :=
  let base : ℤ := if fl.lWhence = seekEnd then fileSize else 0
  (max (addI64 base fl.lStart) 0).toNat

def resolveRange (fl : Flock) (fileSize : ℕ) : ℕ × ℕ :=
  let start := resolveStart fl fileSize
  (start, if fl.lLen = 0 then u64Max else (max (addI64 start fl.lLen) 0).toNat)

def rangesOverlap (s₁ e₁ s₂ e₂ : ℕ) : Bool := s₁ < e₂ && s₂ < e₁

def findConflict (locks : List RecordLock) (start stop : ℕ) (lType pid : ℤ) :
    Option RecordLock :=
  locks.find? fun lock =>
    lock.pid ≠ pid && rangesOverlap lock.start lock.stop start stop &&
      (lType = fWrlck || lock.lType = fWrlck)

/-- What stays of a lock outside of a range. -/
def RecordLock.trim (old : RecordLock) (start stop : ℕ) : List RecordLock :=
  (if old.start < start then [{ old with stop := start }] else []) ++
    if stop < old.stop then [{ old with start := stop }] else []

/-- A lock of the process that meets the range. -/
def RecordLock.meets (lock : RecordLock) (start stop : ℕ) (pid : ℤ) : Bool :=
  lock.pid = pid && rangesOverlap lock.start lock.stop start stop

/-- The loop of `set_lock`, in which each round goes on to the next index or removes the lock
at this one. -/
def trimLoop (start stop : ℕ) (pid : ℤ) : ℕ → ℕ → List RecordLock → List RecordLock →
    List RecordLock × List RecordLock
  | 0, _, locks, toAdd => (locks, toAdd)
  | rounds + 1, i, locks, toAdd =>
    match locks[i]? with
    | none => (locks, toAdd)
    | some old =>
      if old.meets start stop pid then
        trimLoop start stop pid rounds i (locks.eraseIdx i) (toAdd ++ old.trim start stop)
      else trimLoop start stop pid rounds (i + 1) locks toAdd

def setLock (locks : List RecordLock) (start stop : ℕ) (lType pid : ℤ) : List RecordLock :=
  let r := trimLoop start stop pid locks.length 0 locks []
  r.1 ++ r.2 ++ if lType ≠ fUnlck then [⟨start, stop, lType, pid⟩] else []

/-- A request with what it finds: the position and the size of the file. A request that
sleeps comes again when it is woken. -/
structure Request where
  key : InodeKey
  pid : ℤ
  fl : Flock
  wait : Bool
  filePos : ℕ
  fileSize : ℕ

inductive Outcome
  | granted
  | EAGAIN
  | sleeps
  deriving DecidableEq

/-- `RECORD_LOCKS`, and what each process holds by the definition of `fcntl(2)`. -/
structure Locks where
  table : InodeKey → List RecordLock
  held : InodeKey → ℤ → ℕ → Option ℤ

/-! ## The range that `fcntl(2)` defines -/

/-- The largest offset and one. -/
def offsetEnd : ℤ := 2 ^ 63

/-- The offset that `l_start` counts from. -/
def whenceBase (r : Request) : Option ℤ :=
  if r.fl.lWhence = seekSet then some 0
  else if r.fl.lWhence = seekCur then some r.filePos
  else if r.fl.lWhence = seekEnd then some r.fileSize
  else none

/-- The first byte and the byte after the last one; none if the request is not valid. A
length of 0 reaches to the end of all offsets, a negative length goes backwards. -/
def fcntlRange (r : Request) : Option (ℤ × ℤ) :=
  (whenceBase r).bind fun base =>
    let first := base + r.fl.lStart
    let range :=
      if r.fl.lLen = 0 then (first, offsetEnd)
      else if 0 < r.fl.lLen then (first, first + r.fl.lLen)
      else (first + r.fl.lLen, first)
    if 0 ≤ range.1 ∧ range.1 < range.2 ∧ range.2 ≤ offsetEnd then some range else none

/-- The request covers the byte. -/
def Request.covers (r : Request) (b : ℕ) : Bool :=
  match fcntlRange r with
  | some (lo, hi) => lo ≤ b && (b : ℤ) < hi
  | none => false

namespace Locks

def boot : Locks := ⟨fun _ => [], fun _ _ _ => none⟩

/-- The list of the file after a request that is granted. -/
def grantTable (s : Locks) (r : Request) : InodeKey → List RecordLock :=
  let range := resolveRange r.fl r.fileSize
  update s.table r.key (setLock (s.table r.key) range.1 range.2 r.fl.lType r.pid)

/-- What the process holds after a request that is granted. -/
def grantHeld (s : Locks) (r : Request) : InodeKey → ℤ → ℕ → Option ℤ := fun key pid b =>
  if key = r.key ∧ pid = r.pid ∧ r.covers b then
    if r.fl.lType = fUnlck then none else some r.fl.lType
  else s.held key pid b

/-- `F_SETLK` and `F_SETLKW`. -/
def fcntl (s : Locks) (r : Request) : Outcome × Locks :=
  let range := resolveRange r.fl r.fileSize
  if r.fl.lType = fUnlck then (.granted, ⟨s.grantTable r, s.grantHeld r⟩)
  else
    match findConflict (s.table r.key) range.1 range.2 r.fl.lType r.pid with
    | none => (.granted, ⟨s.grantTable r, s.grantHeld r⟩)
    | some _ => (if r.wait then .sleeps else .EAGAIN, s)

/-- `release_all_record_locks`. -/
def releaseAllRecordLocks (s : Locks) (pid : ℤ) : Locks where
  table key := (s.table key).filter fun lock => lock.pid ≠ pid
  held key p b := if p = pid then none else s.held key p b

inductive Event
  | fcntl (r : Request)
  | exit (pid : ℤ)

def step (s : Locks) : Event → Locks
  | .fcntl r => (s.fcntl r).2
  | .exit pid => s.releaseAllRecordLocks pid

def run (s : Locks) (events : List Event) : Locks := events.foldl step s

/-- No byte is covered by a write lock of one process and a lock of another. -/
def Exclusive (s : Locks) : Prop :=
  ∀ key b p q t, p ≠ q → s.held key p b = some fWrlck → s.held key q b ≠ some t

/-- The request goes forwards, to an end that is an offset. It counts from the start or the
end of the file, or from a position that is 0 or makes its range start at 0. -/
def Agrees (r : Request) : Prop :=
  ∃ base, whenceBase r = some base ∧
    (r.fl.lWhence = seekCur → base = 0 ∨ base + r.fl.lStart = 0) ∧ 0 ≤ base + r.fl.lStart ∧
      0 ≤ r.fl.lLen ∧ base + r.fl.lStart + r.fl.lLen < offsetEnd

/-- A request that is granted is one for which the source computes the range that `fcntl(2)`
defines. -/
def Faithful (s : Locks) : Event → Prop
  | .fcntl r => (s.fcntl r).1 = .granted → Agrees r
  | .exit _ => True

def AllFaithful (s : Locks) : List Event → Prop
  | [] => True
  | e :: rest => s.Faithful e ∧ AllFaithful (s.step e) rest

end Locks

/-! ## Bytes covered by a list of locks -/

/-- A lock of process `p` with type `t` covers the byte. -/
def Covers (locks : List RecordLock) (p : ℤ) (b : ℕ) (t : ℤ) : Prop :=
  ∃ lock ∈ locks, lock.pid = p ∧ lock.lType = t ∧ lock.start ≤ b ∧ b < lock.stop

variable {p t pid lType : ℤ} {b start stop : ℕ} {locks : List RecordLock}

lemma covers_append {l₁ l₂ : List RecordLock} :
    Covers (l₁ ++ l₂) p b t ↔ Covers l₁ p b t ∨ Covers l₂ p b t := by
  simp only [Covers, mem_append, or_and_right, exists_or]

lemma mem_trim {old lock : RecordLock} : lock ∈ old.trim start stop ↔
    (old.start < start ∧ lock = { old with stop := start }) ∨
      (stop < old.stop ∧ lock = { old with start := stop }) := by
  unfold RecordLock.trim
  split_ifs <;> simp_all

lemma meets_iff {lock : RecordLock} :
    lock.meets start stop pid = true ↔
      lock.pid = pid ∧ lock.start < stop ∧ start < lock.stop := by
  simp [RecordLock.meets, rangesOverlap]

/-- The trimmed lock covers what it covered outside of the range. -/
lemma covers_trim {old : RecordLock} (h : old.meets start stop pid = true) :
    Covers (old.trim start stop) p b t ↔
      old.pid = p ∧ old.lType = t ∧ (old.start ≤ b ∧ b < old.stop) ∧ (b < start ∨ stop ≤ b) := by
  obtain ⟨-, hlo, hhi⟩ := meets_iff.mp h
  unfold Covers
  simp only [mem_trim]
  constructor
  · rintro ⟨lock, ⟨hstart, rfl⟩ | ⟨hstop, rfl⟩, hp, ht, hb⟩
    all_goals
      dsimp only at hp ht hb
      exact ⟨hp, ht, by omega, by omega⟩
  · rintro ⟨hp, ht, hb, hlt | hge⟩
    · exact ⟨_, .inl ⟨by omega, rfl⟩, hp, ht, hb.1, hlt⟩
    · exact ⟨_, .inr ⟨by omega, rfl⟩, hp, ht, hge, hb.2⟩

/-- The loop leaves the locks that do not meet the range and collects what stays of the others. -/
lemma trimLoop_eq (rest kept toAdd : List RecordLock) :
    trimLoop start stop pid rest.length kept.length (kept ++ rest) toAdd =
      (kept ++ rest.filter (!·.meets start stop pid),
        toAdd ++ (rest.filter (·.meets start stop pid)).flatMap (·.trim start stop)) := by
  induction rest generalizing kept toAdd with
  | nil => simp [trimLoop]
  | cons old rest ih =>
    have hget : (kept ++ old :: rest)[kept.length]? = some old := by simp
    rw [length_cons, trimLoop, hget]
    by_cases hmeets : old.meets start stop pid = true
    · simp [hmeets, eraseIdx_append_of_length_le, ih]
    · have hnext := ih (kept ++ [old]) toAdd
      simp_all

lemma setLock_eq : setLock locks start stop lType pid =
    locks.filter (!·.meets start stop pid) ++
      (locks.filter (·.meets start stop pid)).flatMap (·.trim start stop) ++
        if lType ≠ fUnlck then [⟨start, stop, lType, pid⟩] else [] := by
  have hloop : trimLoop start stop pid locks.length 0 locks [] = _ := trimLoop_eq locks [] []
  rw [setLock, hloop, nil_append, nil_append]

/-- `set_lock` replaces what the process has in the range and nothing else. -/
lemma covers_setLock :
    Covers (setLock locks start stop lType pid) p b t ↔
      if p = pid ∧ start ≤ b ∧ b < stop then lType ≠ fUnlck ∧ t = lType
      else Covers locks p b t := by
  have hkept : Covers (locks.filter fun lock => !lock.meets start stop pid) p b t ↔
      ∃ lock ∈ locks, lock.meets start stop pid = false ∧ lock.pid = p ∧ lock.lType = t ∧
        lock.start ≤ b ∧ b < lock.stop := by
    simp [Covers, and_assoc]
  have htrimmed : Covers ((locks.filter fun lock => lock.meets start stop pid).flatMap
      (·.trim start stop)) p b t ↔ ∃ lock ∈ locks, lock.meets start stop pid = true ∧
        lock.pid = p ∧ lock.lType = t ∧ (lock.start ≤ b ∧ b < lock.stop) ∧
          (b < start ∨ stop ≤ b) := by
    constructor
    · rintro ⟨piece, hpiece, hcover⟩
      obtain ⟨old, hold, htrim⟩ := mem_flatMap.mp hpiece
      rw [mem_filter] at hold
      exact ⟨old, hold.1, hold.2, (covers_trim hold.2).mp ⟨piece, htrim, hcover⟩⟩
    · rintro ⟨old, hold, hmeets, hcover⟩
      obtain ⟨piece, htrim, hrest⟩ := (covers_trim hmeets).mpr hcover
      exact ⟨piece, mem_flatMap.mpr ⟨old, mem_filter.mpr ⟨hold, hmeets⟩, htrim⟩, hrest⟩
  have hnew : Covers (if lType ≠ fUnlck then [⟨start, stop, lType, pid⟩] else []) p b t ↔
      lType ≠ fUnlck ∧ pid = p ∧ lType = t ∧ start ≤ b ∧ b < stop := by
    unfold Covers
    split_ifs with htype <;> simp [htype]
  rw [setLock_eq, covers_append, covers_append, hkept, htrimmed, hnew]
  split_ifs with hin
  · obtain ⟨rfl, hlo, hhi⟩ := hin
    constructor
    · rintro ((⟨lock, -, hmeets, hp, -, hcover⟩ | ⟨lock, -, -, -, -, -, hout⟩) | hnew)
      · have htrue : lock.meets start stop p = true := meets_iff.mpr ⟨hp, by omega, by omega⟩
        rw [htrue] at hmeets
        cases hmeets
      · omega
      · exact ⟨hnew.1, hnew.2.2.1.symm⟩
    · rintro ⟨htype, rfl⟩
      exact .inr ⟨htype, rfl, rfl, hlo, hhi⟩
  · constructor
    · rintro ((⟨lock, hmem, -, hrest⟩ | ⟨lock, hmem, -, hp, ht, hb, -⟩) | ⟨-, rfl, -, hb⟩)
      · exact ⟨lock, hmem, hrest⟩
      · exact ⟨lock, hmem, hp, ht, hb⟩
      · exact absurd ⟨rfl, hb⟩ hin
    · rintro ⟨lock, hmem, hp, ht, hb⟩
      by_cases hmeets : lock.meets start stop pid = true
      · have hpid := (meets_iff.mp hmeets).1
        refine .inl (.inr ⟨lock, hmem, hmeets, hp, ht, hb, ?_⟩)
        by_contra hinside
        exact hin ⟨by rw [← hp, hpid], by omega, by omega⟩
      · rw [Bool.not_eq_true] at hmeets
        exact .inl (.inl ⟨lock, hmem, hmeets, hp, ht, hb⟩)

/-- The byte is in the range of a lock of the process. -/
def RecordLock.Holds (pid : ℤ) (lock : RecordLock) (b : ℕ) : Prop :=
  lock.pid = pid ∧ lock.start ≤ b ∧ b < lock.stop

/-- What is left of a lock is not empty and holds bytes outside of the range only. -/
lemma holds_trim {old lock : RecordLock} (hlock : lock ∈ old.trim start stop)
    (hold : old ∈ locks.filter fun lock => lock.meets start stop pid) :
    lock.pid = pid ∧ lock.start < lock.stop ∧
      ∀ b, lock.Holds pid b → old.Holds pid b ∧ (b < start ∨ stop ≤ b) := by
  have hmeets := (mem_filter.mp hold).2
  have hpid := (meets_iff.mp hmeets).1
  have hsome : lock.pid = pid ∧ lock.start < lock.stop := by
    obtain ⟨hcut, rfl⟩ | ⟨hcut, rfl⟩ := mem_trim.mp hlock <;> exact ⟨hpid, hcut⟩
  refine ⟨hsome.1, hsome.2, fun b hb => ?_⟩
  obtain ⟨-, -, hin, hout⟩ := (covers_trim hmeets).mp ⟨lock, hlock, hb.1, rfl, hb.2⟩
  exact ⟨⟨hpid, hin⟩, hout⟩

lemma disjointOn_setLock (hlt : start < stop) (h : DisjointOn (RecordLock.Holds pid) locks) :
    DisjointOn (RecordLock.Holds pid) (setLock locks start stop lType pid) := by
  have hrest : DisjointOn (RecordLock.Holds pid)
      (locks.filter (fun lock => !lock.meets start stop pid) ++
        (locks.filter fun lock => lock.meets start stop pid).flatMap (·.trim start stop)) := by
    refine pairwise_append.mpr ⟨h.filter _, pairwise_flatMap.mpr ⟨?_, ?_⟩, ?_⟩
    · intro old _
      unfold RecordLock.trim RecordLock.Holds
      split_ifs <;> simp
      omega
    · refine (h.filter _).imp_of_mem fun hx hy hxy z hz w hw b hb => hxy b ?_
      exact ⟨((holds_trim hz hx).2.2 b hb.1).1,
        ((holds_trim hw hy).2.2 b hb.2).1⟩
    · intro x hx y hy b hb
      obtain ⟨old, hold, hy⟩ := mem_flatMap.mp hy
      have hne : x ≠ old := by
        rintro rfl
        simp [(mem_filter.mp hold).2] at hx
      have hsymm : Std.Symm fun x y => ∀ b, ¬(RecordLock.Holds pid x b ∧ y.Holds pid b) :=
        ⟨fun _ _ => apart_symm⟩
      exact h.forall (mem_of_mem_filter hx) (mem_of_mem_filter hold) hne b
        ⟨hb.1, ((holds_trim hy hold).2.2 b hb.2).1⟩
  rw [setLock_eq]
  split_ifs
  · refine disjointOn_concat.mpr ⟨hrest, fun x hx b hb => ?_⟩
    obtain ⟨hlo, hhi⟩ : start ≤ b ∧ b < stop := hb.2.2
    obtain hx | hx := mem_append.mp hx
    · have hmeets := meets_iff.mpr ⟨hb.1.1, hb.1.2.1.trans_lt hhi, hlo.trans_lt hb.1.2.2⟩
      simp [hmeets] at hx
    · obtain ⟨old, hold, hx⟩ := mem_flatMap.mp hx
      have hout := ((holds_trim hx hold).2.2 b hb.1).2
      omega
  · rwa [append_nil]

/-- `set_lock` is exact: each byte of the range has the requested type and each other byte
the type that it had. The ranges of the process stay disjoint and not empty, and the locks
of the other processes stay as they are. -/
theorem setLock_exact (hlt : start < stop) (h : DisjointOn (RecordLock.Holds pid) locks) :
    (∀ b t, Covers (setLock locks start stop lType pid) pid b t ↔
      if start ≤ b ∧ b < stop then lType ≠ fUnlck ∧ t = lType else Covers locks pid b t) ∧
    DisjointOn (RecordLock.Holds pid) (setLock locks start stop lType pid) ∧
    ((∀ lock ∈ locks, lock.pid = pid → lock.start < lock.stop) →
      ∀ lock ∈ setLock locks start stop lType pid, lock.pid = pid → lock.start < lock.stop) ∧
    ∀ q ≠ pid, (setLock locks start stop lType pid).filter (·.pid = q) =
      locks.filter (·.pid = q) := by
  refine ⟨fun b t => ?_, disjointOn_setLock hlt h, fun hsome lock hlock => ?_, fun q hq => ?_⟩
  · rw [covers_setLock]
    simp only [true_and]
  · simp only [setLock_eq, mem_append, mem_flatMap, mem_ite_nil_right,
      mem_singleton] at hlock
    obtain (hlock | ⟨old, hold, hlock⟩) | ⟨-, rfl⟩ := hlock
    · exact hsome lock (mem_of_mem_filter hlock)
    · exact fun _ => (holds_trim hlock hold).2.1
    · exact fun _ => hlt
  · have hnone : ((locks.filter fun lock => lock.meets start stop pid).flatMap
        (·.trim start stop)).filter (·.pid = q) = [] := by
      rw [filter_eq_nil_iff]
      intro lock hlock
      obtain ⟨old, hold, hlock⟩ := mem_flatMap.mp hlock
      simp [(holds_trim hlock hold).1, hq.symm]
    have hnew : (if lType ≠ fUnlck then [RecordLock.mk start stop lType pid] else []).filter
        (·.pid = q) = [] := by
      split_ifs <;> simp [hq.symm]
    rw [setLock_eq, filter_append, filter_append, hnone, hnew, append_nil,
      append_nil, filter_filter]
    refine filter_congr fun lock _ => ?_
    by_cases hpid : lock.pid = q
    · simp [RecordLock.meets, hpid, hq]
    · simp [hpid]

theorem setLock_exact_middle :
    Covers (setLock [⟨0, 10, fRdlck, 1⟩, ⟨10, 20, fRdlck, 1⟩] 3 15 fWrlck 1) 1 12 fWrlck := by
  refine ((setLock_exact (by decide) (pairwise_pair.mpr ?_)).1 12 fWrlck).mpr
    (by simp [fWrlck, fUnlck])
  rintro b ⟨⟨-, -, hlt⟩, -, hle, -⟩
  exact hle.not_gt hlt

/-- No byte is covered by a write lock of one process and a lock of another. -/
def CoversExclusive (locks : List RecordLock) : Prop :=
  ∀ b p q t, p ≠ q → Covers locks p b fWrlck → ¬ Covers locks q b t

/-- A request without a conflict: no other process has a lock of the range that it may not
share. -/
lemma no_conflict {q : ℤ} (h : findConflict locks start stop lType pid = none)
    (hb : start ≤ b ∧ b < stop) (hq : q ≠ pid) (hcover : Covers locks q b t) :
    lType ≠ fWrlck ∧ t ≠ fWrlck := by
  obtain ⟨lock, hmem, rfl, rfl, hlo, hhi⟩ := hcover
  have hnone := find?_eq_none.mp h lock hmem
  have hoverlap : rangesOverlap lock.start lock.stop start stop = true := by
    simp only [rangesOverlap, Bool.and_eq_true, decide_eq_true_eq]
    omega
  simpa [hq, hoverlap] using hnone

lemma CoversExclusive.setLock (h : CoversExclusive locks)
    (hfree : lType = fUnlck ∨ findConflict locks start stop lType pid = none) :
    CoversExclusive (setLock locks start stop lType pid) := by
  intro b p q t hpq hp hq
  rw [covers_setLock] at hp hq
  split_ifs at hp with hpin
  · obtain ⟨htype, hwrite⟩ := hp
    have hnone := hfree.resolve_left htype
    rw [if_neg (fun hqin => hpq (hpin.1.trans hqin.1.symm))] at hq
    exact (no_conflict hnone hpin.2 (fun heq => hpq (hpin.1.trans heq.symm)) hq).1 hwrite.symm
  · split_ifs at hq with hqin
    · have hnone := hfree.resolve_left hq.1
      exact (no_conflict hnone hqin.2 (fun heq => hpq (heq.trans hqin.1.symm)) hp).2 rfl
    · exact h b p q t hpq hp hq

namespace Locks

variable {s : Locks}

/-- The table stands for what the processes hold, and it is exclusive. -/
structure Inv (s : Locks) : Prop where
  agrees : ∀ {key p b t}, b < 2 ^ 63 →
    (s.held key p b = some t ↔ Covers (s.table key) p b t)
  bounded : ∀ {key p b t}, s.held key p b = some t → b < 2 ^ 63
  exclusive : ∀ key, CoversExclusive (s.table key)

lemma inv_boot : boot.Inv where
  agrees _ := by
    constructor
    · intro h
      cases h
    · rintro ⟨lock, hmem, -⟩
      cases hmem
  bounded h := by cases h
  exclusive key := by
    rintro b p q t - ⟨lock, hmem, -⟩
    cases hmem

variable {r : Request}

lemma fcntlRange_bounds {lo hi : ℤ} (h : fcntlRange r = some (lo, hi)) :
    0 ≤ lo ∧ lo < hi ∧ hi ≤ offsetEnd := by
  obtain ⟨base, -, hbase⟩ := Option.bind_eq_some_iff.mp h
  dsimp only at hbase
  generalize (if r.fl.lLen = 0 then (base + r.fl.lStart, offsetEnd)
    else if 0 < r.fl.lLen then (base + r.fl.lStart, base + r.fl.lStart + r.fl.lLen)
    else (base + r.fl.lStart + r.fl.lLen, base + r.fl.lStart)) = range at hbase
  split_ifs at hbase with hvalid
  cases hbase
  exact hvalid

lemma covers_lt {b : ℕ} (h : r.covers b = true) : b < 2 ^ 63 := by
  unfold Request.covers at h
  split at h
  case h_1 lo hi hrange =>
    rw [Bool.and_eq_true, decide_eq_true_iff, decide_eq_true_iff] at h
    have hhi := (fcntlRange_bounds hrange).2.2
    unfold offsetEnd at hhi
    omega
  case h_2 => cases h

lemma addI64_eq {a b : ℤ} (hlo : -2 ^ 63 ≤ a + b) (hhi : a + b < 2 ^ 63) :
    addI64 a b = a + b := by
  unfold addI64 Int.bmod
  dsimp only
  split_ifs <;> omega

lemma resolveStart_eq {base : ℤ} (hbase : whenceBase r = some base)
    (hwhence : r.fl.lWhence = seekCur → base = 0 ∨ base + r.fl.lStart = 0)
    (hstart : 0 ≤ base + r.fl.lStart) (hlt : base + r.fl.lStart < offsetEnd) :
    (resolveStart r.fl r.fileSize : ℤ) = base + r.fl.lStart := by
  have hbounds := r.fl.lStart_bounds
  unfold offsetEnd at hlt
  unfold whenceBase at hbase
  unfold resolveStart
  dsimp only
  split_ifs at hbase with hset hcur hend <;> cases hbase
  · rw [if_neg (by rw [hset]; decide), addI64_eq (by omega) (by omega)]
    omega
  · have hpos := hwhence hcur
    rw [if_neg (by rw [hcur]; decide), addI64_eq (by omega) (by omega)]
    omega
  · rw [if_pos hend, addI64_eq (by omega) (by omega)]
    omega

/-- The range that the source computes is the one that `fcntl(2)` defines. -/
lemma Agrees.covers_iff (h : Agrees r) {b : ℕ} (hb : b < 2 ^ 63) : r.covers b = true ↔
    (resolveRange r.fl r.fileSize).1 ≤ b ∧ b < (resolveRange r.fl r.fileSize).2 := by
  obtain ⟨base, hbase, hwhence, hstart, hlen, hend⟩ := h
  have hfirst := resolveStart_eq hbase hwhence hstart (by omega)
  have hrange : fcntlRange r = some (base + r.fl.lStart,
      if r.fl.lLen = 0 then offsetEnd else base + r.fl.lStart + r.fl.lLen) := by
    rw [fcntlRange, hbase, Option.bind_some]
    dsimp only
    split_ifs with hzero hpos hvalid hvalid
    all_goals first | rfl | omega
  rw [Request.covers, hrange]
  simp only [resolveRange, Bool.and_eq_true, decide_eq_true_eq]
  unfold offsetEnd u64Max at *
  split_ifs with hzero
  · omega
  · rw [addI64_eq (by omega) (by omega)]
    omega

lemma Inv.grant (h : s.Inv) (hagrees : Agrees r)
    (hfree : r.fl.lType = fUnlck ∨ findConflict (s.table r.key) (resolveRange r.fl r.fileSize).1
      (resolveRange r.fl r.fileSize).2 r.fl.lType r.pid = none) :
    (⟨s.grantTable r, s.grantHeld r⟩ : Locks).Inv where
  agrees := by
    intro key p b t hb
    have hrange := hagrees.covers_iff hb
    change s.grantHeld r key p b = some t ↔ Covers (update s.table r.key _ key) p b t
    unfold grantHeld
    by_cases hkey : key = r.key
    · subst hkey
      rw [update_self, covers_setLock]
      by_cases hin : p = r.pid ∧ r.covers b = true
      · have hall : r.key = r.key ∧ p = r.pid ∧ r.covers b = true := ⟨rfl, hin⟩
        have hcover : p = r.pid ∧ (resolveRange r.fl r.fileSize).1 ≤ b ∧
            b < (resolveRange r.fl r.fileSize).2 := ⟨hin.1, hrange.mp hin.2⟩
        rw [if_pos hall, if_pos hcover]
        split_ifs with htype
        · simp [htype]
        · simp [htype, eq_comm]
      · rw [if_neg (fun hall => hin hall.2), if_neg fun hall => hin ⟨hall.1, hrange.mpr hall.2⟩]
        exact h.agrees hb
    · rw [if_neg (fun hall => hkey hall.1), update_of_ne hkey]
      exact h.agrees hb
  bounded := by
    intro key p b t hheld
    change s.grantHeld r key p b = some t at hheld
    unfold grantHeld at hheld
    split_ifs at hheld with hin
    · exact covers_lt hin.2.2
    · exact h.bounded hheld
  exclusive key := by
    change CoversExclusive (update s.table r.key _ key)
    by_cases hkey : key = r.key
    · subst hkey
      rw [update_self]
      exact (h.exclusive r.key).setLock hfree
    · rw [update_of_ne hkey]
      exact h.exclusive key

lemma covers_release {locks : List RecordLock} {pid p t : ℤ} {b : ℕ} :
    Covers (locks.filter fun lock => lock.pid ≠ pid) p b t ↔ p ≠ pid ∧ Covers locks p b t := by
  unfold Covers
  simp only [mem_filter, decide_eq_true_iff]
  constructor
  · rintro ⟨lock, ⟨hmem, hne⟩, rfl, hrest⟩
    exact ⟨hne, lock, hmem, rfl, hrest⟩
  · rintro ⟨hne, lock, hmem, rfl, hrest⟩
    exact ⟨lock, ⟨hmem, hne⟩, rfl, hrest⟩

lemma Inv.step (h : s.Inv) {e : Event} (hfaithful : s.Faithful e) : (s.step e).Inv := by
  cases e with
  | exit pid =>
    constructor
    · intro key p b t hb
      change (if p = pid then none else _) = _ ↔ _
      rw [show (s.step (.exit pid)).table key = (s.table key).filter _ from rfl, covers_release]
      split_ifs with hp
      · simp [hp]
      · simp only [ne_eq, hp, not_false_eq_true, true_and]
        exact h.agrees hb
    · intro key p b t hheld
      change (if p = pid then none else _) = _ at hheld
      split_ifs at hheld
      exact h.bounded hheld
    · intro key b p q t hpq hp hq
      exact h.exclusive key b p q t hpq (covers_release.mp hp).2 (covers_release.mp hq).2
  | fcntl r =>
    simp only [Faithful, Locks.step, Locks.fcntl] at hfaithful ⊢
    by_cases htype : r.fl.lType = fUnlck
    · rw [if_pos htype] at hfaithful ⊢
      exact h.grant (hfaithful rfl) (.inl htype)
    · rw [if_neg htype] at hfaithful ⊢
      match hconflict : findConflict (s.table r.key) (resolveRange r.fl r.fileSize).1
          (resolveRange r.fl r.fileSize).2 r.fl.lType r.pid with
      | none =>
        rw [hconflict] at hfaithful
        exact h.grant (hfaithful rfl) (.inr hconflict)
      | some _ => exact h

lemma Inv.run (h : s.Inv) {events : List Event} (hfaithful : s.AllFaithful events) :
    (s.run events).Inv := by
  induction events generalizing s with
  | nil => exact h
  | cons e rest ih => exact ih (h.step hfaithful.1) hfaithful.2

lemma Inv.heldExclusive (h : s.Inv) : s.Exclusive := by
  intro key b p q t hpq hp hq
  have hb := h.bounded hp
  exact h.exclusive key b p q t hpq ((h.agrees hb).mp hp) ((h.agrees hb).mp hq)

/-- In every run whose granted requests have the range that `fcntl(2)` defines, locks are
mutually exclusive. -/
theorem exclusive_run (events : List Event) (hfaithful : boot.AllFaithful events) :
    (boot.run events).Exclusive :=
  (inv_boot.run hfaithful).heldExclusive

/-- A read lock to the end of the file, shared, then a write lock of the bytes before. -/
theorem exclusive_run_shared :
    let file : InodeKey := (1, 7)
    let read : Flock := ⟨fRdlck, seekEnd, 0, 0, by decide, by decide⟩
    let write : Flock := ⟨fWrlck, seekSet, 0, 100, by decide, by decide⟩
    (boot.run [.fcntl ⟨file, 10, read, false, 0, 100⟩, .fcntl ⟨file, 11, read, false, 0, 100⟩,
      .fcntl ⟨file, 12, write, true, 0, 100⟩, .exit 10]).Exclusive := by
  refine exclusive_run _ ⟨fun _ => ?_, fun _ => ?_, fun _ => ?_, trivial, trivial⟩
  all_goals exact ⟨_, rfl, by decide, by decide, by decide, by decide⟩

/-- Two processes are granted a write lock of the same bytes: by a negative length, by a
range that ends with the last offset, and at a file position. -/
theorem write_locks_shared :
    let file : InodeKey := (1, 7)
    let backward : Flock := ⟨fWrlck, seekSet, 10, -5, by decide, by decide⟩
    let last : Flock := ⟨fWrlck, seekSet, 2 ^ 63 - 4, 4, by decide, by decide⟩
    let atPos : Flock := ⟨fWrlck, seekCur, 0, 5, by decide, by decide⟩
    let fromStart : Flock := ⟨fWrlck, seekSet, 20, 5, by decide, by decide⟩
    ¬ (boot.run [.fcntl ⟨file, 10, backward, false, 0, 0⟩,
      .fcntl ⟨file, 11, backward, false, 0, 0⟩]).Exclusive ∧
    ¬ (boot.run [.fcntl ⟨file, 10, last, false, 0, 0⟩,
      .fcntl ⟨file, 11, last, false, 0, 0⟩]).Exclusive ∧
    ¬ (boot.run [.fcntl ⟨file, 10, atPos, false, 20, 0⟩,
      .fcntl ⟨file, 11, fromStart, false, 0, 0⟩]).Exclusive := by
  refine ⟨fun h => ?_, fun h => ?_, fun h => ?_⟩
  · exact h (1, 7) 7 10 11 fWrlck (by decide) (by decide +kernel) (by decide +kernel)
  · exact h (1, 7) (2 ^ 63 - 1) 10 11 fWrlck (by decide) (by decide +kernel) (by decide +kernel)
  · exact h (1, 7) 22 10 11 fWrlck (by decide) (by decide +kernel) (by decide +kernel)

end Locks

end Kevlar.RecordLocks
