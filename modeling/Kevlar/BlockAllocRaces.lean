import Kevlar.AtomicProgram
import Kevlar.Ext2Disk

/-!
# The block allocator step by step

`alloc_block` reads the bitmap of a group, looks for a free bit in its copy and
writes the copy back. The counters are changed under a lock, but the lock is
dropped around the read and around the write, so that calls on several processors
interleave there. A call that runs alone does what the block allocator of the file
system does in one step. Two calls that read a bitmap before either has written it
return the same block. If every bitmap is written back while it is still what the
writer has read, no block is returned twice without a `free_block` in between.
-/
namespace Kevlar.Ext2.BlockSteps
open Option Prod Function List Concurrent

/-- What callers see: a block is returned to one, or one calls `free_block` for it. -/
inductive Event
  | returned (b : ℕ)
  | freed (b : ℕ)
  deriving DecidableEq

/-- The file system with the holder of its lock; `log` is not stored anywhere. -/
structure Shared where
  fs : Fs
  holder : Option ℕ
  log : List Event

def Shared.start (fs : Fs) : Shared where
  fs := fs
  holder := none
  log := []

/-- The steps. A bitmap is written as the copy that was read, with one bit changed. -/
inductive Op
  | lock
  | unlock
  | loadFree
  | loadGroupFree (group : ℕ)
  | countTaken (group : ℕ)
  | countFreed (group : ℕ)
  | readBitmap (group : ℕ)
  | writeBitmap (group : ℕ) (copy : ℕ → Bool) (bit : ℕ) (value : Bool)
  | deliver (b : ℕ)
  | invalidate (b : ℕ)

/-- The answers: a read of the device may fail, and so may a write. -/
@[reducible] def Op.Ans : Op → Type
  | .loadFree => ℕ
  | .loadGroupFree _ => ℕ
  | .readBitmap _ => Option (ℕ → Bool)
  | .writeBitmap .. => Bool
  | _ => Unit

namespace Shared

/-- Both counts go down; the total has 32 bits. -/
def countTaken (s : Shared) (group : ℕ) : Shared :=
  { s with fs := { s.fs with
    groupFreeBlocks := update s.fs.groupFreeBlocks group (s.fs.groupFreeBlocks group - 1)
    freeBlocksCount := (s.fs.freeBlocksCount + (2 ^ 32 - 1)) % 2 ^ 32 } }

def countFreed (s : Shared) (group : ℕ) : Shared :=
  { s with fs := { s.fs with
    groupFreeBlocks := update s.fs.groupFreeBlocks group
      ((s.fs.groupFreeBlocks group + 1) % 2 ^ 16)
    freeBlocksCount := (s.fs.freeBlocksCount + 1) % 2 ^ 32 } }

def setBits (s : Shared) (bits : ℕ → ℕ → Bool) : Shared :=
  { s with fs := { s.fs with blockBits := bits } }

def record (s : Shared) (e : Event) : Shared := { s with log := s.log ++ [e] }

end Shared

/-- A step of processor `t` with a device that works; `none` if it has to wait. -/
def exec (t : ℕ) (s : Shared) : (o : Op) → Option (o.Ans × Shared)
  | .lock => if s.holder = none then some ((), { s with holder := some t }) else none
  | .unlock => some ((), { s with holder := none })
  | .loadFree => some (s.fs.freeBlocksCount, s)
  | .loadGroupFree group => some (s.fs.groupFreeBlocks group, s)
  | .countTaken group => some ((), s.countTaken group)
  | .countFreed group => some ((), s.countFreed group)
  | .readBitmap group => some (some (s.fs.blockBits group), s)
  | .writeBitmap group copy bit value =>
    some (true, s.setBits (update s.fs.blockBits group
      (update copy bit value)))
  | .deliver b => some ((), s.record (.returned b))
  | .invalidate b =>
    some ((), { s with fs := { s.fs with store := s.fs.store.forget b } }.record (.freed b))

/-- A device that does not work. A write fails when `flush_dirty` has dropped the
blocks that it could not write, so what the bitmaps are then is left open. -/
def Breaks (s : Shared) : (o : Op) → o.Ans → Shared → Prop
  | .readBitmap _, x, s' => x = none ∧ s' = s
  | .writeBitmap .., x, s' => x = false ∧ ∃ bits, s' = s.setBits bits
  | _, _, _ => False

abbrev BlockProg (α : Type) : Type := Prog Op Op.Ans α

abbrev op (o : Op) : BlockProg o.Ans := .act o .ret

/-- The end of an allocation: the bit is set in the copy, which is written back. -/
def commit (g : Geometry) (group : ℕ) (copy : ℕ → Bool) (bit : ℕ) :
    BlockProg (Except Errno ℕ) := do
  op (.countTaken group)
  op .unlock
  if ← op (.writeBitmap group copy bit true) then
    op (.deliver (g.blockAt group bit))
    return .ok (g.blockAt group bit)
  else return .error .eio

/-- The loop over the groups, each with the bit where its search starts. The lock is
held when the loop is entered. -/
def allocLoop (g : Geometry) : List (ℕ × ℕ) → BlockProg (Except Errno ℕ)
  | [] => do
    op .unlock
    return .error .enospc
  | (group, start) :: order => do
    let free ← op (.loadGroupFree group)
    if free = 0 then allocLoop g order
    else
      op .unlock
      match ← op (.readBitmap group) with
      | none => return .error .eio
      | some copy =>
        op .lock
        let free ← op (.loadGroupFree group)
        if free = 0 then allocLoop g order
        else match findFreeBitFrom copy start g.blocksPerGroup with
          | none => allocLoop g order
          | some bit => commit g group copy bit

/-- The common part of `alloc_block` and `alloc_block_near`. -/
def allocSteps (g : Geometry) (order : List (ℕ × ℕ)) : BlockProg (Except Errno ℕ) := do
  op .lock
  let free ← op .loadFree
  if free = 0 then
    op .unlock
    return .error .enospc
  else allocLoop g order

def allocBlock (g : Geometry) : BlockProg (Except Errno ℕ) :=
  allocSteps g ((List.range g.numGroups).map (·, 0))

def allocBlockNear (g : Geometry) (goal : ℕ) : BlockProg (Except Errno ℕ) :=
  allocSteps g ((List.range g.numGroups).map fun offset =>
    let group := (g.groupOf goal + offset) % g.numGroups
    (group, if group = g.groupOf goal then g.bitOf goal else 0))

/-- The part of `free_block` after the test that the group exists. -/
def release (group bit : ℕ) : BlockProg (Except Errno Unit) := do
  op .unlock
  match ← op (.readBitmap group) with
  | none => return .error .eio
  | some copy =>
    op .lock
    op (.countFreed group)
    op .unlock
    if ← op (.writeBitmap group copy bit false) then return .ok ()
    else return .error .eio

def freeBlock (g : Geometry) (b : ℕ) : BlockProg (Except Errno Unit) := do
  op (.invalidate b)
  op .lock
  if b < g.firstDataBlock ∨ g.numGroups ≤ g.groupOf b then
    op .unlock
    return .error .eio
  else release (g.groupOf b) (g.bitOf b)

/-- The calls that a processor makes. -/
inductive Call
  | alloc
  | allocNear (goal : ℕ)
  | free (b : ℕ)

def Call.prog (g : Geometry) : Call → BlockProg Unit
  | alloc => do discard (allocBlock g)
  | allocNear goal => do discard (allocBlockNear g goal)
  | free b => do discard (freeBlock g b)

/-- Calls on any number of processors, interleaved step by step. -/
def blockSystem (g : Geometry) : System Shared Call Op Op.Ans Unit where
  sem t _ s o x s' := exec t s o = some (x, s') ∨ Breaks s o x s'
  start := Call.prog g
  other _ _ := False

/-! ## A call that runs alone -/

section Alone

variable {g : Geometry} {t : ℕ} {s : Shared} {α : Type}

lemma exec_lock (h : s.holder = none) :
    exec t s .lock = some ((), { s with holder := some t }) := if_pos h

lemma run_op {s' : Shared} {o : Op} {k : o.Ans → BlockProg α} {x : o.Ans}
    (h : exec t s o = some (x, s')) : run (exec t) (op o >>= k) s = run (exec t) (k x) s' :=
  run_act h

/-- What an allocation returns and leaves behind if the search of the groups gives `found`. -/
def allocated (g : Geometry) (s : Shared) (found : Option (ℕ × ℕ)) : Except Errno ℕ × Shared :=
  match found with
  | none => (.error .enospc, { s with holder := none })
  | some (group, bit) => (.ok (g.blockAt group bit),
      { s with fs := s.fs.takeBlock group bit, holder := none }.record
        (.returned (g.blockAt group bit)))

lemma run_commit (hpos : 0 < s.fs.freeBlocksCount) (hlt : s.fs.freeBlocksCount < 2 ^ 32)
    (group bit : ℕ) :
    run (exec t) (commit g group (s.fs.blockBits group) bit) s =
      some (allocated g s (some (group, bit))) := by
  have hcount : (s.fs.freeBlocksCount + (2 ^ 32 - 1)) % 2 ^ 32 = s.fs.freeBlocksCount - 1 := by
    omega
  rw [allocated, Fs.takeBlock, ← hcount]
  rfl

lemma run_allocLoop (hpos : 0 < s.fs.freeBlocksCount) (hlt : s.fs.freeBlocksCount < 2 ^ 32)
    (hlock : s.holder = some t) (order : List (ℕ × ℕ)) :
    run (exec t) (allocLoop g order) s = some (allocated g s (findFreeBlock g s.fs order)) := by
  induction order with
  | nil => rfl
  | cons p order ih =>
    obtain ⟨group, start⟩ := p
    have hrelock : { s with holder := some t } = s := by rw [← hlock]
    rw [allocLoop, run_op rfl, findFreeBlock, findSome?_cons]
    dsimp only
    by_cases hfree : s.fs.groupFreeBlocks group = 0
    · rw [if_pos hfree, if_pos hfree]
      exact ih
    · rw [if_neg hfree, if_neg hfree, run_op rfl, run_op rfl]
      rw [run_op (exec_lock rfl), hrelock, run_op rfl, if_neg hfree]
      cases findFreeBitFrom (s.fs.blockBits group) start g.blocksPerGroup with
      | none => exact ih
      | some bit => exact run_commit hpos hlt group bit

variable {order : List (ℕ × ℕ)}

/-- The allocation of the file system in terms of its search. -/
lemma allocFrom_eq_allocated (hcount : s.fs.freeBlocksCount ≠ 0) :
    allocFrom g order s.fs =
      ((allocated g s (findFreeBlock g s.fs order)).1,
        (allocated g s (findFreeBlock g s.fs order)).2.fs) ∧
      (allocated g s (findFreeBlock g s.fs order)).2.holder = none := by
  simp only [allocFrom, bind, Fallible.bind, Fallible.get, if_neg hcount]
  cases findFreeBlock g s.fs order with
  | none | some found => exact ⟨rfl, rfl⟩

/-- An allocation that runs alone ends, and it is the one of the file system. -/
theorem allocSteps_alone (hlt : s.fs.freeBlocksCount < 2 ^ 32) (hfree : s.holder = none) :
    ∃ r s', run (exec t) (allocSteps g order) s = some (r, s') ∧
      allocFrom g order s.fs = (r, s'.fs) ∧ s'.holder = none := by
  rw [allocSteps, run_op (exec_lock hfree), run_op rfl]
  by_cases hcount : s.fs.freeBlocksCount = 0
  · rw [if_pos hcount]
    exact ⟨_, _, run_op rfl, congrFun (if_pos hcount) s.fs, rfl⟩
  · rw [if_neg hcount]
    exact ⟨_, _, @run_allocLoop g t { s with holder := some t } (pos_of_ne_zero hcount) hlt rfl
      order, @allocFrom_eq_allocated g { s with holder := some t } order hcount⟩

end Alone

/-! ## Calls that interleave -/

/-- The blocks that are in use as the callers see it. -/
def owned (g : Geometry) (boot : Fs) (log : List Event) : ℕ → Bool :=
  log.foldl (fun used e =>
    match e with
    | .returned b => update used b true
    | .freed b => update used b false) (boot.used g)

/-- Between two times that a block is returned, `free_block` is called for it. -/
def ReturnedOnce (log : List Event) : Prop :=
  ∀ b l₁ l₂ l₃, log = l₁ ++ .returned b :: (l₂ ++ .returned b :: l₃) → .freed b ∈ l₂

/-- A bitmap is still what the writer has read when it is written back, which
succeeds; `free_block` is called for a block in use. -/
def Undisturbed (g : Geometry) (boot : Fs) (s : Shared) : (o : Op) → o.Ans → Prop
  | .writeBitmap group copy _ _, ok => ok = true ∧ s.fs.blockBits group = copy
  | .invalidate b, _ => owned g boot s.log b = true
  | _, _ => True

/-- The runs in which every step is undisturbed. -/
def undisturbedSystem (g : Geometry) (boot : Fs) : System Shared Call Op Op.Ans Unit :=
  (blockSystem g).restrict (fun _ _ s o x => Undisturbed g boot s o x) fun _ _ => True

section Log

variable {g : Geometry} {boot : Fs} {log : List Event} {b : ℕ}

@[simp] lemma owned_returned : owned g boot (log ++ [.returned b]) =
    update (owned g boot log) b true := by
  rw [owned, foldl_append]
  rfl

@[simp] lemma owned_freed : owned g boot (log ++ [.freed b]) =
    update (owned g boot log) b false := by
  rw [owned, foldl_append]
  rfl

/-- A block that was returned and for which `free_block` was not called since. -/
lemma owned_of_returned {l₁ l₂ : List Event} (h : .freed b ∉ l₂) :
    owned g boot (l₁ ++ .returned b :: l₂) b = true := by
  induction l₂ using reverseRecOn with
  | nil => rw [owned_returned, update_self]
  | append_singleton l₂ e ih =>
    rw [mem_append, not_or, mem_singleton] at h
    rw [← cons_append, ← append_assoc]
    cases e with
    | returned b' =>
      by_cases hb : b = b'
      · rw [owned_returned, hb, update_self]
      · rw [owned_returned, update_of_ne hb]
        exact ih h.1
    | freed b' =>
      have hb : b ≠ b' := fun hb => h.2 (hb ▸ rfl)
      rw [owned_freed, update_of_ne hb]
      exact ih h.1

/-- An event that ends a log falls on the last block of a decomposition. -/
lemma ReturnedOnce.append {e : Event} (h : ReturnedOnce log)
    (hnew : ∀ b, e = .returned b → owned g boot log b = false) :
    ReturnedOnce (log ++ [e]) := by
  intro b l₁ l₂ l₃ heq
  induction l₃ using reverseRecOn with
  | nil =>
    rw [← cons_append, ← append_assoc] at heq
    obtain ⟨rfl, he⟩ := append_inj' heq rfl
    by_contra hfreed
    have howned := @owned_of_returned g boot b l₁ l₂ hfreed
    rw [hnew b (cons.inj he).1] at howned
    cases howned
  | append_singleton l₃ e' _ =>
    rw [← cons_append, ← append_assoc, ← cons_append, ← append_assoc] at heq
    obtain ⟨rfl, -⟩ := append_inj' heq rfl
    exact h b l₁ l₂ l₃ (by rw [append_assoc, cons_append])

end Log

/-- What holds in undisturbed runs. The token of a processor is a block that it has
in its hands: one that it has marked and not yet returned, or one that it is about
to clear. -/
structure Sound (g : Geometry) (boot : Fs) (s : Shared) (toks : ℕ → Option (Call × Option ℕ)) :
    Prop where
  owned : ∀ b, owned g boot s.log b = true → s.fs.used g b = true
  inHand : ∀ {t c b}, toks t = some (c, some b) →
    s.fs.used g b = true ∧ BlockSteps.owned g boot s.log b = false
  apart : ∀ {t u c c' b}, toks t = some (c, some b) → toks u = some (c', some b) → t = u
  once : ReturnedOnce s.log

namespace Sound

variable {g : Geometry} {boot : Fs} {s s' : Shared} {toks : ℕ → Option (Call × Option ℕ)} {t : ℕ}
  {c : Call} {tok tok' : Option ℕ}

/-- A step of one processor. What the others have in their hands is in use before
and after it. -/
lemma move (h : Sound g boot s toks) (ht : toks t = some (c, tok))
    (howned : ∀ b, BlockSteps.owned g boot s'.log b = true → s'.fs.used g b = true)
    (hself : ∀ b, tok' = some b → s'.fs.used g b = true ∧
      BlockSteps.owned g boot s'.log b = false ∧ ∀ u c', toks u = some (c', some b) → u = t)
    (hrest : ∀ b, tok ≠ some b → s.fs.used g b = true → BlockSteps.owned g boot s.log b = false →
      s'.fs.used g b = true ∧ BlockSteps.owned g boot s'.log b = false)
    (honce : ReturnedOnce s'.log) :
    Sound g boot s' (update toks t (some (c, tok'))) := by
  refine ⟨howned, fun {u d b} hu => ?_, fun {u v d d' b} hu hv => ?_, honce⟩
  · by_cases hut : u = t
    · rw [hut, update_self] at hu
      obtain ⟨hused, hnot, -⟩ := hself b (mk.inj (some.inj hu)).2
      exact ⟨hused, hnot⟩
    · rw [update_of_ne hut] at hu
      obtain ⟨hused, hnot⟩ := h.inHand hu
      refine hrest b (fun htok => hut ?_) hused hnot
      exact h.apart hu (htok ▸ ht)
  · by_cases hut : u = t
    · by_cases hvt : v = t
      · rw [hut, hvt]
      · rw [hut, update_self] at hu
        rw [update_of_ne hvt] at hv
        rw [hut, (hself b (mk.inj (some.inj hu)).2).2.2 v d' hv]
    · rw [update_of_ne hut] at hu
      by_cases hvt : v = t
      · rw [hvt, update_self] at hv
        rw [hvt, (hself b (mk.inj (some.inj hv)).2).2.2 u d hu]
      · rw [update_of_ne hvt] at hv
        exact h.apart hu hv

/-- A processor starts or stops with empty hands, or stops for good. -/
lemma spawn (h : Sound g boot s toks) (v : Option (Call × Option ℕ))
    (hv : ∀ d b, v ≠ some (d, some b)) : Sound g boot s (update toks t v) := by
  have hkeep : ∀ {u d b}, update toks t v u = some (d, some b) →
      toks u = some (d, some b) := by
    intro u d b hu
    by_cases hut : u = t
    · rw [hut, update_self] at hu
      exact absurd hu (hv d b)
    · rwa [update_of_ne hut] at hu
  exact ⟨h.owned, fun hu => h.inHand (hkeep hu), fun hu hu' => h.apart (hkeep hu) (hkeep hu'),
    h.once⟩

/-- A step that changes neither a bitmap nor what callers see. -/
lemma still (h : Sound g boot s toks) (ht : toks t = some (c, tok))
    (hbits : s'.fs.blockBits = s.fs.blockBits) (hlog : s'.log = s.log) :
    Sound g boot s' (update toks t (some (c, tok))) := by
  have hused : s'.fs.used g = s.fs.used g := by
    funext b
    rw [Fs.used, Fs.used, hbits]
  rw [update_eq_self_iff.mpr ht.symm]
  constructor
  · rw [hused, hlog]
    exact h.owned
  · rw [hused, hlog]
    exact h.inHand
  · exact h.apart
  · rw [hlog]
    exact h.once

variable {b : ℕ}

/-- A free bit is set and the block is in the hands of the processor. -/
lemma mark (h : Sound g boot s toks) (ht : toks t = some (c, none))
    (hfresh : s.fs.used g b = false)
    (hused : ∀ b', s'.fs.used g b' = (decide (b' = b) || s.fs.used g b')) (hlog : s'.log = s.log) :
    Sound g boot s' (update toks t (some (c, some b))) := by
  have hmono : ∀ b', s.fs.used g b' = true → s'.fs.used g b' = true := by
    intro b' hb'
    rw [hused, hb', Bool.or_true]
  refine h.move ht ?_ ?_ ?_ ?_
  · intro b' hb'
    rw [hlog] at hb'
    exact hmono b' (h.owned b' hb')
  · rintro b' ⟨⟩
    refine ⟨by simp [hused], ?_, fun u c' hu => ?_⟩
    · rw [hlog, Bool.eq_false_iff]
      intro hown
      rw [h.owned b hown] at hfresh
      cases hfresh
    · rw [(h.inHand hu).1] at hfresh
      cases hfresh
  · intro b' _ hb' hnot
    rw [hlog]
    exact ⟨hmono b' hb', hnot⟩
  · rw [hlog]
    exact h.once

/-- The bit of the block in the hands of the processor is cleared. -/
lemma clear (h : Sound g boot s toks) (ht : toks t = some (c, some b))
    (hused : ∀ b', s'.fs.used g b' = (decide (b' ≠ b) && s.fs.used g b')) (hlog : s'.log = s.log) :
    Sound g boot s' (update toks t (some (c, none))) := by
  have hkeep : ∀ b', b' ≠ b → s.fs.used g b' = true → s'.fs.used g b' = true := by
    intro b' hne hb'
    rw [hused, hb', decide_eq_true hne, Bool.and_true]
  refine h.move ht ?_ ?_ ?_ ?_
  · intro b' hb'
    rw [hlog] at hb'
    refine hkeep b' ?_ (h.owned b' hb')
    rintro rfl
    rw [(h.inHand ht).2] at hb'
    cases hb'
  · rintro b' ⟨⟩
  · intro b' hne hb' hnot
    rw [hlog]
    exact ⟨hkeep b' (fun heq => hne (heq ▸ rfl)) hb', hnot⟩
  · rw [hlog]
    exact h.once

/-- The block in the hands of the processor is returned. -/
lemma deliver (h : Sound g boot s toks) {b : ℕ} (ht : toks t = some (c, some b))
    (hfs : s'.fs = s.fs) (hlog : s'.log = s.log ++ [.returned b]) :
    Sound g boot s' (update toks t (some (c, none))) := by
  refine h.move ht ?_ ?_ ?_ ?_
  · intro b' hb'
    rw [hfs]
    by_cases hbb : b' = b
    · rw [hbb]
      exact (h.inHand ht).1
    · rw [hlog, owned_returned, update_of_ne hbb] at hb'
      exact h.owned b' hb'
  · rintro b' ⟨⟩
  · intro b' hne hb' hnot
    have hbb : b' ≠ b := fun heq => hne (heq ▸ rfl)
    rw [hfs, hlog, owned_returned, update_of_ne hbb]
    exact ⟨hb', hnot⟩
  · rw [hlog]
    refine @ReturnedOnce.append g boot _ _ h.once ?_
    rintro b' ⟨⟩
    exact (h.inHand ht).2

/-- `free_block` is called for a block in use. -/
lemma withdraw (h : Sound g boot s toks) (ht : toks t = some (c, none))
    (hown : BlockSteps.owned g boot s.log b = true) (hused : s'.fs.used g = s.fs.used g)
    (hlog : s'.log = s.log ++ [.freed b]) :
    Sound g boot s' (update toks t (some (c, some b))) := by
  refine h.move ht ?_ ?_ ?_ ?_
  · intro b' hb'
    rw [hused]
    by_cases hbb : b' = b
    · rw [hbb]
      exact h.owned b hown
    · rw [hlog, owned_freed, update_of_ne hbb] at hb'
      exact h.owned b' hb'
  · rintro b' ⟨⟩
    rw [hused, hlog, owned_freed, update_self]
    refine ⟨h.owned b hown, rfl, fun u c' hu => ?_⟩
    rw [(h.inHand hu).2] at hown
    cases hown
  · intro b' _ hb' hnot
    rw [hused, hlog, owned_freed]
    refine ⟨hb', ?_⟩
    rw [update_apply, hnot, ite_self]
  · rw [hlog]
    refine @ReturnedOnce.append g boot _ _ h.once ?_
    rintro b' ⟨⟩

end Sound

/-! ## Every call keeps the invariant -/

/-- A program that can be executed in undisturbed runs with the given token. -/
abbrev BlockSafe (g : Geometry) (boot : Fs) (c : Call) {α : Type} (p : BlockProg α)
    (Q : α → Option ℕ → Prop) (tok : Option ℕ) : Prop :=
  Safe (undisturbedSystem g boot) (Sound g boot) c p Q tok

/-- The steps that change neither a bitmap nor what callers see. -/
def Op.Quiet : Op → Prop
  | .writeBitmap .. => False
  | .deliver _ => False
  | .invalidate _ => False
  | _ => True

lemma Op.Quiet.keeps {o : Op} (hquiet : o.Quiet) {t : ℕ} {s s' : Shared} {x : o.Ans}
    (h : exec t s o = some (x, s') ∨ Breaks s o x s') :
    s'.fs.blockBits = s.fs.blockBits ∧ s'.log = s.log := by
  cases o with
  | lock =>
    rcases h with h | h
    · rw [exec] at h
      split_ifs at h
      obtain ⟨-, rfl⟩ := mk.inj (some.inj h)
      exact ⟨rfl, rfl⟩
    · exact h.elim
  | readBitmap group =>
    rcases h with h | ⟨-, rfl⟩
    · obtain ⟨-, rfl⟩ := mk.inj (some.inj h)
      exact ⟨rfl, rfl⟩
    · exact ⟨rfl, rfl⟩
  | unlock | loadFree | loadGroupFree _ | countTaken _ | countFreed _ =>
    rcases h with h | h
    · obtain ⟨-, rfl⟩ := mk.inj (some.inj h)
      exact ⟨rfl, rfl⟩
    · exact h.elim
  | writeBitmap | deliver | invalidate => exact hquiet.elim

namespace BlockSafe

variable {g : Geometry} {boot : Fs} {c : Call} {α : Type} {Q : α → Option ℕ → Prop}
  {tok : Option ℕ}

lemma quiet {o : Op} {k : o.Ans → BlockProg α} (ho : o.Quiet)
    (hk : ∀ x, BlockSafe g boot c (k x) Q tok) : BlockSafe g boot c (op o >>= k) Q tok := by
  rintro t s s' toks x hinv ht ⟨hsem, -⟩
  obtain ⟨hbits, hlog⟩ := ho.keeps hsem
  exact ⟨tok, hinv.still ht hbits hlog, hk x⟩

variable {group bit : ℕ} {copy : ℕ → Bool}

/-- What a write of a bitmap does in an undisturbed run. -/
lemma write_undisturbed {t : ℕ} {value : Bool} {s s' : Shared} {x : Bool}
    (h : (undisturbedSystem g boot).sem t c s (.writeBitmap group copy bit value) x s') :
    x = true ∧ s.fs.blockBits group = copy ∧ s' = s.setBits (update s.fs.blockBits group
      (update (s.fs.blockBits group) bit value)) := by
  obtain ⟨hsem, rfl, rfl⟩ := h
  rcases hsem with hsem | ⟨hfalse, -⟩
  · exact ⟨rfl, rfl, (mk.inj (some.inj hsem)).2.symm⟩
  · cases hfalse

variable {k : Bool → BlockProg α} {b : ℕ} {order : List (ℕ × ℕ)}

lemma mark (hgroup : group < g.numGroups) (hbit : bit < g.blocksPerGroup)
    (hfree : copy bit = false) (hk : BlockSafe g boot c (k true) Q (some (g.blockAt group bit))) :
    BlockSafe g boot c (op (.writeBitmap group copy bit true) >>= k) Q none := by
  intro t s s' toks x hinv ht hsem
  obtain ⟨rfl, rfl, rfl⟩ := write_undisturbed hsem
  have hgroupOf := @Geometry.groupOf_blockAt g group bit hbit
  have hbitOf := @Geometry.bitOf_blockAt g group bit hbit
  have hholds : g.Holds (g.blockAt group bit) := by
    refine ⟨?_, by rwa [hgroupOf]⟩
    unfold Geometry.blockAt
    omega
  refine ⟨_, hinv.mark ht ?_ (fun b' => ?_) rfl, hk⟩
  · rw [Fs.used, hgroupOf, hbitOf, hfree, Bool.and_false]
  · have htake := @Fs.used_takeBlock g s.fs _ hholds b'
    rw [hgroupOf, hbitOf] at htake
    exact htake

lemma clear (hb : g.Holds b) (hk : BlockSafe g boot c (k true) Q none) :
    BlockSafe g boot c (op (.writeBitmap (g.groupOf b) copy (g.bitOf b) false) >>= k) Q
      (some b) := by
  intro t s s' toks x hinv ht hsem
  obtain ⟨rfl, -, rfl⟩ := write_undisturbed hsem
  exact ⟨none, hinv.clear ht (Fs.used_releaseBlock hb) rfl, hk⟩

lemma deliver {b : ℕ} {k : Unit → BlockProg α} (hk : BlockSafe g boot c (k ()) Q none) :
    BlockSafe g boot c (op (.deliver b) >>= k) Q (some b) := by
  rintro t s s' toks x hinv ht ⟨hsem | hsem, -⟩
  · obtain ⟨-, rfl⟩ := mk.inj (some.inj hsem)
    exact ⟨none, hinv.deliver ht rfl rfl, hk⟩
  · exact hsem.elim

lemma invalidate {k : Unit → BlockProg α} (hk : BlockSafe g boot c (k ()) Q (some b)) :
    BlockSafe g boot c (op (.invalidate b) >>= k) Q none := by
  rintro t s s' toks x hinv ht ⟨hsem | hsem, hown⟩
  · obtain ⟨-, rfl⟩ := mk.inj (some.inj hsem)
    exact ⟨some b, hinv.withdraw ht hown rfl rfl, hk⟩
  · exact hsem.elim

lemma commit (hgroup : group < g.numGroups) (hbit : bit < g.blocksPerGroup)
    (hfree : copy bit = false) :
    BlockSafe g boot c (commit g group copy bit) (fun _ _ => True) none := by
  refine quiet trivial fun _ => quiet trivial fun _ => ?_
  exact mark hgroup hbit hfree (deliver trivial)

section

variable (horder : ∀ p ∈ order, p.1 < g.numGroups ∧ p.2 ≤ g.blocksPerGroup)
include horder

lemma allocLoop : BlockSafe g boot c (allocLoop g order) (fun _ _ => True) none := by
  induction order with
  | nil => exact quiet trivial fun _ => trivial
  | cons p order ih =>
    obtain ⟨group, start⟩ := p
    obtain ⟨hgroup, hstart⟩ := horder _ mem_cons_self
    have hrest := ih fun p hp => horder p (mem_cons_of_mem _ hp)
    refine quiet trivial fun free => ?_
    split_ifs
    · exact hrest
    · refine quiet trivial fun _ => quiet trivial fun read => ?_
      cases read with
      | none => trivial
      | some copy =>
        refine quiet trivial fun _ => quiet trivial fun free => ?_
        split_ifs
        · exact hrest
        · cases hfind : findFreeBitFrom copy start g.blocksPerGroup with
          | none => exact hrest
          | some bit =>
            obtain ⟨hbit, hfree⟩ := findFreeBitFrom_spec hstart hfind
            exact commit hgroup hbit hfree

lemma allocSteps : BlockSafe g boot c (allocSteps g order) (fun _ _ => True) none := by
  refine quiet trivial fun _ => quiet trivial fun free => ?_
  split_ifs
  · exact quiet trivial fun _ => trivial
  · exact allocLoop horder

end

lemma freeBlock (b : ℕ) :
    BlockSafe g boot c (freeBlock g b) (fun _ _ => True) none := by
  refine invalidate (quiet trivial fun _ => ?_)
  split_ifs with hrange
  · exact quiet trivial fun _ => trivial
  · refine quiet trivial fun _ => quiet trivial fun read => ?_
    cases read with
    | none => trivial
    | some copy =>
      refine quiet trivial fun _ => quiet trivial fun _ => quiet trivial fun _ => ?_
      exact clear ⟨by omega, by omega⟩ trivial

lemma prog (c : Call) : BlockSafe g boot c (c.prog g) (fun _ _ => True) none := by
  cases c with
  | alloc => exact (allocSteps (scan_in_range g)).bind
  | allocNear goal => exact (allocSteps (scan_near_in_range g goal)).bind
  | free b => exact (freeBlock b).bind

end BlockSafe

/-- The blocks in the hands of processors as a discipline for undisturbed runs. -/
def undisturbedDiscipline (g : Geometry) (boot : Fs) :
    Discipline (undisturbedSystem g boot) (Option ℕ) where
  inv := Sound g boot
  init := none
  done _ := True
  inv_spawn c hinv _ := hinv.spawn _ (by simp)
  inv_exit hinv _ _ := hinv.spawn _ (by simp)
  inv_other _ hother := hother.1.elim
  safe_start := BlockSafe.prog

/-- In undisturbed runs no block is returned twice without a `free_block` of it in
between. -/
theorem returnedOnce_of_undisturbed {g : Geometry} {boot : Fs} {s : Shared}
    {pool : Pool Call Op Op.Ans Unit}
    (h : (undisturbedSystem g boot).Reaches (Shared.start boot) s pool) : ReturnedOnce s.log := by
  have hstart : Sound g boot (Shared.start boot) fun _ => none :=
    ⟨fun b hb => hb, by simp, by simp, by simp [ReturnedOnce, Shared.start]⟩
  obtain ⟨toks, hinv, -⟩ := (undisturbedDiscipline g boot).reaches hstart h
  exact hinv.once

/-! ## Two calls at once -/

/-- A file system of one group of eight blocks, all of them free. -/
def oneGroup : Geometry where
  logBlockSize := 0
  firstDataBlock := 1
  blocksPerGroup := 8
  inodesPerGroup := 8
  numGroups := 1
  hasExtents := false
  logBlockSize_le := by decide
  blocksPerGroup_pos := by decide
  inodesPerGroup_pos := by decide
  fits := by decide

def eightFree : Fs where
  store := { dirty := fun _ => none, device := fun _ => ByteBuffer.zeros }
  blockBits _ _ := false
  groupFreeBlocks _ := 8
  freeBlocksCount := 8
  inodeBits _ _ := false
  groupFreeInodes _ := 8
  freeInodesCount := 8
  inodes _ := Inode.zero
  freed := []

/-- The same after its first block was taken. -/
def sevenFree : Fs := eightFree.takeBlock 0 0

theorem allocSteps_alone_sevenFree : ∃ s' : Shared,
    run (exec 0) (allocSteps oneGroup [(0, 0)]) (.start sevenFree) = some (.ok 2, s') ∧
    allocFrom oneGroup [(0, 0)] sevenFree = (.ok 2, s'.fs) ∧ s'.holder = none := by
  obtain ⟨r, s', hrun, halloc, hfree⟩ := @allocSteps_alone oneGroup 0 (.start sevenFree) [(0, 0)]
    (by decide) rfl
  obtain rfl : Except.ok 2 = r := congrArg fst halloc
  exact ⟨s', hrun, halloc, hfree⟩

/-- Processors 0 and 1 have called `alloc_block`. -/
def twoAllocs : Pool Call Op Op.Ans Unit :=
  update (update (fun _ => none) 0 (some (.alloc, Call.alloc.prog oneGroup)))
    1 (some (.alloc, Call.alloc.prog oneGroup))

/-- Both read the bitmap, then each one takes its block. -/
def bothRead : List ℕ :=
  List.replicate 5 0 ++ List.replicate 5 1 ++ List.replicate 6 0 ++ List.replicate 6 1

lemma reaches_twoAllocs :
    (blockSystem oneGroup).Reaches (Shared.start eightFree) (Shared.start eightFree) twoAllocs :=
  (Relation.ReflTransGen.refl.tail (.spawn 0 Call.alloc rfl)).tail (.spawn 1 Call.alloc rfl)

/-- Two calls that read the bitmap before either has written it return one block. -/
theorem allocBlock_returns_block_twice : ∃ s pool,
    (blockSystem oneGroup).Reaches (Shared.start eightFree) s pool ∧
    s.log = [.returned 1, .returned 1] ∧ ¬ReturnedOnce s.log := by
  have hplay : (System.play exec bothRead (Shared.start eightFree, twoAllocs)).map (·.1.log) =
      some [.returned 1, .returned 1] := by decide
  obtain ⟨⟨s, pool⟩, hcfg, hlog⟩ := map_eq_some_iff.mp hplay
  have hsteps := @System.play_steps _ _ _ _ _ (blockSystem oneGroup) exec
    (fun t c s o x s' h => .inl h) _ _ _ hcfg
  refine ⟨s, pool, reaches_twoAllocs.trans hsteps, hlog, fun honce => ?_⟩
  have hmem := honce 1 [] [] [] hlog
  cases hmem

lemma undisturbed_step {g : Geometry} {boot : Fs} {s₀ s s' : Shared}
    {pool : Pool Call Op Op.Ans Unit} (t : ℕ) {c : Call} {o : Op} {next : o.Ans → BlockProg Unit}
    {x : o.Ans} (h : (undisturbedSystem g boot).Reaches s₀ s pool)
    (hpool : pool t = some (c, .act o next)) (hexec : exec t s o = some (x, s'))
    (hok : Undisturbed g boot s o x) :
    (undisturbedSystem g boot).Reaches s₀ s' (update pool t (some (c, next x))) :=
  h.tail (.act t x hpool ⟨.inl hexec, hok⟩)

/-- Two calls, one after the other. -/
theorem returnedOnce_two_calls : ∃ s pool,
    (undisturbedSystem oneGroup eightFree).Reaches (Shared.start eightFree) s pool ∧
    s.log = [.returned 1, .returned 2] ∧ ReturnedOnce s.log := by
  have h : (undisturbedSystem oneGroup eightFree).Reaches (Shared.start eightFree)
      (Shared.start eightFree) _ := .refl
  replace h := h.tail (.spawn 0 .alloc rfl)
  -- up to the bitmap, which is written back as it was read
  iterate 9 replace h := undisturbed_step 0 h rfl rfl trivial
  replace h := undisturbed_step 0 h rfl rfl ⟨rfl, rfl⟩
  replace h := undisturbed_step 0 h rfl rfl trivial
  replace h := h.tail (.spawn 1 .alloc rfl)
  iterate 9 replace h := undisturbed_step 1 h rfl rfl trivial
  replace h := undisturbed_step 1 h rfl rfl ⟨rfl, rfl⟩
  replace h := undisturbed_step 1 h rfl rfl trivial
  exact ⟨_, _, h, rfl, returnedOnce_of_undisturbed h⟩

end Kevlar.Ext2.BlockSteps
