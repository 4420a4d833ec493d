import Kevlar.ByteBuffer
import Kevlar.FallibleState

/-!
# Blocks, bitmaps and inodes of an ext2 file system

Blocks are written to a cache of dirty blocks and reach the device when it is
flushed. A freed block is dropped from the cache, so what it holds afterwards is
whatever the device had there. The block bitmap, the inode bitmap and the inode
table are kept apart from the blocks of files; the device does not fail.

`freed` records the blocks that were given back to the block bitmap; it is not
stored anywhere.
-/
namespace Kevlar.Ext2
open Nat Fallible Function List ByteBuffer

inductive Errno
  | eio
  | enospc
  | enoent
  | eexist
  | eperm
  | eisdir
  | enotdir
  | enotempty
  | einval
  | exdev
  | efbig
  deriving Repr, DecidableEq

/-- What the superblock says; block numbers have 32 bits. -/
structure Geometry where
  logBlockSize : ℕ
  firstDataBlock : ℕ
  blocksPerGroup : ℕ
  inodesPerGroup : ℕ
  numGroups : ℕ
  hasExtents : Bool
  logBlockSize_le : logBlockSize ≤ 5
  blocksPerGroup_pos : 0 < blocksPerGroup
  inodesPerGroup_pos : 0 < inodesPerGroup
  fits : firstDataBlock + numGroups * blocksPerGroup ≤ 2 ^ 32

namespace Geometry

def blockSize (g : Geometry) : ℕ := 1024 * 2 ^ g.logBlockSize

/-- The group of a block and its bit there. -/
def groupOf (g : Geometry) (b : ℕ) : ℕ := (b - g.firstDataBlock) / g.blocksPerGroup

def bitOf (g : Geometry) (b : ℕ) : ℕ := (b - g.firstDataBlock) % g.blocksPerGroup

/-- The block of a bit of a group. -/
def blockAt (g : Geometry) (group bit : ℕ) : ℕ :=
  group * g.blocksPerGroup + g.firstDataBlock + bit

/-- The blocks that the bitmaps speak of. -/
def Holds (g : Geometry) (b : ℕ) : Prop := g.firstDataBlock ≤ b ∧ g.groupOf b < g.numGroups

lemma blockSize_ge (g : Geometry) : 1024 ≤ g.blockSize :=
  Nat.le_mul_of_pos_right _ (Nat.two_pow_pos _)

lemma blockSize_le (g : Geometry) : g.blockSize ≤ 32768 :=
  Nat.mul_le_mul_left 1024 (Nat.pow_le_pow_right (by norm_num) g.logBlockSize_le)

lemma groupOf_blockAt (g : Geometry) {group bit : ℕ} (h : bit < g.blocksPerGroup) :
    g.groupOf (g.blockAt group bit) = group := by
  have hsub : g.blockAt group bit - g.firstDataBlock = bit + group * g.blocksPerGroup := by
    unfold blockAt
    omega
  rw [groupOf, hsub, add_mul_div_right _ _ g.blocksPerGroup_pos, div_eq_of_lt h, zero_add]

lemma bitOf_blockAt (g : Geometry) {group bit : ℕ} (h : bit < g.blocksPerGroup) :
    g.bitOf (g.blockAt group bit) = bit := by
  have hsub : g.blockAt group bit - g.firstDataBlock = bit + group * g.blocksPerGroup := by
    unfold blockAt
    omega
  rw [bitOf, hsub, add_mul_mod_self_right, mod_eq_of_lt h]

lemma blockAt_groupOf (g : Geometry) {b : ℕ} (h : g.firstDataBlock ≤ b) :
    g.blockAt (g.groupOf b) (g.bitOf b) = b := by
  have hdiv := div_add_mod (b - g.firstDataBlock) g.blocksPerGroup
  rw [mul_comm] at hdiv
  unfold blockAt groupOf bitOf
  omega

lemma Holds.lt {g : Geometry} {b : ℕ} (h : g.Holds b) : b < 2 ^ 32 := by
  have hb := g.blockAt_groupOf h.1
  have hbit : g.bitOf b < g.blocksPerGroup := mod_lt _ g.blocksPerGroup_pos
  have hgroup : (g.groupOf b + 1) * g.blocksPerGroup ≤ g.numGroups * g.blocksPerGroup :=
    mul_le_mul_right _ h.2
  have hfits := g.fits
  rw [add_mul] at hgroup
  unfold blockAt at hb
  omega

end Geometry

/-- The write-back cache and the device below it. -/
structure Store where
  dirty : ℕ → Option Bytes
  device : ℕ → Bytes

namespace Store

def read (store : Store) (b : ℕ) : Bytes := (store.dirty b).getD (store.device b)

def write (store : Store) (b : ℕ) (data : Bytes) : Store :=
  { store with dirty := update store.dirty b (some data) }

/-- Drop what is cached of a block. -/
def forget (store : Store) (b : ℕ) : Store :=
  { store with dirty := update store.dirty b none }

@[simp] lemma read_write_self (store : Store) (b : ℕ) (data : Bytes) :
    (store.write b data).read b = data := by
  simp [read, write]

lemma read_write_of_ne {store : Store} {b b' : ℕ} {data : Bytes} (h : b' ≠ b) :
    (store.write b data).read b' = store.read b' := by
  simp [read, write, update_of_ne h]

lemma read_forget_of_ne {store : Store} {b b' : ℕ} (h : b' ≠ b) :
    (store.forget b).read b' = store.read b' := by
  simp [read, forget, update_of_ne h]

end Store

inductive InodeKind
  | unused
  | regular
  | directory
  | symlink
  | socket
  deriving Repr, DecidableEq

/-- `Ext2Inode`. The area `i_block` is kept as its 60 bytes: fifteen block pointers,
the root of an extent tree or the text of a short symbolic link. -/
structure Inode where
  kind : InodeKind
  fileSize : ℕ
  linksCount : ℕ
  blocks : ℕ
  usesExtents : Bool
  block : Bytes

/-- The inode that `alloc_inode` writes. -/
def Inode.zero : Inode where
  kind := .unused
  fileSize := 0
  linksCount := 0
  blocks := 0
  usesExtents := false
  block := zeros

/-- Only the block area and the block count differ. -/
structure SameFile (inode inode' : Inode) : Prop where
  kind : inode'.kind = inode.kind
  fileSize : inode'.fileSize = inode.fileSize
  linksCount : inode'.linksCount = inode.linksCount
  usesExtents : inode'.usesExtents = inode.usesExtents

structure Fs where
  store : Store
  blockBits : ℕ → ℕ → Bool
  groupFreeBlocks : ℕ → ℕ
  freeBlocksCount : ℕ
  inodeBits : ℕ → ℕ → Bool
  groupFreeInodes : ℕ → ℕ
  freeInodesCount : ℕ
  inodes : ℕ → Inode
  freed : List ℕ

abbrev FsM (α : Type) : Type := Fallible Errno Fs α

namespace Fs

/-- The bit of a block in the block bitmap. -/
def used (g : Geometry) (s : Fs) (b : ℕ) : Bool :=
  decide (g.firstDataBlock ≤ b) && s.blockBits (g.groupOf b) (g.bitOf b)

/-- Set a bit of the block bitmap and count the block. -/
def takeBlock (s : Fs) (group bit : ℕ) : Fs :=
  { s with
    blockBits := update s.blockBits group
      (update (s.blockBits group) bit true)
    groupFreeBlocks := update s.groupFreeBlocks group (s.groupFreeBlocks group - 1)
    freeBlocksCount := s.freeBlocksCount - 1 }

/-- Clear a bit of the block bitmap and count the block. -/
def releaseBlock (s : Fs) (group bit b : ℕ) : Fs :=
  { s with
    blockBits := update s.blockBits group
      (update (s.blockBits group) bit false)
    groupFreeBlocks := update s.groupFreeBlocks group
      ((s.groupFreeBlocks group + 1) % 2 ^ 16)
    freeBlocksCount := (s.freeBlocksCount + 1) % 2 ^ 32
    freed := s.freed ++ [b] }

end Fs

/-- `find_free_bit_from`. -/
def findFreeBitFrom (bits : ℕ → Bool) (start max : ℕ) : Option ℕ :=
  (List.range' start (max - start) ++ List.range start).find? fun bit => !bits bit

/-- The first free bit of the groups in the given order, each searched from its own
start. -/
def findFreeBlock (g : Geometry) (s : Fs) (order : List (ℕ × ℕ)) : Option (ℕ × ℕ) :=
  order.findSome? fun (group, start) =>
    if s.groupFreeBlocks group = 0 then none
    else (findFreeBitFrom (s.blockBits group) start g.blocksPerGroup).map (group, ·)

/-- The common part of `alloc_block` and `alloc_block_near`. -/
def allocFrom (g : Geometry) (order : List (ℕ × ℕ)) : FsM ℕ := do
  let s ← Fallible.get
  if s.freeBlocksCount = 0 then Fallible.throw .enospc
  else match findFreeBlock g s order with
    | some (group, bit) =>
      Fallible.modify fun s => s.takeBlock group bit
      return g.blockAt group bit
    | none => Fallible.throw .enospc

def allocBlock (g : Geometry) : FsM ℕ :=
  allocFrom g ((List.range g.numGroups).map (·, 0))

/-- `alloc_block_near`: the group of the goal first, from the goal on. -/
def allocBlockNear (g : Geometry) (goal : ℕ) : FsM ℕ :=
  allocFrom g ((List.range g.numGroups).map fun offset =>
    let group := (g.groupOf goal + offset) % g.numGroups
    (group, if group = g.groupOf goal then g.bitOf goal else 0))

/-- `free_block`. A number below the first block wraps and is out of range as well. -/
def freeBlock (g : Geometry) (b : ℕ) : FsM Unit := do
  Fallible.modify fun s => { s with store := s.store.forget b }
  if b < g.firstDataBlock ∨ g.numGroups ≤ g.groupOf b then Fallible.throw .eio
  else Fallible.modify fun s => s.releaseBlock (g.groupOf b) (g.bitOf b) b

def readBlock (b : ℕ) : FsM Bytes := do
  return (← Fallible.get).store.read b

def writeBlock (b : ℕ) (data : Bytes) : FsM Unit :=
  Fallible.modify fun s => { s with store := s.store.write b data }

/-! ## What the block allocator does -/

namespace Fs

variable {g : Geometry} {s : Fs}

/-- A changed bit of one block does not show at another block. -/
lemma update_bit_of_ne {b b' : ℕ} (hb : g.Holds b) (hlow : g.firstDataBlock ≤ b')
    (hbb : b' ≠ b) (bits : ℕ → ℕ → Bool) (v : Bool) :
    update bits (g.groupOf b) (update (bits (g.groupOf b)) (g.bitOf b) v) (g.groupOf b')
      (g.bitOf b') = bits (g.groupOf b') (g.bitOf b') := by
  by_cases hgroup : g.groupOf b' = g.groupOf b
  · have hbit : g.bitOf b' ≠ g.bitOf b := by
      intro hbit
      refine hbb ?_
      rw [← g.blockAt_groupOf hlow, hgroup, hbit, g.blockAt_groupOf hb.1]
    rw [hgroup, update_self, update_of_ne hbit]
  · rw [update_of_ne hgroup]

lemma used_takeBlock {b : ℕ} (hb : g.Holds b) (b' : ℕ) :
    (s.takeBlock (g.groupOf b) (g.bitOf b)).used g b' = (decide (b' = b) || s.used g b') := by
  by_cases hlow : g.firstDataBlock ≤ b'
  · by_cases hbb : b' = b
    · subst hbb
      simp [used, takeBlock, hlow]
    · simp [used, takeBlock, hbb, update_bit_of_ne hb hlow hbb]
  · have hbb : b' ≠ b := fun h => hlow (h ▸ hb.1)
    simp [used, hlow, hbb]

lemma used_releaseBlock {b : ℕ} (hb : g.Holds b) (b' : ℕ) :
    (s.releaseBlock (g.groupOf b) (g.bitOf b) b).used g b' =
      (decide (b' ≠ b) && s.used g b') := by
  by_cases hlow : g.firstDataBlock ≤ b'
  · by_cases hbb : b' = b
    · subst hbb
      simp [used, releaseBlock]
    · simp [used, releaseBlock, hbb, update_bit_of_ne hb hlow hbb]
  · simp [used, hlow]

end Fs

/-- A block that was free is taken. -/
structure Taken (g : Geometry) (s : Fs) (b : ℕ) (s' : Fs) : Prop where
  holds : g.Holds b
  fresh : s.used g b = false
  eq : s' = s.takeBlock (g.groupOf b) (g.bitOf b)

/-- A block is given back and its contents are forgotten. -/
structure Released (g : Geometry) (s : Fs) (b : ℕ) (s' : Fs) : Prop where
  holds : g.Holds b
  eq : s' = { s with store := s.store.forget b }.releaseBlock (g.groupOf b) (g.bitOf b) b

/-- A block is written. -/
structure Written (s : Fs) (b : ℕ) (data : Bytes) (s' : Fs) : Prop where
  eq : s' = { s with store := s.store.write b data }

lemma findFreeBitFrom_spec {bits : ℕ → Bool} {start max bit : ℕ} (hstart : start ≤ max)
    (h : findFreeBitFrom bits start max = some bit) : bit < max ∧ bits bit = false := by
  have hmem := mem_of_find?_eq_some h
  have hfree := find?_some h
  rw [mem_append, mem_range'_1, mem_range] at hmem
  exact ⟨by omega, by simpa using hfree⟩

variable {g : Geometry} {s : Fs} {b : ℕ}

lemma taken_of_allocFrom {order : List (ℕ × ℕ)} {s' : Fs}
    (horder : ∀ p ∈ order, p.1 < g.numGroups ∧ p.2 ≤ g.blocksPerGroup)
    (h : (allocFrom g order).Returns s b s') : Taken g s b s' := by
  rw [allocFrom, returns_get_bind] at h
  split_ifs at h
  · exact (returns_throw.mp h).elim
  · cases hfind : findFreeBlock g s order with
    | none => simp only [hfind, returns_throw] at h
    | some found =>
      obtain ⟨group, bit⟩ := found
      simp only [hfind, returns_modify_bind, returns_pure] at h
      obtain ⟨rfl, rfl⟩ := h
      obtain ⟨⟨group', start⟩, hmem, hbit⟩ := exists_of_findSome?_eq_some hfind
      obtain ⟨hgroup, hstart⟩ := horder _ hmem
      dsimp only at hbit hgroup hstart
      split_ifs at hbit
      obtain ⟨bit', hbit', heq⟩ := Option.map_eq_some_iff.mp hbit
      obtain ⟨rfl, rfl⟩ := Prod.mk.inj heq
      obtain ⟨hlt, hfree⟩ := findFreeBitFrom_spec hstart hbit'
      have hgroupOf := @Geometry.groupOf_blockAt g group' _ hlt
      have hbitOf := @Geometry.bitOf_blockAt g group' _ hlt
      refine ⟨⟨?_, ?_⟩, ?_, ?_⟩
      · unfold Geometry.blockAt
        omega
      · rw [hgroupOf]
        exact hgroup
      · rw [Fs.used, hgroupOf, hbitOf, hfree, Bool.and_false]
      · rw [hgroupOf, hbitOf]

lemma ends_allocFrom {order : List (ℕ × ℕ)}
    (horder : ∀ p ∈ order, p.1 < g.numGroups ∧ p.2 ≤ g.blocksPerGroup) :
    (allocFrom g order).Ends s (fun b s' => Taken g s b s') (fun _ s' => s' = s) := by
  refine ends_of (fun b s' h => taken_of_allocFrom horder h) fun e s' h => ?_
  rw [allocFrom, fails_get_bind] at h
  split_ifs at h
  · exact (fails_throw.mp h).2
  · cases hfind : findFreeBlock g s order with
    | none =>
      simp only [hfind, fails_throw] at h
      exact h.2
    | some found =>
      simp only [hfind] at h
      cases h

/-- The groups that `alloc_block` searches. -/
lemma scan_in_range (g : Geometry) : ∀ p ∈ (range g.numGroups).map (·, 0),
    p.1 < g.numGroups ∧ p.2 ≤ g.blocksPerGroup := by
  intro p hp
  obtain ⟨group, hgroup, rfl⟩ := mem_map.mp hp
  exact ⟨mem_range.mp hgroup, zero_le _⟩

/-- The groups that `alloc_block_near` searches. -/
lemma scan_near_in_range (g : Geometry) (goal : ℕ) :
    ∀ p ∈ (range g.numGroups).map (fun offset =>
      let group := (g.groupOf goal + offset) % g.numGroups
      (group, if group = g.groupOf goal then g.bitOf goal else 0)),
    p.1 < g.numGroups ∧ p.2 ≤ g.blocksPerGroup := by
  intro p hp
  obtain ⟨offset, hoffset, rfl⟩ := mem_map.mp hp
  have hpos : 0 < g.numGroups := zero_lt_of_lt (mem_range.mp hoffset)
  refine ⟨mod_lt _ hpos, ?_⟩
  dsimp only
  split_ifs
  · exact (mod_lt _ g.blocksPerGroup_pos).le
  · exact zero_le _

lemma ends_allocBlock (g : Geometry) (s : Fs) :
    (allocBlock g).Ends s (fun b s' => Taken g s b s') (fun _ s' => s' = s) :=
  ends_allocFrom (scan_in_range g)

lemma ends_allocBlockNear (g : Geometry) (goal : ℕ) (s : Fs) :
    (allocBlockNear g goal).Ends s (fun b s' => Taken g s b s') (fun _ s' => s' = s) :=
  ends_allocFrom (scan_near_in_range g goal)

lemma returns_freeBlock {s' : Fs} {u : Unit} :
    (freeBlock g b).Returns s u s' ↔ Released g s b s' := by
  rw [freeBlock, returns_modify_bind]
  split_ifs with hrange
  · rw [returns_throw, false_iff]
    rintro ⟨⟨hlow, hgroup⟩, -⟩
    omega
  · rw [returns_modify]
    exact ⟨fun h => ⟨⟨by omega, by omega⟩, h⟩, fun h => h.eq⟩

lemma ends_freeBlock (s : Fs) (hb : g.Holds b) :
    (freeBlock g b).Ends s (fun _ s' => Released g s b s') (fun _ _ => False) := by
  refine ends_of (fun _ s' h => returns_freeBlock.mp h) fun e s' h => ?_
  obtain ⟨hlow, hgroup⟩ := hb
  have hrange : ¬(b < g.firstDataBlock ∨ g.numGroups ≤ g.groupOf b) := by omega
  rw [freeBlock, if_neg hrange] at h
  cases h

lemma ends_readBlock_bind {α : Type} {f : Bytes → FsM α} {Q : α → Fs → Prop}
    {R : Errno → Fs → Prop} (h : (f (s.store.read b)).Ends s Q R) :
    (readBlock b >>= f).Ends s Q R := h

lemma ends_writeBlock (b : ℕ) (data : Bytes) (s : Fs) :
    (writeBlock b data).Ends s (fun _ s' => Written s b data s') (fun _ _ => False) :=
  Written.mk rfl

/-! ## What stays as it is -/

/-- Blocks in use stay in use and keep their contents, those of `B` apart. -/
def Frame (g : Geometry) (B : List ℕ) (s s' : Fs) : Prop :=
  ∀ b, b ∉ B → s.used g b = true → s'.used g b = true ∧ s'.store.read b = s.store.read b

/-- A block is in use that was free before. -/
structure Gained (g : Geometry) (s : Fs) (b : ℕ) (s' : Fs) : Prop where
  holds : g.Holds b
  fresh : s.used g b = false
  used : s'.used g b = true

/-- Block zero is not handed out. -/
def Reserved (g : Geometry) (s : Fs) : Prop := 0 < g.firstDataBlock ∨ s.used g 0 = true

section Frame

variable {g : Geometry} {B : List ℕ} {s u s' : Fs} {b : ℕ}

lemma Frame.refl (g : Geometry) (B : List ℕ) (s : Fs) : Frame g B s s :=
  fun _ _ hused => ⟨hused, rfl⟩

lemma Frame.trans (h : Frame g B s u) (h' : Frame g B u s') : Frame g B s s' := by
  intro b hb hused
  obtain ⟨hused', hread⟩ := h b hb hused
  obtain ⟨hused'', hread'⟩ := h' b hb hused'
  exact ⟨hused'', hread'.trans hread⟩

lemma Frame.mono {B' : List ℕ} (h : Frame g B s s') (hB : B ⊆ B') : Frame g B' s s' :=
  fun b hb hused => h b (fun hmem => hb (hB hmem)) hused

lemma Taken.used_self (h : Taken g s b s') : s'.used g b = true := by
  rw [h.eq, Fs.used_takeBlock h.holds, decide_eq_true rfl, Bool.true_or]

lemma Taken.gained (h : Taken g s b s') : Gained g s b s' :=
  ⟨h.holds, h.fresh, h.used_self⟩

lemma Taken.frame (h : Taken g s b s') : Frame g B s s' := by
  intro b' _ hused
  rw [h.eq, Fs.used_takeBlock h.holds, hused, Bool.or_true]
  exact ⟨rfl, rfl⟩

lemma Released.frame (h : Released g s b s') : Frame g [b] s s' := by
  intro b' hb' hused
  have hne : b' ≠ b := fun heq => hb' (heq ▸ mem_singleton_self b')
  rw [h.eq, Fs.used_releaseBlock h.holds, decide_eq_true hne, Bool.true_and]
  exact ⟨hused, Store.read_forget_of_ne hne⟩

/-- A block taken and given back again. -/
lemma Frame.taken_released (h : Taken g s b u) (h' : Released g u b s') : Frame g B s s' := by
  intro b' hb' hused
  have hne : b' ≠ b := by
    rintro rfl
    rw [h.fresh] at hused
    cases hused
  obtain ⟨hused', hread⟩ := h.frame b' hb' hused
  obtain ⟨hused'', hread'⟩ := h'.frame b' (by simpa using hne) hused'
  exact ⟨hused'', hread'.trans hread⟩

variable {data : Bytes}

lemma Written.used (h : Written s b data s') (b' : ℕ) :
    s'.used g b' = s.used g b' := by
  rw [h.eq]
  rfl

lemma Written.read_self (h : Written s b data s') : s'.store.read b = data := by
  rw [h.eq]
  exact Store.read_write_self _ _ _

lemma Written.read_of_ne {b' : ℕ} (h : Written s b data s') (hne : b' ≠ b) :
    s'.store.read b' = s.store.read b' := by
  rw [h.eq]
  exact Store.read_write_of_ne hne

lemma Written.frame (h : Written s b data s') : Frame g [b] s s' := by
  intro b' hb' hused
  exact ⟨(h.used b').trans hused, h.read_of_ne (by simpa using hb')⟩

/-- What happens to free blocks does not matter. -/
lemma Frame.fresh_of (h : Frame g [b] u s') (hframe : Frame g B s u)
    (hfresh : s.used g b = false) : Frame g B s s' := by
  intro b' hb' hused
  have hne : b' ≠ b := by
    rintro rfl
    rw [hfresh] at hused
    cases hused
  obtain ⟨hused', hread⟩ := hframe b' hb' hused
  obtain ⟨hused'', hread'⟩ := h b' (by simpa using hne) hused'
  exact ⟨hused'', hread'.trans hread⟩

lemma Frame.fresh (h : Frame g [] s s') (hb : s'.used g b = false) : s.used g b = false := by
  cases hused : s.used g b with
  | false => rfl
  | true =>
    rw [(h b not_mem_nil hused).1] at hb
    cases hb

lemma Frame.gained (h : Frame g [] s u) (hb : Gained g u b s') : Gained g s b s' :=
  ⟨hb.holds, h.fresh hb.fresh, hb.used⟩

lemma Gained.frame (h : Gained g s b u) (h' : Frame g [] u s') : Gained g s b s' :=
  ⟨h.holds, h.fresh, (h' b not_mem_nil h.used).1⟩

lemma Gained.ne {b' : ℕ} (h : Gained g s b s') (hb' : s.used g b' = true) : b ≠ b' := by
  rintro rfl
  rw [h.fresh] at hb'
  cases hb'

lemma Gained.ne_zero (h : Gained g s b s') (hzero : Reserved g s) : b ≠ 0 := by
  rcases hzero with hfirst | hused
  · have hlow := h.holds.1
    omega
  · exact h.ne hused

lemma Reserved.frame (hzero : Reserved g s) (h : Frame g B s s') (hB : 0 ∉ B) :
    Reserved g s' := by
  rcases hzero with hfirst | hused
  · exact .inl hfirst
  · exact .inr (h 0 hB hused).1

end Frame

end Kevlar.Ext2
