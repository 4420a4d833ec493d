import Kevlar.ExtentPruning

/-!
# Extent trees built by allocation and truncation

A tree starts as the empty root of a new inode and changes by allocations and
truncations; in between anything may happen to the disk that leaves the leaves of
the tree alone. Lookup never fails exactly if the root is a leaf or its first key
is zero.
-/
namespace Kevlar.Ext2
open List Fallible Nat ByteBuffer

/-! ## Lookup in a tree -/

section Lookup

variable {k : ℕ} {branches : List Branch}

lemma Routed.branchFor {lower upper : List Branch} {c : Branch} (h : Routed lower c upper k) :
    branchFor (lower ++ c :: upper) k = some c := by
  have hupper : upper.takeWhile (fun d => decide (d.idx.logicalBlock ≤ k)) = [] := by
    cases upper with
    | nil => rfl
    | cons d rest =>
      have hlt := h.above d rfl
      rw [takeWhile_cons, if_neg (by simpa using hlt)]
  rw [Ext2.branchFor, takeWhile_append_of_pos fun d hd => decide_eq_true (h.below d hd),
    takeWhile_cons, if_pos (decide_eq_true h.key_le), hupper, getLast?_append]
  rfl

/-- Lookup ends somewhere if the first key is zero. -/
lemma exists_routed_of_first (hne : branches ≠ [])
    (hfirst : ∀ c ∈ branches.head?, c.idx.logicalBlock = 0) (k : ℕ) :
    ∃ lower c upper, branches = lower ++ c :: upper ∧ Routed lower c upper k := by
  cases hfor : branchFor branches k with
  | none =>
    cases branches with
    | nil => exact absurd rfl hne
    | cons c rest =>
      have hkey := hfirst c rfl
      rw [branchFor, takeWhile_cons, if_pos (by simp [hkey]), getLast?_eq_none_iff] at hfor
      cases hfor
  | some c =>
    obtain ⟨lower, upper, heq, hroute⟩ := exists_routed hfor
    exact ⟨lower, c, upper, heq, hroute⟩

/-- The root is a leaf, or its first key is zero. -/
def Tree.Total : Tree → Prop
  | .leaf _ => True
  | .index branches => ∃ c ∈ branches.head?, c.idx.logicalBlock = 0

/-- Lookup does not fail exactly if every block number is at least the first key. -/
lemma Tree.total_iff (t : Tree) : (∀ k < 2 ^ 32, ∃ b, t.resolve k = .ok b) ↔ t.Total := by
  cases t with
  | leaf extents => exact ⟨fun _ => trivial, fun _ k _ => ⟨_, rfl⟩⟩
  | index branches =>
    constructor
    · intro h
      obtain ⟨b, hb⟩ := h 0 (Nat.two_pow_pos 32)
      cases branches with
      | nil => cases hb
      | cons c rest =>
        refine ⟨c, rfl, ?_⟩
        by_contra hkey
        rw [Tree.resolve, branchFor, takeWhile_cons, if_neg (by simpa using hkey)] at hb
        cases hb
    · rintro ⟨c, hc, hkey⟩ k -
      have hne : branches ≠ [] := by
        rintro rfl
        cases hc
      obtain ⟨lower, d, upper, rfl, hroute⟩ := exists_routed_of_first hne (fun e he => by
        rw [Option.mem_unique he hc, hkey]) k
      exact ⟨_, by rw [Tree.resolve, hroute.branchFor]⟩

end Lookup

/-! ## Trees of an inode -/

/-- The blocks of the leaves of an inode's tree. -/
def leafBlocks (inode : Inode) : List ℕ :=
  let header := ExtentHeader.parse inode.block
  if header.depth = 0 then []
  else (indexEntries inode.block (visible 60 header.entries)).map ExtentIdx.leafBlock

/-- The root is a leaf, or an index whose first key is zero. -/
def LookupTotal (inode : Inode) : Prop :=
  (ExtentHeader.parse inode.block).depth = 0 ∨
    0 < (ExtentHeader.parse inode.block).entries ∧
      (ExtentIdx.parse inode.block 12).logicalBlock = 0

instance (inode : Inode) : Decidable (LookupTotal inode) := inferInstanceAs (Decidable (_ ∨ _))

/-- Trees that grow from the root of a new inode. Other parts of the system leave the leaves
of the tree and block zero alone. -/
inductive Built (g : Geometry) : Fs → Inode → Prop
  | new {s : Fs} {inode : Inode} (hzero : Reserved g s) (hroot : inode.block = initExtentRoot) :
      Built g s inode
  | alloc {s s' : Fs} {inode inode' : Inode} {logicalBlock p : ℕ} (h : Built g s inode)
      (halloc : (allocExtentBlock g inode logicalBlock).Returns s (p, inode') s') :
      Built g s' inode'
  | allocFails {s s' : Fs} {inode : Inode} {logicalBlock : ℕ} {e : Errno} (h : Built g s inode)
      (halloc : (allocExtentBlock g inode logicalBlock).Fails s e s') : Built g s' inode
  | truncate {s s' : Fs} {inode inode' : Inode} {newBlockCount : ℕ} (h : Built g s inode)
      (htruncate : (truncateExtentTree g inode newBlockCount).Returns s inode' s') :
      Built g s' inode'
  | other {s s' : Fs} {inode inode' : Inode} (h : Built g s inode)
      (hroot : inode'.block = inode.block) (hzero : Reserved g s')
      (hkeep : ∀ b ∈ leafBlocks inode, s'.used g b = true ∧ s'.store.read b = s.store.read b) :
      Built g s' inode'

section Built

variable {g : Geometry} {s s' : Fs} {inode inode' : Inode} {t : Tree}

section

variable (h : Represents g s inode.block t)
include h

lemma Represents.leafBlocks_eq : leafBlocks inode = t.blocks := by
  cases t with
  | leaf extents =>
    have hleaf : IsLeaf inode.block 60 extents := h
    rw [leafBlocks, hleaf.header]
    rfl
  | index branches =>
    have hindex := h.1
    rw [leafBlocks, hindex.header]
    rw [if_neg one_ne_zero, hindex.visible, hindex.entries, map_map]
    rfl

lemma Represents.lookupTotal_iff : LookupTotal inode ↔ t.Total := by
  cases t with
  | leaf extents =>
    have hleaf : IsLeaf inode.block 60 extents := h
    rw [LookupTotal, hleaf.header]
    exact ⟨fun _ => trivial, fun _ => .inl rfl⟩
  | index branches =>
    obtain ⟨hindex, -, -⟩ := h
    rw [LookupTotal, hindex.header]
    cases branches with
    | nil => simp [Tree.Total]
    | cons c rest =>
      have hfirst : ExtentIdx.parse inode.block 12 = c.idx := by
        have hhead := congrArg head? hindex.entries
        simpa [indexEntries, head?_range, entryOffset] using hhead
      rw [hfirst]
      simp [Tree.Total]

/-- Other parts of the system do not change the tree. -/
lemma Represents.keep (hroot : inode'.block = inode.block)
    (hkeep : ∀ b ∈ leafBlocks inode, s'.used g b = true ∧ s'.store.read b = s.store.read b) :
    Represents g s' inode'.block t := by
  rw [h.leafBlocks_eq] at hkeep
  rw [hroot]
  cases t with
  | leaf extents => exact h
  | index branches =>
    obtain ⟨hindex, hbranches, hnodup⟩ := h
    refine ⟨hindex, fun c hc => ?_, hnodup⟩
    have hc' := hbranches c hc
    obtain ⟨hused, hread⟩ := hkeep _ (mem_map_of_mem hc)
    refine ⟨hc'.holds, hc'.ne_zero, hused, ?_⟩
    rw [hread]
    exact hc'.leaf

lemma Represents.zero_notMem : 0 ∉ t.blocks := by
  cases t with
  | leaf extents => exact not_mem_nil
  | index branches =>
    intro hmem
    obtain ⟨c, hc, hzero⟩ := mem_map.mp hmem
    exact (h.2.1 c hc).ne_zero hzero

/-- A failed allocation leaves the tree. -/
lemma Represents.frame (hframe : Frame g [] s s') : Represents g s' inode.block t := by
  cases t with
  | leaf extents => exact h
  | index branches =>
    obtain ⟨hindex, hbranches, hnodup⟩ := h
    exact ⟨hindex, fun c hc => (hbranches c hc).frame hframe not_mem_nil, hnodup⟩

end

/-- Every tree built by the code is a leaf or an index of leaves. -/
lemma Built.represents (h : Built g s inode) :
    Reserved g s ∧ ∃ t, Represents g s inode.block t := by
  induction h with
  | new hzero hroot =>
    refine ⟨hzero, .leaf [], ?_⟩
    rw [hroot]
    exact isLeaf_initExtentRoot
  | alloc _ halloc ih =>
    obtain ⟨hzero, t, hrep⟩ := ih
    obtain ⟨hframe, -, -, t', ht'⟩ := (ends_allocExtentBlock hrep hzero _).returns halloc
    exact ⟨hzero.frame hframe hrep.zero_notMem, t', ht'.represents⟩
  | allocFails _ halloc ih =>
    obtain ⟨hzero, t, hrep⟩ := ih
    have hframe := (ends_allocExtentBlock hrep hzero _).fails halloc
    exact ⟨hzero.frame hframe not_mem_nil, t, hrep.frame hframe⟩
  | truncate _ htruncate ih =>
    obtain ⟨hzero, t, hrep⟩ := ih
    obtain ⟨hframe, -, hrep'⟩ := (ends_truncateExtentTree hrep _).returns htruncate
    exact ⟨hzero.frame hframe hrep.zero_notMem, _, hrep'⟩
  | other _ hroot hzero hkeep ih =>
    obtain ⟨-, t, hrep⟩ := ih
    exact ⟨hzero, t, hrep.keep hroot hkeep⟩

/-- Lookup fails for no block number exactly if the root is a leaf or has zero as its
first key. -/
theorem resolveExtent_total_iff (h : Built g s inode) :
    (∀ k, ∃ b, (resolveExtent g inode k).Returns s b s) ↔ LookupTotal inode := by
  obtain ⟨-, t, hrep⟩ := h.represents
  rw [hrep.lookupTotal_iff, ← t.total_iff]
  constructor
  · intro hok k hk
    obtain ⟨b, hb⟩ := hok k
    rw [Fallible.Returns, resolveExtent_eq hrep, mod_eq_of_lt hk] at hb
    exact ⟨b, (Prod.mk.inj hb).1⟩
  · intro hok k
    obtain ⟨b, hb⟩ := hok (k % 2 ^ 32) (Nat.mod_lt _ (Nat.two_pow_pos 32))
    refine ⟨b, ?_⟩
    rw [Fallible.Returns, resolveExtent_eq hrep, hb]

end Built

/-! ## Runs on a small disk -/

/-- Allocations one after the other. -/
def allocEach (g : Geometry) : List ℕ → Inode → FsM Inode
  | [], inode => return inode
  | logicalBlock :: rest, inode => do
    let (_, inode') ← allocExtentBlock g inode logicalBlock
    allocEach g rest inode'

lemma Built.allocEach {g : Geometry} (logicalBlocks : List ℕ) {s s' : Fs}
    {inode inode' : Inode} (hbuilt : Built g s inode)
    (h : (allocEach g logicalBlocks inode).Returns s inode' s') : Built g s' inode' := by
  induction logicalBlocks generalizing s inode with
  | nil =>
    obtain ⟨rfl, rfl⟩ := returns_pure.mp h
    exact hbuilt
  | cons logicalBlock rest ih =>
    rw [Ext2.allocEach, returns_bind] at h
    obtain ⟨⟨p, inode₁⟩, u, halloc, h⟩ := h
    exact ih (.alloc hbuilt halloc) h

/-- A disk of sixteen blocks of 1024 bytes. -/
def smallDisk : Geometry where
  logBlockSize := 0
  firstDataBlock := 1
  blocksPerGroup := 16
  inodesPerGroup := 8
  numGroups := 1
  hasExtents := true
  logBlockSize_le := by norm_num
  blocksPerGroup_pos := by norm_num
  inodesPerGroup_pos := by norm_num
  fits := by norm_num

/-- All blocks and inodes are free. -/
def emptyFs : Fs where
  store := ⟨fun _ => none, fun _ => zeros⟩
  blockBits _ _ := false
  groupFreeBlocks _ := 16
  freeBlocksCount := 16
  inodeBits _ _ := false
  groupFreeInodes _ := 8
  freeInodesCount := 8
  inodes _ := Inode.zero
  freed := []

/-- A new file with an empty extent tree. -/
def newFile : Inode :=
  { Inode.zero with
    kind := .regular
    linksCount := 1
    usesExtents := true
    block := initExtentRoot }

/-- Run allocations on the small disk and look at the end. -/
def afterAllocs (logicalBlocks : List ℕ) (check : Inode → Fs → Bool) : Bool :=
  match allocEach smallDisk logicalBlocks newFile emptyFs with
  | (.ok inode, s) => check inode s
  | (.error _, _) => false

lemma exists_of_afterAllocs {logicalBlocks : List ℕ} {check : Inode → Fs → Bool}
    (h : afterAllocs logicalBlocks check = true) :
    ∃ s inode, Built smallDisk s inode ∧ check inode s = true := by
  unfold afterAllocs at h
  split at h
  · rename_i inode s hrun
    exact ⟨s, inode, (Built.new (.inl one_pos) rfl).allocEach logicalBlocks hrun, h⟩
  · cases h

/-- With blocks 0, 2, 4, 6 and 8 lookup never fails. -/
theorem resolveExtent_total_even : ∃ s inode, Built smallDisk s inode ∧
    ∀ k, ∃ b, (resolveExtent smallDisk inode k).Returns s b s := by
  obtain ⟨s, inode, hbuilt, htotal⟩ := exists_of_afterAllocs
    (show afterAllocs [0, 2, 4, 6, 8] (fun inode _ => decide (LookupTotal inode)) = true by
      decide +kernel)
  exact ⟨s, inode, hbuilt, (resolveExtent_total_iff hbuilt).mpr (of_decide_eq_true htotal)⟩

/-- With blocks 1, 3, 5, 7 and 9 the lookup of block 0 fails. -/
theorem resolveExtent_fails_odd : ∃ s inode, Built smallDisk s inode ∧
    (resolveExtent smallDisk inode 0 s).1 = .error .eio := by
  obtain ⟨s, inode, hbuilt, hfails⟩ := exists_of_afterAllocs
    (show afterAllocs [1, 3, 5, 7, 9] (fun inode s =>
      decide ((resolveExtent smallDisk inode 0 s).1 = .error .eio)) = true by decide +kernel)
  exact ⟨s, inode, hbuilt, of_decide_eq_true hfails⟩

end Kevlar.Ext2
