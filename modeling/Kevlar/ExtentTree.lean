import Kevlar.Ext2Disk

/-!
# Extent trees

The blocks of an ext4 file are described by a tree of extents. A node is a header
of twelve bytes followed by entries of twelve bytes: extents in a leaf, keys and
block numbers of children above. The root is the 60 byte area of the inode, the
other nodes are blocks. The functions work on the bytes of a node; `len` is the
length of its buffer. Logical block numbers and lengths have 32 and 16 bits and
wrap as in the source.
-/
namespace Kevlar.Ext2

open ByteBuffer

def extMagic : ℕ := 0xF30A

def maxExtentDepth : ℕ := 5

structure ExtentHeader where
  magic : ℕ
  entries : ℕ
  max : ℕ
  depth : ℕ
  deriving Repr, DecidableEq

namespace ExtentHeader

def parse (data : Bytes) : ExtentHeader :=
  ⟨readU16 data 0, readU16 data 2, readU16 data 4, readU16 data 6⟩

def serialize (header : ExtentHeader) (buf : Bytes) : Bytes :=
  writeU16 (writeU16 (writeU16 (writeU16 buf 0 header.magic) 2 header.entries) 4 header.max) 6
    header.depth

end ExtentHeader

structure Extent where
  logicalBlock : ℕ
  len : ℕ
  startHi : ℕ
  startLo : ℕ
  deriving Repr, DecidableEq

namespace Extent

def parse (data : Bytes) (off : ℕ) : Extent :=
  ⟨readU32 data off, readU16 data (off + 4), readU16 data (off + 6), readU32 data (off + 8)⟩

def physicalStart (ext : Extent) : ℕ := ext.startHi * 2 ^ 32 + ext.startLo

/-- `len & 0x7FFF`. -/
def blockCount (ext : Extent) : ℕ := ext.len % 2 ^ 15

def isUninitialized (ext : Extent) : Bool := decide (0x8000 < ext.len)

def new (logicalBlock len physStart : ℕ) : Extent :=
  ⟨logicalBlock, len, physStart / 2 ^ 32 % 2 ^ 16, physStart % 2 ^ 32⟩

def serialize (ext : Extent) (buf : Bytes) (off : ℕ) : Bytes :=
  writeU32 (writeU16 (writeU16 (writeU32 buf off ext.logicalBlock) (off + 4) ext.len) (off + 6)
    ext.startHi) (off + 8) ext.startLo

/-- The logical block behind the extent, in 32 bits. -/
def stop (ext : Extent) : ℕ := (ext.logicalBlock + ext.blockCount) % 2 ^ 32

def covers (logicalBlock : ℕ) (ext : Extent) : Bool :=
  decide (ext.logicalBlock ≤ logicalBlock) && decide (logicalBlock < ext.stop)

end Extent

structure ExtentIdx where
  logicalBlock : ℕ
  leafLo : ℕ
  leafHi : ℕ
  deriving Repr, DecidableEq

namespace ExtentIdx

def parse (data : Bytes) (off : ℕ) : ExtentIdx :=
  ⟨readU32 data off, readU32 data (off + 4), readU16 data (off + 8)⟩

def leafBlock (idx : ExtentIdx) : ℕ := idx.leafHi * 2 ^ 32 + idx.leafLo

def new (logicalBlock leafBlock : ℕ) : ExtentIdx :=
  ⟨logicalBlock, leafBlock % 2 ^ 32, leafBlock / 2 ^ 32 % 2 ^ 16⟩

def serialize (idx : ExtentIdx) (buf : Bytes) (off : ℕ) : Bytes :=
  writeU16 (writeU16 (writeU32 (writeU32 buf off idx.logicalBlock) (off + 4) idx.leafLo) (off + 8)
    idx.leafHi) (off + 10) 0

end ExtentIdx

/-- Where entry `i` of a node is. -/
def entryOffset (i : ℕ) : ℕ := 12 + i * 12

/-- The number of entries that the loops over a node see. -/
def visible (len entries : ℕ) : ℕ := min entries ((len - 12) / 12)

def leafExtents (data : Bytes) (n : ℕ) : List Extent :=
  (List.range n).map fun i => Extent.parse data (entryOffset i)

def indexEntries (data : Bytes) (n : ℕ) : List ExtentIdx :=
  (List.range n).map fun i => ExtentIdx.parse data (entryOffset i)

/-! ## Lookup -/

/-- The search through the extents of a leaf; zero is a hole. -/
def lookupExtents (extents : List Extent) (logicalBlock : ℕ) : ℕ :=
  match extents.find? (Extent.covers logicalBlock) with
  | some ext =>
    if ext.isUninitialized then 0
    else ext.physicalStart + (logicalBlock - ext.logicalBlock)
  | none => 0

/-- The last entry before the first one with a larger key. -/
def childFor (entries : List ExtentIdx) (logicalBlock : ℕ) : Option ExtentIdx :=
  (entries.takeWhile fun idx => decide (idx.logicalBlock ≤ logicalBlock)).getLast?

def resolveExtentInNode (g : Geometry) (logicalBlock : ℕ) : ℕ → Bytes → ℕ → FsM ℕ
  | depthLimit, data, len =>
    let header := ExtentHeader.parse data
    if header.magic ≠ extMagic then Fallible.throw .eio
    else if depthLimit < header.depth then Fallible.throw .eio
    else if header.depth = 0 then
      return lookupExtents (leafExtents data (visible len header.entries)) logicalBlock
    else match depthLimit, childFor (indexEntries data (visible len header.entries))
        logicalBlock with
      | depthLimit + 1, some idx => do
        let child ← readBlock idx.leafBlock
        resolveExtentInNode g logicalBlock depthLimit child g.blockSize
      | _, _ => Fallible.throw .eio

def resolveExtent (g : Geometry) (inode : Inode) (logicalBlock : ℕ) : FsM ℕ :=
  resolveExtentInNode g (logicalBlock % 2 ^ 32) maxExtentDepth inode.block 60

/-! ## Allocation -/

def initExtentRoot : Bytes := ExtentHeader.serialize ⟨extMagic, 0, 4, 0⟩ zeros

/-- A block next to an extent: another one than the goal is given back. -/
def takeGoal (g : Geometry) (goal : ℕ) : FsM (Option ℕ) := do
  let newPhys ← allocBlockNear g goal
  if newPhys = goal then return some newPhys
  else
    freeBlock g newPhys
    return none

/-- Try to get the block behind an extent. -/
def tryAppend (g : Geometry) (logicalBlock : ℕ) (ext : Extent) : FsM (Option ℕ) :=
  if ext.stop = logicalBlock ∧ ext.blockCount < 32768 ∧ ext.isUninitialized = false then
    takeGoal g (ext.physicalStart + ext.blockCount)
  else return none

/-- Try to get the block before an extent. -/
def tryPrepend (g : Geometry) (logicalBlock : ℕ) (ext : Extent) : FsM (Option ℕ) :=
  if ext.logicalBlock = (logicalBlock + 1) % 2 ^ 32 ∧ ext.blockCount < 32768 ∧
      ext.isUninitialized = false ∧ 0 < ext.physicalStart then
    takeGoal g (ext.physicalStart - 1)
  else return none

/-- The loop of `insert_extent_in_leaf` that extends an adjacent extent. -/
def tryExtend (g : Geometry) (leaf : Bytes) (logicalBlock : ℕ) :
    List ℕ → FsM (Option (ℕ × Bytes))
  | [] => return none
  | i :: rest => do
    let ext := Extent.parse leaf (entryOffset i)
    match ← tryAppend g logicalBlock ext with
    | some newPhys => return some (newPhys, writeU16 leaf (entryOffset i + 4) (ext.len + 1))
    | none =>
      match ← tryPrepend g logicalBlock ext with
      | some newPhys =>
        return some (newPhys, (Extent.new logicalBlock (ext.len + 1) newPhys).serialize leaf
          (entryOffset i))
      | none => tryExtend g leaf logicalBlock rest

/-- Where a new extent belongs: before the first one that starts behind it. -/
def insertPos (extents : List Extent) (logicalBlock : ℕ) : ℕ :=
  extents.findIdx fun ext => decide (logicalBlock < ext.logicalBlock)

/-- Shift the entries from `pos` on by one, the last one first. -/
def shiftEntries (leaf : Bytes) (pos entries : ℕ) : Bytes :=
  (List.range' pos (entries - pos)).reverse.foldl
    (fun leaf i => copyWithin leaf (entryOffset i) (entryOffset (i + 1)) 12) leaf

/-- A block that holds a leaf with the given extents. -/
def leafNode (g : Geometry) (extents : List Extent) : Bytes :=
  extents.zipIdx.foldl (fun leaf p => p.1.serialize leaf (entryOffset p.2))
    (ExtentHeader.serialize
      ⟨extMagic, extents.length, (g.blockSize - 12) / 12, 0⟩ zeros)

/-- The key of a leaf in the index above it. -/
def firstKey (extents : List Extent) : ℕ := (extents.head?.map Extent.logicalBlock).getD 0

/-- Clear the first bytes of a buffer. -/
def clear (buf : Bytes) (len : ℕ) : Bytes := fun j => if j < len then 0 else buf j

/-- `split_and_insert`: a full root becomes an index of two leaves; a full leaf
elsewhere is not split. -/
def splitAndInsert (g : Geometry) (root : Bytes) (len maxEntries logicalBlock : ℕ) :
    FsM (ℕ × Bytes) :=
  let header := ExtentHeader.parse root
  if header.depth = 0 ∧ len ≤ 60 then do
    let extents := leafExtents root header.entries
    let newPhys ← allocBlock g
    let extents := extents.insertIdx (insertPos extents logicalBlock)
      (Extent.new logicalBlock 1 newPhys)
    let lower := extents.take (extents.length / 2)
    let upper := extents.drop (extents.length / 2)
    let leafA ← allocBlock g
    let leafB ← allocBlock g
    writeBlock leafA (leafNode g lower)
    writeBlock leafB (leafNode g upper)
    let root := ExtentHeader.serialize ⟨extMagic, 2, maxEntries, 1⟩ (clear root (min 60 len))
    let root := (ExtentIdx.new (firstKey lower) leafA).serialize root 12
    let root := (ExtentIdx.new (firstKey upper) leafB).serialize root 24
    return (newPhys, root)
  else Fallible.throw .enospc

def insertExtentInLeaf (g : Geometry) (leaf : Bytes) (len maxEntries logicalBlock : ℕ) :
    FsM (ℕ × Bytes) :=
  let header := ExtentHeader.parse leaf
  if header.magic ≠ extMagic then Fallible.throw .eio
  else do
    match ← tryExtend g leaf logicalBlock (List.range header.entries) with
    | some extended => return extended
    | none =>
      if maxEntries ≤ header.entries then splitAndInsert g leaf len maxEntries logicalBlock
      else
        let newPhys ← allocBlock g
        let pos := insertPos (leafExtents leaf header.entries) logicalBlock
        let leaf := shiftEntries leaf pos header.entries
        let leaf := (Extent.new logicalBlock 1 newPhys).serialize leaf (entryOffset pos)
        return (newPhys, ExtentHeader.serialize { header with entries := header.entries + 1 } leaf)

/-- `find_extent_leaf`; a block before the first key belongs to the first child. -/
def findExtentLeaf (g : Geometry) (logicalBlock : ℕ) : ℕ → Bytes → ℕ → FsM ℕ
  | 0, _, _ => Fallible.throw .eio
  | depth + 1, data, len => do
    let header := ExtentHeader.parse data
    let child := (childFor (indexEntries data (visible len header.entries)) logicalBlock).orElse
      fun _ => if 0 < header.entries then some (ExtentIdx.parse data 12) else none
    match child with
    | none => Fallible.throw .eio
    | some idx =>
      if depth = 0 then return idx.leafBlock
      else
        let data ← readBlock idx.leafBlock
        findExtentLeaf g logicalBlock depth data g.blockSize

/-- The 512 byte units of a block. -/
def sectors (g : Geometry) : ℕ := g.blockSize / 512

def allocExtentBlock (g : Geometry) (inode : Inode) (logicalBlock : ℕ) : FsM (ℕ × Inode) :=
  let header := ExtentHeader.parse inode.block
  if header.magic ≠ extMagic then Fallible.throw .eio
  else if header.depth = 0 then do
    let (newPhys, root) ← insertExtentInLeaf g inode.block 60 header.max (logicalBlock % 2 ^ 32)
    return (newPhys, { inode with block := root, blocks := (inode.blocks + sectors g) % 2 ^ 32 })
  else do
    let leafBlock ← findExtentLeaf g (logicalBlock % 2 ^ 32) header.depth inode.block 60
    let leaf ← readBlock leafBlock
    let (newPhys, leaf) ← insertExtentInLeaf g leaf g.blockSize (ExtentHeader.parse leaf).max
      (logicalBlock % 2 ^ 32)
    writeBlock leafBlock leaf
    return (newPhys, { inode with blocks := (inode.blocks + sectors g) % 2 ^ 32 })

/-! ## Truncation -/

/-- The loop of `prune_leaf_extents`: shrink the extent that the cut goes through and
count the entries that remain. Entries are not moved. -/
def pruneLoop (cut : ℕ) : List ℕ → ℕ → Bytes → ℕ × Bytes
  | [], kept, data => (kept, data)
  | i :: rest, kept, data =>
    let ext := Extent.parse data (entryOffset i)
    if ext.stop ≤ cut then pruneLoop cut rest (kept + 1) data
    else if ext.logicalBlock < cut then
      pruneLoop cut rest (kept + 1) (writeU16 data (entryOffset i + 4) (cut - ext.logicalBlock))
    else pruneLoop cut rest kept data

def pruneLeafExtents (data : Bytes) (len entries cut : ℕ) : ℕ × Bytes :=
  pruneLoop cut (List.range (visible len entries)) 0 data

/-- The loop of `truncate_extent_tree` over the index entries of the root: prune each
leaf, free it if it becomes empty and move its entry down otherwise. -/
def truncateLoop (g : Geometry) (cut : ℕ) : List ℕ → ℕ → Bytes → ℕ → FsM (ℕ × Bytes × ℕ)
  | [], kept, root, blocks => return (kept, root, blocks)
  | i :: rest, kept, root, blocks => do
    let idx := ExtentIdx.parse root (entryOffset i)
    let leaf ← readBlock idx.leafBlock
    let header := ExtentHeader.parse leaf
    if header.magic ≠ extMagic then truncateLoop g cut rest kept root blocks
    else
      let (entries, leaf) := pruneLeafExtents leaf g.blockSize header.entries cut
      if entries = 0 then
        freeBlock g idx.leafBlock
        truncateLoop g cut rest kept root (blocks - sectors g)
      else
        writeBlock idx.leafBlock (writeU16 leaf 2 entries)
        let root := if kept ≠ i then copyWithin root (entryOffset i) (entryOffset kept) 12 else root
        truncateLoop g cut rest (kept + 1) root blocks

def truncateExtentTree (g : Geometry) (inode : Inode) (newBlockCount : ℕ) : FsM Inode :=
  let header := ExtentHeader.parse inode.block
  if header.magic ≠ extMagic then Fallible.throw .eio
  else if header.depth = 0 then
    let (entries, root) := pruneLeafExtents inode.block 60 header.entries (newBlockCount % 2 ^ 32)
    return { inode with block := writeU16 root 2 entries }
  else do
    let (entries, root, blocks) ← truncateLoop g (newBlockCount % 2 ^ 32)
      (List.range (visible 60 header.entries)) 0 inode.block inode.blocks
    return { inode with block := writeU16 root 2 entries, blocks := blocks }

end Kevlar.Ext2
