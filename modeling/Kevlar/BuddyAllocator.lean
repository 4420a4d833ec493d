import Kevlar.MachineWord

/-!
# The buddy allocator

The free lists are threaded through the free pages: the first word of a free
block holds the physical address of the next one, zero ends a list. Memory is
the map from kernel virtual addresses to the words stored there, so the words
of different pages never overlap. The allocation bitmap is the byte array of
the source, shared by all zones. A `none` result is a failed assertion, an
index out of bounds or a list walk that does not end.
-/
namespace Kevlar.Buddy
open Function

def maxOrder : ℕ := 10

def maxBitmapPages : ℕ := 4 * 1024 * 1024

/-- `ALLOC_BITMAP`, by byte index. -/
abbrev Bitmap := ℕ → BitVec 8

/-- `1 << (idx % 8)` for the page of `paddr`. -/
def bitMask (paddr : ℕ) : BitVec 8 := 1#8 <<< (paddr / pageSize % 8)

def bitmapIsAllocated (bitmap : Bitmap) (paddr : ℕ) : Bool :=
  if maxBitmapPages ≤ paddr / pageSize then false
  else bitmap (paddr / pageSize / 8) &&& bitMask paddr != 0

def bitmapSetAllocated (bitmap : Bitmap) (paddr : ℕ) : Bitmap :=
  if maxBitmapPages ≤ paddr / pageSize then bitmap
  else update bitmap (paddr / pageSize / 8)
    (bitmap (paddr / pageSize / 8) ||| bitMask paddr)

def bitmapClearAllocated (bitmap : Bitmap) (paddr : ℕ) : Bitmap :=
  if maxBitmapPages ≤ paddr / pageSize then bitmap
  else update bitmap (paddr / pageSize / 8)
    (bitmap (paddr / pageSize / 8) &&& ~~~bitMask paddr)

/-- The allocator together with the memory and the bitmap it works on.
`freeLists` gives the head of each order's list. -/
structure BuddyAllocator where
  freeLists : ℕ → ℕ
  base : ℕ
  endAddr : ℕ
  totalPages : ℕ
  vaddrOffset : ℕ
  words : ℕ → ℕ
  bitmap : Bitmap

namespace BuddyAllocator

/-- The link stored in the block at `paddr`. -/
def next (s : BuddyAllocator) (paddr : ℕ) : ℕ := s.words (wadd paddr s.vaddrOffset)

def setNext (s : BuddyAllocator) (paddr link : ℕ) : BuddyAllocator :=
  { s with words := update s.words (wadd paddr s.vaddrOffset) link }

def setHead (s : BuddyAllocator) (order head : ℕ) : BuddyAllocator :=
  { s with freeLists := update s.freeLists order head }

def pushFree (s : BuddyAllocator) (paddr order : ℕ) : BuddyAllocator :=
  (s.setNext paddr (s.freeLists order)).setHead order paddr

def popFree (s : BuddyAllocator) (order : ℕ) : ℕ × BuddyAllocator :=
  let block := s.freeLists order
  (block, s.setHead order (s.next block))

/-- The largest order up to the given one whose block fits into the remaining
pages and is aligned at `paddr`; order zero is taken without a test. -/
def seedOrder (remaining paddr : ℕ) : ℕ → ℕ
  | 0 => 0
  | order + 1 =>
    if 2 ^ (order + 1) ≤ remaining ∧ paddr % (2 ^ (order + 1) * pageSize) = 0 then order + 1
    else seedOrder remaining paddr order

/-- The seeding loop of `new`; every round takes at least one page, so `fuel`
rounds suffice when at most that many pages remain. -/
def seed (numPages basePaddr : ℕ) : ℕ → ℕ → BuddyAllocator → BuddyAllocator
  | 0, _, s => s
  | fuel + 1, offset, s =>
    if offset < numPages then
      let paddr := basePaddr + offset * pageSize
      let order := seedOrder (numPages - offset) paddr maxOrder
      seed numPages basePaddr fuel (offset + 2 ^ order) (s.pushFree paddr order)
    else s

/-- `BuddyAllocator::new` on the memory and bitmap it finds; `base` is the kernel
virtual address of `basePaddr`. -/
def new (base basePaddr len : ℕ) (words : ℕ → ℕ) (bitmap : Bitmap) : BuddyAllocator :=
  let numPages := len / pageSize
  seed numPages basePaddr numPages 0
    { freeLists := fun _ => 0
      base := basePaddr
      endAddr := basePaddr + numPages * pageSize
      totalPages := numPages
      vaddrOffset := wsub base basePaddr
      words := words
      bitmap := bitmap }

/-- The pages of a block, in the order of the source's loops. -/
def blockPages (ptr order : ℕ) : List ℕ :=
  (List.range (2 ^ order)).map fun i => ptr + i * pageSize

/-- Assert that each page is unallocated and set its bit. -/
def markAllocated (bitmap : Bitmap) : List ℕ → Option Bitmap
  | [] => some bitmap
  | page :: pages =>
    if bitmapIsAllocated bitmap page then none
    else markAllocated (bitmapSetAllocated bitmap page) pages

/-- Assert that each page is allocated and clear its bit. -/
def markFree (bitmap : Bitmap) : List ℕ → Option Bitmap
  | [] => some bitmap
  | page :: pages =>
    if bitmapIsAllocated bitmap page then markFree (bitmapClearAllocated bitmap page) pages
    else none

/-- Put the upper halves of a block of the given order on the lists below it,
down to `target`. -/
def splitDown (block target : ℕ) : ℕ → BuddyAllocator → BuddyAllocator
  | 0, s => s
  | order + 1, s =>
    if target < order + 1 then
      splitDown block target order (s.pushFree (block + 2 ^ order * pageSize) order)
    else s

/-- The smallest order from `target + 1` on with a nonempty list. -/
def nonemptyOrder (s : BuddyAllocator) (target : ℕ) : Option ℕ :=
  (List.range' (target + 1) (maxOrder - target)).find? fun order => s.freeLists order != 0

def allocOrder (s : BuddyAllocator) (target : ℕ) : Option (Option ℕ × BuddyAllocator) :=
  if maxOrder < target then none
  else if s.freeLists target ≠ 0 then
    let (block, s) := s.popFree target
    (markAllocated s.bitmap (blockPages block target)).map fun bitmap =>
      (some block, { s with bitmap := bitmap })
  else match s.nonemptyOrder target with
    | none => some (none, s)
    | some order =>
      let (block, s) := s.popFree order
      let s := splitDown block target order s
      (markAllocated s.bitmap (blockPages block target)).map fun bitmap =>
        (some block, { s with bitmap := bitmap })

/-- The walk of `remove_from_free_list` from `current` on. -/
def unlinkFrom (s : BuddyAllocator) (target order : ℕ) :
    ℕ → Option ℕ → ℕ → Option (Bool × BuddyAllocator)
  | 0, _, _ => none
  | fuel + 1, prev, current =>
    if current = 0 then some (false, s)
    else if current = target then
      match prev with
      | some prev => some (true, s.setNext prev (s.next current))
      | none => some (true, s.setHead order (s.next current))
    else unlinkFrom s target order fuel (some current) (s.next current)

/-- A list holds at most one entry for each page, so the walk is cut off after
one more step than there are pages. -/
def removeFromFreeList (s : BuddyAllocator) (target order : ℕ) : Option (Bool × BuddyAllocator) :=
  unlinkFrom s target order (s.totalPages + 1) none (s.freeLists order)

/-- The merging loop; `rounds` counts the orders left below `maxOrder`. -/
def coalesce : ℕ → BuddyAllocator → ℕ → ℕ → Option (BuddyAllocator × ℕ × ℕ)
  | 0, s, ptr, order => some (s, ptr, order)
  | rounds + 1, s, ptr, order =>
    let buddy := ptr ^^^ (2 ^ order * pageSize)
    if buddy < s.base ∨ s.endAddr ≤ buddy then some (s, ptr, order)
    else if (blockPages buddy order).any (bitmapIsAllocated s.bitmap) then some (s, ptr, order)
    else match s.removeFromFreeList buddy order with
      | none => none
      | some (true, s) => coalesce rounds s (if ptr < buddy then ptr else buddy) (order + 1)
      | some (false, s) => some (s, ptr, order)

/-- An order beyond the lists fails at the latest when the block is pushed. -/
def freeCoalesce (s : BuddyAllocator) (ptr order : ℕ) : Option BuddyAllocator :=
  if maxOrder < order then none
  else match markFree s.bitmap (blockPages ptr order) with
  | none => none
  | some bitmap =>
    match coalesce (maxOrder - order) { s with bitmap := bitmap } ptr order with
    | none => none
    | some (s, ptr, order) => some (s.pushFree ptr order)

end BuddyAllocator
end Kevlar.Buddy
