import Kevlar.VmArea

/-!
# Page tables in physical memory

Physical memory is a function from page frames to their 512 words. A word is
kept as the pair that `entry_paddr` and `entry_flags` read from it: the two
masks are complementary, so a word and its pair determine each other. A frame
is a page-aligned physical address divided by the page size.

The walks follow the source. They write to memory even when they only look
something up, because an intermediate entry whose flags differ from the
expected ones is rewritten on the way. A walk that allocates takes the next
frame of the allocator; the outer `none` of a result is a kernel panic and the
inner one the `None` of the source.
-/
namespace Kevlar
open Function

/-- Physical page number. -/
abbrev Frame := ℕ

/-- The named flag bits of an entry; `rest` keeps all other bits outside the
physical address (accessed, dirty, global, software bits) in place. -/
structure PageAttrs where
  present : Bool
  writable : Bool
  user : Bool
  writeThrough : Bool
  cacheDisable : Bool
  hugePage : Bool
  noExecute : Bool
  rest : BitVec 64
  deriving Repr, DecidableEq

structure Entry where
  frame : Frame
  attrs : PageAttrs
  deriving Repr, DecidableEq

namespace PageAttrs

def empty : PageAttrs := ⟨false, false, false, false, false, false, false, 0⟩

/-- `PRESENT | USER | WRITABLE`, the flags of every intermediate entry. -/
def intermediate : PageAttrs := { empty with present := true, user := true, writable := true }

/-- `PRESENT | USER`, `WRITABLE` if the protection has write and `NO_EXECUTE`
if it lacks exec. -/
def ofProt (prot : MMapProt) : PageAttrs :=
  { empty with
    present := true
    user := true
    writable := prot.write
    noExecute := !prot.exec }

/-- The flags of a 2 MB leaf. -/
def hugeOfProt (prot : MMapProt) : PageAttrs := { ofProt prot with hugePage := true }

def clearHuge (a : PageAttrs) : PageAttrs := { a with hugePage := false }

end PageAttrs

namespace Entry

instance : Zero Entry := ⟨⟨0, PageAttrs.empty⟩⟩

@[simp] lemma zero_frame : (0 : Entry).frame = 0 := rfl
@[simp] lemma zero_attrs : (0 : Entry).attrs = PageAttrs.empty := rfl

def isHugePagePde (e : Entry) : Bool := e.attrs.hugePage && e.attrs.present

end Entry

/-- Physical memory and the frames the page allocator hands out next. -/
structure Machine where
  mem : Frame → ℕ → Entry
  free : List Frame

namespace Machine

def write (mc : Machine) (table : Frame) (index : ℕ) (e : Entry) : Machine :=
  { mc with mem := update mc.mem table (update (mc.mem table) index e) }

/-- A single page, zeroed. -/
def allocPages (mc : Machine) : Option (Frame × Machine) :=
  match mc.free with
  | [] => none
  | f :: fs => some (f, ⟨update mc.mem f 0, fs⟩)

end Machine

/-- Outer `none`: panic. Inner `none`: the walk found nothing. -/
abbrev Walked (α : Type) := Option (Option α × Machine)

namespace PageTable

def nthLevelTableIndex (vaddr level : ℕ) : ℕ := vaddr / 2 ^ ((level - 1) * 9 + 12) % 512

def leafPtIndex (vaddr : ℕ) : ℕ := vaddr / 2 ^ 12 % 512

/-- One turn of the walking loop: from a table through the entry `index`. -/
def descend (mc : Machine) (table : Frame) (index : ℕ) (allocate : Bool) : Walked Frame :=
  let entry := mc.mem table index
  if entry.frame = 0 then
    if allocate then
      match mc.allocPages with
      | none => none
      | some (new, mc') => some (some new, mc'.write table index ⟨new, .intermediate⟩)
    else some (none, mc)
  else
    let expected : Entry := ⟨entry.frame, .intermediate⟩
    some (some entry.frame, if entry = expected then mc else mc.write table index expected)

/-- The loop over a list of levels without the test for a 2 MB leaf. -/
def walk (vaddr : ℕ) (allocate : Bool) : List ℕ → Machine → Frame → Walked Frame
  | [], mc, table => some (some table, mc)
  | level :: levels, mc, table =>
    match descend mc table (nthLevelTableIndex vaddr level) allocate with
    | none => none
    | some (none, mc') => some (none, mc')
    | some (some table', mc') => walk vaddr allocate levels mc' table'

/-- The slot of the page directory entry for `vaddr`. -/
def traverseToPd (mc : Machine) (pml4 : Frame) (vaddr : ℕ) (allocate : Bool) :
    Walked (Frame × ℕ) :=
  match walk vaddr allocate [4, 3] mc pml4 with
  | none => none
  | some (none, mc') => some (none, mc')
  | some (some pd, mc') => some (some (pd, nthLevelTableIndex vaddr 2), mc')

/-- The leaf page table for `vaddr`. There is no test for a 2 MB leaf. -/
def traverseToPt (mc : Machine) (pml4 : Frame) (vaddr : ℕ) (allocate : Bool) : Walked Frame :=
  walk vaddr allocate [4, 3, 2] mc pml4

/-- The slot of the page table entry for `vaddr`. A nonzero page directory
entry with the PS bit ends the walk. -/
def traverse (mc : Machine) (pml4 : Frame) (vaddr : ℕ) (allocate : Bool) :
    Walked (Frame × ℕ) :=
  match walk vaddr allocate [4, 3] mc pml4 with
  | none => none
  | some (none, mc') => some (none, mc')
  | some (some pd, mc') =>
    let pde := mc'.mem pd (nthLevelTableIndex vaddr 2)
    if pde.frame ≠ 0 ∧ pde.attrs.hugePage then some (none, mc')
    else
      match descend mc' pd (nthLevelTableIndex vaddr 2) allocate with
      | none => none
      | some (none, mc'') => some (none, mc'')
      | some (some pt, mc'') => some (some (pt, nthLevelTableIndex vaddr 1), mc'')

/-- `split_huge_page`: the 512 entries of the new table keep the flags of the
2 MB leaf without PS. -/
def splitHugePage (mc : Machine) (pml4 : Frame) (vaddr : ℕ) : Walked Frame :=
  match traverseToPd mc pml4 vaddr false with
  | none => none
  | some (none, mc') => some (none, mc')
  | some (some (pd, i), mc') =>
    let pde := mc'.mem pd i
    if pde.isHugePagePde then
      match mc'.allocPages with
      | none => none
      | some (pt, mc'') =>
        let filled : Machine := { mc'' with mem := update mc''.mem pt fun j =>
          if j < 512 then ⟨pde.frame + j, pde.attrs.clearHuge⟩ else mc''.mem pt j }
        some (some pde.frame, filled.write pd i ⟨pt, .intermediate⟩)
    else some (none, mc')

def mapHugeUserPage (mc : Machine) (pml4 : Frame) (vaddr : ℕ) (paddr : Frame)
    (prot : MMapProt) : Option Machine :=
  match traverseToPd mc pml4 vaddr true with
  | some (some (pd, i), mc') =>
    some (mc'.write pd i ⟨paddr, .hugeOfProt prot⟩)
  | _ => none

def isHugeMapped (mc : Machine) (pml4 : Frame) (vaddr : ℕ) : Walked Entry :=
  match traverseToPd mc pml4 vaddr false with
  | none => none
  | some (none, mc') => some (none, mc')
  | some (some (pd, i), mc') =>
    some (if (mc'.mem pd i).isHugePagePde then some (mc'.mem pd i) else none, mc')

def isPdeEmpty (mc : Machine) (pml4 : Frame) (vaddr : ℕ) : Option (Bool × Machine) :=
  match traverseToPd mc pml4 vaddr false with
  | none => none
  | some (none, mc') => some (true, mc')
  | some (some (pd, i), mc') => some (decide (mc'.mem pd i = 0), mc')

/-- `update_huge_page_flags`: the new flags always have PRESENT. -/
def updateHugePageFlags (mc : Machine) (pml4 : Frame) (vaddr : ℕ) (prot : MMapProt) :
    Option (Bool × Machine) :=
  match traverseToPd mc pml4 vaddr false with
  | none => none
  | some (none, mc') => some (false, mc')
  | some (some (pd, i), mc') =>
    let pde := mc'.mem pd i
    if pde.isHugePagePde then
      some (true, mc'.write pd i ⟨pde.frame, .hugeOfProt prot⟩)
    else some (false, mc')

/-- The flags `update_page_flags` stores: none at all for `PROT_NONE`, which
parks the frame in an entry that is not present. -/
def updatedAttrs (prot : MMapProt) : PageAttrs :=
  if prot = .none then .empty else .ofProt prot

def updatePageFlags (mc : Machine) (pml4 : Frame) (vaddr : ℕ) (prot : MMapProt) :
    Option (Bool × Machine) :=
  match traverse mc pml4 vaddr false with
  | none => none
  | some (none, mc') => some (false, mc')
  | some (some (pt, i), mc') =>
    let entry := mc'.mem pt i
    if entry.frame = 0 then some (false, mc')
    else some (true, mc'.write pt i ⟨entry.frame, updatedAttrs prot⟩)

/-- `map_page`: overwrites whatever the entry held. -/
def mapPage (mc : Machine) (pml4 : Frame) (vaddr : ℕ) (paddr : Frame) (attrs : PageAttrs) :
    Option Machine :=
  match traverse mc pml4 vaddr true with
  | some (some (pt, i), mc') => some (mc'.write pt i ⟨paddr, attrs⟩)
  | _ => none

/-- The compare-and-swap of an empty entry. -/
def compareExchangeZero (mc : Machine) (pt : Frame) (i : ℕ) (e : Entry) : Bool × Machine :=
  if mc.mem pt i = 0 then (true, mc.write pt i e) else (false, mc)

def tryMapUserPageWithProt (mc : Machine) (pml4 : Frame) (vaddr : ℕ) (paddr : Frame)
    (prot : MMapProt) : Option (Bool × Machine) :=
  match traverse mc pml4 vaddr true with
  | none => none
  | some (none, mc') => some (false, mc')
  | some (some (pt, i), mc') => some (compareExchangeZero mc' pt i ⟨paddr, .ofProt prot⟩)

def unmapUserPage (mc : Machine) (pml4 : Frame) (vaddr : ℕ) : Walked Frame :=
  match traverse mc pml4 vaddr false with
  | none => none
  | some (none, mc') => some (none, mc')
  | some (some (pt, i), mc') =>
    let entry := mc'.mem pt i
    if entry.frame = 0 then some (none, mc') else some (some entry.frame, mc'.write pt i 0)

/-- `lookup_paddr`: a nonzero frame of the page table entry, present or not,
else the frame inside a 2 MB leaf. -/
def lookupPaddr (mc : Machine) (pml4 : Frame) (vaddr : ℕ) : Walked Frame :=
  let viaHuge (mc' : Machine) : Walked Frame :=
    match isHugeMapped mc' pml4 vaddr with
    | none => none
    | some (pde, mc'') => some (pde.map fun e => e.frame + vaddr % hugePageSize / pageSize, mc'')
  match traverse mc pml4 vaddr false with
  | none => none
  | some (none, mc') => viaHuge mc'
  | some (some (pt, i), mc') =>
    if (mc'.mem pt i).frame ≠ 0 then some (some (mc'.mem pt i).frame, mc') else viaHuge mc'

/-- The inner loop of the batch: one compare-and-swap per page of the chunk.
`mapped` has the index of every page mapped so far. -/
def batchChunk (pt : Frame) (paddrs : ℕ → Frame) (attrs : PageAttrs) :
    ℕ → ℕ → ℕ → Machine → List ℕ → Machine × List ℕ
  | 0, _, _, mc, mapped => (mc, mapped)
  | n + 1, i, idx, mc, mapped =>
    let r := compareExchangeZero mc pt idx ⟨paddrs i, attrs⟩
    batchChunk pt paddrs attrs n (i + 1) (idx + 1) r.2 (if r.1 then mapped ++ [i] else mapped)

/-- The outer loop: each turn walks to the leaf table once and stops at its
end. Every turn maps at least one page, so `count` turns are enough. -/
def batchLoop (pml4 : Frame) (start : ℕ) (paddrs : ℕ → Frame) (count : ℕ) (prot : MMapProt) :
    ℕ → ℕ → Machine → List ℕ → Option (Machine × List ℕ)
  | 0, _, mc, mapped => some (mc, mapped)
  | fuel + 1, i, mc, mapped =>
    if i < count then
      let vaddr := wadd start (i * pageSize)
      if vaddr = 0 then none
      else
        match traverseToPt mc pml4 vaddr true with
        | none => none
        | some (none, mc') => some (mc', mapped)
        | some (some pt, mc') =>
          let startIdx := leafPtIndex vaddr
          let batchEnd := if i + (512 - startIdx) < count then i + (512 - startIdx) else count
          let r := batchChunk pt paddrs (.ofProt prot) (batchEnd - i) i startIdx mc' mapped
          batchLoop pml4 start paddrs count prot fuel batchEnd r.1 r.2
    else some (mc, mapped)

/-- `batch_try_map_user_pages_with_prot`; the bit mask of the source is the
list of the set bits. -/
def batchTryMapUserPagesWithProt (mc : Machine) (pml4 : Frame) (start : ℕ)
    (paddrs : ℕ → Frame) (count : ℕ) (prot : MMapProt) : Option (Machine × List ℕ) :=
  batchLoop pml4 start paddrs count prot count 0 mc []

end PageTable

end Kevlar
