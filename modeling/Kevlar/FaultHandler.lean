import Kevlar.AtomicProgram
import Kevlar.PageWalk

/-!
# The page-fault handler

`handle_page_fault` as a program of atomic operations on the memory manager: the
page allocator, the reference counts, the page cache of immutable files, the
lock and area list of the faulting process and its page table. Every operation
that other processors can interleave with is one operation here, in the order of
the source. Page contents, the translation cache and the diagnostics are left
out. The page-table operations are those on abstract address spaces, named by
page number; `exec_view` is their connection with the tables in memory.
-/
namespace Kevlar

open Concurrent (Prog Exec)

/-- The flags of `PageFaultReason` that the handler looks at. -/
structure FaultReason where
  present : Bool
  causedByWrite : Bool
  deriving Repr, DecidableEq

/-- What the handler asks a file: `is_content_immutable` and `data_vaddr`. -/
structure FileInfo where
  isContentImmutable : Bool
  dataVaddr : Option ℕ
  deriving Repr, DecidableEq

/-- How a call ends: it returns, a signal is sent to the process, or the process
is killed because memory ran out. -/
inductive FaultOutcome
  | returned
  | signalled
  | killed
  deriving Repr, DecidableEq

namespace Vm

/-- `find_vma_cached`: the area of the last fault first, then the whole list. -/
def findVmaCached (vm : Vm) (vaddr : ℕ) : Option VmArea × Vm :=
  match (vm.lastFaultVmaIdx.bind (vm.vmAreas[·]?)).filter (·.contains vaddr) with
  | some vma => (some vma, vm)
  | none =>
    let i := vm.vmAreas.findIdx? (·.contains vaddr)
    (i.bind (vm.vmAreas[·]?), { vm with lastFaultVmaIdx := i })

end Vm

namespace Space

/-- One page of the batch. Under a 2 MB leaf the frame of the leaf is taken for
the leaf table: the region then maps what the words of that frame say. -/
def batchStep (words : ℕ → ℕ → Entry) (s : Space) (page : ℕ) (paddr : Frame)
    (prot : MMapProt) : Bool × Space :=
  match s (page / 512) with
  | .huge _ => tryMapUserPageWithProt
      (Function.update s (page / 512) (.table (words (page / 512)))) page paddr prot
  | _ => s.tryMapUserPageWithProt page paddr prot

/-- The pages of the batch in turn, with the indices of those that were mapped. -/
def batchFrom (words : ℕ → ℕ → Entry) (prot : MMapProt) :
    ℕ → Space → ℕ → List Frame → List ℕ × Space
  | _, s, _, [] => ([], s)
  | i, s, page, paddr :: paddrs =>
    let r := s.batchStep words page paddr prot
    let rest := batchFrom words prot (i + 1) r.2 (page + 1) paddrs
    (if r.1 then i :: rest.1 else rest.1, rest.2)

end Space

/-- The page-table operations of the handler. -/
inductive TableOp
  | isHugeMapped (page : ℕ)
  | splitHugePage (page : ℕ)
  | lookupPaddr (page : ℕ)
  | isPdeEmpty (page : ℕ)
  | updatePageFlags (page : ℕ) (prot : MMapProt)
  | unmapUserPage (page : ℕ)
  | mapPage (page : ℕ) (paddr : Frame) (attrs : PageAttrs)
  | tryMapUserPageWithProt (page : ℕ) (paddr : Frame) (prot : MMapProt)
  | mapHugeUserPage (page : ℕ) (paddr : Frame) (prot : MMapProt)
  | batchTryMapUserPagesWithProt (page : ℕ) (paddrs : List Frame) (prot : MMapProt)

namespace TableOp

def Ans : TableOp → Type
  | isHugeMapped _ => Option Entry
  | splitHugePage _ => Option Frame
  | lookupPaddr _ => Option Frame
  | isPdeEmpty _ => Bool
  | updatePageFlags .. => Bool
  | unmapUserPage _ => Option Frame
  | mapPage .. => Unit
  | tryMapUserPageWithProt .. => Bool
  | mapHugeUserPage .. => Unit
  | batchTryMapUserPagesWithProt .. => List ℕ

/-- The operation on an address space; `words` are the contents of the frames
that a batch takes for tables, and `none` is a panic. -/
def run (words : ℕ → ℕ → Entry) : (o : TableOp) → Space → Option (o.Ans × Space)
  | isHugeMapped page, s => some (s.isHugeMapped page, s)
  | splitHugePage page, s => some (s.splitHugePage page)
  | lookupPaddr page, s => some (s.lookupPaddr page, s)
  | isPdeEmpty page, s => some (s.isPdeEmpty page, s)
  | updatePageFlags page prot, s => some (s.updatePageFlags page prot)
  | unmapUserPage page, s => some (s.unmapUserPage page)
  | mapPage page paddr attrs, s => (s.mapPage page paddr attrs).map (((), ·))
  | tryMapUserPageWithProt page paddr prot, s => some (s.tryMapUserPageWithProt page paddr prot)
  | mapHugeUserPage page paddr prot, s => some ((), s.mapHugeUserPage page paddr prot)
  | batchTryMapUserPagesWithProt page paddrs prot, s =>
    some (s.batchFrom words prot 0 page paddrs)

end TableOp

namespace PageTable

/-- An operation of the handler in memory, at a page of the user half. A 2 MB leaf is mapped
over an empty region only, and batches are left out. -/
def memorySem (root : Frame) (mc : Machine) : (o : TableOp) → o.Ans → Machine → Prop
  | .isHugeMapped page, x, mc' =>
    page < 2 ^ 35 ∧ isHugeMapped mc root (page * pageSize) = some (x, mc')
  | .splitHugePage page, x, mc' =>
    page < 2 ^ 35 ∧ splitHugePage mc root (page * pageSize) = some (x, mc')
  | .lookupPaddr page, x, mc' =>
    page < 2 ^ 35 ∧ lookupPaddr mc root (page * pageSize) = some (x, mc')
  | .isPdeEmpty page, x, mc' =>
    page < 2 ^ 35 ∧ isPdeEmpty mc root (page * pageSize) = some (x, mc')
  | .updatePageFlags page prot, x, mc' =>
    page < 2 ^ 35 ∧ updatePageFlags mc root (page * pageSize) prot = some (x, mc')
  | .unmapUserPage page, x, mc' =>
    page < 2 ^ 35 ∧ unmapUserPage mc root (page * pageSize) = some (x, mc')
  | .mapPage page paddr attrs, _, mc' =>
    page < 2 ^ 35 ∧ mapPage mc root (page * pageSize) paddr attrs = some mc'
  | .tryMapUserPageWithProt page paddr prot, x, mc' => page < 2 ^ 35 ∧
    tryMapUserPageWithProt mc root (page * pageSize) paddr prot = some (x, mc')
  | .mapHugeUserPage page paddr prot, _, mc' => page < 2 ^ 35 ∧ paddr ≠ 0 ∧ paddr % 512 = 0 ∧
    view ∅ mc root (page / 512) = .empty ∧
    mapHugeUserPage mc root (page * pageSize) paddr prot = some mc'
  | .batchTryMapUserPagesWithProt .., _, _ => False

/-- An operation on an address space. -/
def spaceSem (words : ℕ → ℕ → Entry) (s : Space) (o : TableOp) (x : o.Ans) (s' : Space) : Prop :=
  o.run words s = some (x, s')

variable {root : Frame} {mc mc' : Machine} {words : ℕ → ℕ → Entry}

lemma spaceSem_view {o : TableOp} {x : o.Ans} (T : Tree ∅ mc root)
    (h : memorySem root mc o x mc') :
    spaceSem words (view ∅ mc root) o x (view ∅ mc' root) ∧ Tree ∅ mc' root := by
  have hpage : ∀ page, page * pageSize / pageSize = page := fun page =>
    Nat.mul_div_cancel page (by decide)
  have hv : ∀ {page}, page < 2 ^ 35 → page * pageSize < 2 ^ 47 := by
    unfold pageSize
    omega
  have hX : ∀ {v}, region v ∉ (∅ : Finset ℕ) := Finset.notMem_empty _
  have hacts : ∀ {α} {r r' : α × Space} {x : α}, Acts ∅ root mc r x mc' → r = r' →
      some r' = some (x, view ∅ mc' root) ∧ Tree ∅ mc' root := by
    rintro α r _ x hA rfl
    rw [hA.result_eq, hA.view_eq]
    exact ⟨rfl, hA.grows.tree⟩
  cases o with
  | isHugeMapped => exact hacts (isHugeMapped_acts T (hv h.1) hX h.2) (by rw [hpage]; rfl)
  | splitHugePage => exact hacts (splitHugePage_acts T (hv h.1) hX h.2) (by rw [hpage])
  | lookupPaddr => exact hacts (lookupPaddr_acts T (hv h.1) hX h.2) (by rw [hpage]; rfl)
  | isPdeEmpty => exact hacts (isPdeEmpty_acts T (hv h.1) hX h.2) (by rw [hpage]; rfl)
  | updatePageFlags => exact hacts (updatePageFlags_acts T (hv h.1) hX h.2) (by rw [hpage])
  | unmapUserPage => exact hacts (unmapUserPage_acts T (hv h.1) hX h.2) (by rw [hpage])
  | tryMapUserPageWithProt =>
    exact hacts (tryMapUserPageWithProt_acts T (hv h.1) hX h.2) (by rw [hpage])
  | mapPage =>
    obtain ⟨s, hs, hA⟩ := mapPage_acts T (hv h.1) hX h.2
    rw [hpage] at hs
    simp only [spaceSem, TableOp.run, hs]
    exact hacts hA rfl
  | mapHugeUserPage page =>
    obtain ⟨hlt, hne, haligned, hempty, h⟩ := h
    rw [← hpage page] at hempty
    exact hacts (mapHugeUserPage_acts T (hv hlt) hX hne haligned hempty h) (by rw [hpage]; rfl)
  | batchTryMapUserPagesWithProt => cases h

/-- A program of page-table operations that is executed in memory is one on the address
space with the same result, by which the MMU then translates the user half. -/
theorem exec_view {α : Type} {p : Prog TableOp TableOp.Ans α} {a : α} (T : Tree ∅ mc root)
    (h : Exec (memorySem root) p mc a mc') :
    Exec (spaceSem words) p (view ∅ mc root) a (view ∅ mc' root) ∧ Tree ∅ mc' root ∧
      ∀ page < 2 ^ 35, translate mc'.mem root page = (view ∅ mc' root).translate page := by
  induction h with
  | ret => exact ⟨.ret _ _, T, fun page hp => translate_eq_view T hp (Finset.notMem_empty _)⟩
  | act hsem _ ih =>
    obtain ⟨hstep, T₁⟩ := spaceSem_view T hsem
    obtain ⟨hexec, hrest⟩ := ih T₁
    exact ⟨.act hstep hexec, hrest⟩

/-- A 2 MB leaf is split and its second page unmapped. -/
theorem exec_view_oneHugeLeaf : ∃ mc', Exec (spaceSem fun _ _ => 0)
    (.act (.splitHugePage 512) fun _ => .act (.unmapUserPage 513) .ret)
    (view ∅ oneHugeLeaf 1) (some 513) (view ∅ mc' 1) :=
  ⟨_, And.left <| exec_view oneHugeLeaf_view.1.tree <|
    .act ⟨by decide, rfl⟩ <| .act ⟨by decide, rfl⟩ <| .ret _ _⟩

end PageTable

/-- The operations of the handler on the memory manager. A panic has no answer. -/
inductive MmOp
  | allocPage
  | allocHugePage
  | allocPageBatch (n : ℕ)
  | freePages (f : Frame)
  | pageRefInc (f : Frame)
  | pageRefDec (f : Frame)
  | pageRefCount (f : Frame)
  | pageRefInit (f : Frame)
  | pageRefInitHuge (f : Frame)
  | pageRefInitKernelImage (f : Frame)
  | pageCacheLookup (file : FileId) (index : ℕ)
  | pageCacheInsert (file : FileId) (index : ℕ) (f : Frame)
  | directMapEnabled
  | readFile (file : FileId) (offset len : ℕ)
  | lockVm
  | unlockVm
  | findVmaCached (vaddr : ℕ)
  | tryGrowStack (vaddr : ℕ)
  | isGhostForked
  | kernelPanic
  | table (o : TableOp)

namespace MmOp

def Ans : MmOp → Type
  | allocPage => Option Frame
  | allocHugePage => Option Frame
  | allocPageBatch _ => List Frame
  | freePages _ => Unit
  | pageRefInc _ => Unit
  | pageRefDec _ => Bool
  | pageRefCount _ => ℕ
  | pageRefInit _ => Unit
  | pageRefInitHuge _ => Unit
  | pageRefInitKernelImage _ => Unit
  | pageCacheLookup .. => Option Frame
  | pageCacheInsert .. => Unit
  | directMapEnabled => Bool
  | readFile .. => Bool
  | lockVm => Unit
  | unlockVm => Unit
  | findVmaCached _ => Option VmArea
  | tryGrowStack _ => Bool
  | isGhostForked => Bool
  | kernelPanic => Empty
  | table o => o.Ans

end MmOp

abbrev FaultProg (α : Type) : Type := Prog MmOp MmOp.Ans α

namespace Fault

/-- The program that performs one operation. -/
abbrev op (o : MmOp) : FaultProg o.Ans := .act o .ret

abbrev allocPage : FaultProg (Option Frame) := op .allocPage
abbrev allocHugePage : FaultProg (Option Frame) := op .allocHugePage
abbrev allocPageBatch (n : ℕ) : FaultProg (List Frame) := op (.allocPageBatch n)
abbrev freePages (f : Frame) : FaultProg Unit := op (.freePages f)
abbrev pageRefInc (f : Frame) : FaultProg Unit := op (.pageRefInc f)
abbrev pageRefDec (f : Frame) : FaultProg Bool := op (.pageRefDec f)
abbrev pageRefCount (f : Frame) : FaultProg ℕ := op (.pageRefCount f)
abbrev pageRefInit (f : Frame) : FaultProg Unit := op (.pageRefInit f)
abbrev pageRefInitHuge (f : Frame) : FaultProg Unit := op (.pageRefInitHuge f)
abbrev pageRefInitKernelImage (f : Frame) : FaultProg Unit :=
  op (.pageRefInitKernelImage f)
abbrev pageCacheLookup (file : FileId) (index : ℕ) : FaultProg (Option Frame) :=
  op (.pageCacheLookup file index)
abbrev pageCacheInsert (file : FileId) (index : ℕ) (f : Frame) : FaultProg Unit :=
  op (.pageCacheInsert file index f)
abbrev directMapEnabled : FaultProg Bool := op .directMapEnabled
abbrev readFile (file : FileId) (offset len : ℕ) : FaultProg Bool :=
  op (.readFile file offset len)
abbrev lockVm : FaultProg Unit := op .lockVm
abbrev unlockVm : FaultProg Unit := op .unlockVm
abbrev findVmaCached (vaddr : ℕ) : FaultProg (Option VmArea) := op (.findVmaCached vaddr)
abbrev tryGrowStack (vaddr : ℕ) : FaultProg Bool := op (.tryGrowStack vaddr)
abbrev isGhostForked : FaultProg Bool := op .isGhostForked
abbrev kernelPanic : FaultProg FaultOutcome := .act .kernelPanic Empty.elim
abbrev isHugeMapped (page : ℕ) : FaultProg (Option Entry) :=
  op (.table (.isHugeMapped page))
abbrev splitHugePage (page : ℕ) : FaultProg (Option Frame) :=
  op (.table (.splitHugePage page))
abbrev lookupPaddr (page : ℕ) : FaultProg (Option Frame) := op (.table (.lookupPaddr page))
abbrev isPdeEmpty (page : ℕ) : FaultProg Bool := op (.table (.isPdeEmpty page))
abbrev updatePageFlags (page : ℕ) (prot : MMapProt) : FaultProg Bool :=
  op (.table (.updatePageFlags page prot))
abbrev unmapUserPage (page : ℕ) : FaultProg (Option Frame) :=
  op (.table (.unmapUserPage page))
abbrev mapPage (page : ℕ) (paddr : Frame) (attrs : PageAttrs) : FaultProg Unit :=
  op (.table (.mapPage page paddr attrs))
abbrev tryMapUserPageWithProt (page : ℕ) (paddr : Frame) (prot : MMapProt) : FaultProg Bool :=
  op (.table (.tryMapUserPageWithProt page paddr prot))
abbrev mapHugeUserPage (page : ℕ) (paddr : Frame) (prot : MMapProt) : FaultProg Unit :=
  op (.table (.mapHugeUserPage page paddr prot))
abbrev batchTryMapUserPagesWithProt (page : ℕ) (paddrs : List Frame) (prot : MMapProt) :
    FaultProg (List ℕ) := op (.table (.batchTryMapUserPagesWithProt page paddrs prot))

/-- The handler leaves: the lock of the address space is released. -/
def finish (out : FaultOutcome) : FaultProg FaultOutcome := do
  unlockVm
  return out

/-- `map_user_page_with_prot`. -/
def mapUserPageWithProt (page : ℕ) (paddr : Frame) (prot : MMapProt) : FaultProg Unit := do
  pageRefInit paddr
  mapPage page paddr (.ofProt prot)

/-- The flags that `map_device_page` sets: uncached, and never executable since
the handler passes at most `PROT_WRITE`. -/
def deviceAttrs (prot : MMapProt) : PageAttrs :=
  { PageAttrs.ofProt { MMapProt.none with write := prot.write } with
    cacheDisable := true
    writeThrough := true }

/-- A 2 MB leaf over the page is split before its 4 KB entries are used. -/
def splitIfHuge (page : ℕ) : FaultProg Unit := do
  let huge ← isHugeMapped page
  if huge.isSome then
    let _ ← splitHugePage page
    return ()
  else return ()

/-- The copy of a copy-on-write fault. The frame is pinned for the copy; both
references are dropped before the entry of the page is replaced, and the frame
is freed after that if the second drop was the last. -/
def copyOnWrite (page : ℕ) (old : Frame) (prot : MMapProt) (isGhost : Bool) :
    FaultProg FaultOutcome := do
  if isGhost then
    match ← allocPage with
    | none => finish .killed
    | some new =>
      pageRefInit new
      mapUserPageWithProt page new prot
      finish .returned
  else
    pageRefInc old
    match ← allocPage with
    | none =>
      let _ ← pageRefDec old
      finish .killed
    | some new =>
      pageRefInit new
      let _ ← pageRefDec old
      let shouldFreeOld ← pageRefDec old
      mapUserPageWithProt page new prot
      if shouldFreeOld then
        freePages old
        finish .returned
      else finish .returned

/-- The private copy of a file page whose area is read-only: the new page is
mapped writable all the same. -/
def copyPrivateFilePage (page : ℕ) (old : Frame) (prot : MMapProt) :
    FaultProg FaultOutcome := do
  match ← allocPage with
  | none => finish .killed
  | some new =>
    pageRefInit new
    let _ ← unmapUserPage page
    mapUserPageWithProt page new { prot with write := true }
    let shouldFreeOld ← pageRefDec old
    if shouldFreeOld then
      freePages old
      finish .returned
    else finish .returned

/-- The end of a fault on a mapped page to which copy-on-write does not apply:
the flags are renewed from the area, or a private file page is copied for a write
that the area forbids. The source has it twice, for a present page and for a page
that was mapped in the meantime. -/
def permissionTail (vma : VmArea) (page : ℕ) (reason : FaultReason) : FaultProg FaultOutcome :=
  if reason.causedByWrite && !vma.prot.write then
    if !vma.isShared && !vma.areaType.isAnonymous then do
      match ← lookupPaddr page with
      | some old => copyPrivateFilePage page old vma.prot
      | none => finish .signalled
    else finish .signalled
  else do
    let _ ← updatePageFlags page vma.prot
    finish .returned

/-- A fault on a present page is a permission fault. -/
def presentFault (vma : VmArea) (page : ℕ) (paddr : Frame) (reason : FaultReason) :
    FaultProg FaultOutcome := do
  freePages paddr
  splitIfHuge page
  if vma.prot = .none then finish .signalled
  else if reason.causedByWrite && vma.prot.write then
    match ← lookupPaddr page with
    | none => permissionTail vma page reason
    | some old =>
      if vma.isShared then
        let _ ← updatePageFlags page vma.prot
        finish .returned
      else
        let isGhost ← isGhostForked
        let refcount ← pageRefCount old
        if 1 < refcount || isGhost then copyOnWrite page old vma.prot isGhost
        else
          let _ ← updatePageFlags page vma.prot
          finish .returned
  else permissionTail vma page reason

/-- Drop the prefaulted pages that the batch could not map. -/
def freeUnmapped (mapped : List ℕ) : ℕ → List Frame → FaultProg Unit
  | _, [] => return ()
  | i, f :: fs => do
    if i ∈ mapped then freeUnmapped mapped (i + 1) fs
    else
      let last ← pageRefDec f
      if last then
        freePages f
        freeUnmapped mapped (i + 1) fs
      else freeUnmapped mapped (i + 1) fs

def pageRefInitAll : List Frame → FaultProg Unit
  | [] => return ()
  | f :: fs => do
    pageRefInit f
    pageRefInitAll fs

/-- The pages after the faulting one that the area still covers, at most fifteen. -/
def numPrefault (aligned vmaEnd : ℕ) : ℕ :=
  ((List.range 15).takeWhile fun i =>
    let next := wadd aligned ((i + 1) * pageSize)
    decide (next < vmaEnd) && decide (next ≠ 0)).length

/-- Fault-around: anonymous pages behind the faulting one are mapped as well. -/
def faultAround (vma : VmArea) (aligned : ℕ) : FaultProg FaultOutcome :=
  if vma.areaType.isAnonymous && decide (0 < numPrefault aligned vma.endAddr) then do
    let pages ← allocPageBatch (numPrefault aligned vma.endAddr)
    pageRefInitAll pages
    let mapped ← batchTryMapUserPagesWithProt (aligned / pageSize + 1) pages vma.prot
    freeUnmapped mapped 0 pages
    finish .returned
  else finish .returned

/-- What the file branch decided about the frame to map: the cache slot it
belongs to if the page may be cached, whether the slot was already filled, and
whether the frame is shared with the cache. -/
structure Filled where
  paddr : Frame
  slot : Option (FileId × ℕ)
  cacheHit : Bool
  cacheShared : Bool

/-- Map the frame with a 4 KB entry. A frame that could not be mapped is freed,
whoever else may share it. -/
def mapDemandPage (vma : VmArea) (aligned : ℕ) (reason : FaultReason) (fill : Filled) :
    FaultProg FaultOutcome := do
  splitIfHuge (aligned / pageSize)
  let mapped ← tryMapUserPageWithProt (aligned / pageSize) fill.paddr vma.prot
  if !mapped then
    freePages fill.paddr
    permissionTail vma (aligned / pageSize) reason
  else if fill.cacheShared then faultAround vma aligned
  else
    pageRefInit fill.paddr
    match fill.slot with
    | some (file, index) =>
      if fill.cacheHit then faultAround vma aligned
      else
        pageRefInc fill.paddr
        pageCacheInsert file index fill.paddr
        faultAround vma aligned
    | none => faultAround vma aligned

/-- `PROT_NONE` areas get a signal and the frame is freed; an anonymous area
that spans the whole empty 2 MB region gets a 2 MB leaf. -/
def mapFilled (vma : VmArea) (aligned : ℕ) (reason : FaultReason) (fill : Filled) :
    FaultProg FaultOutcome :=
  if vma.prot = .none then do
    freePages fill.paddr
    finish .signalled
  else
    let hugeBase := alignDown aligned hugePageSize
    if vma.areaType.isAnonymous && decide (vma.start ≤ hugeBase) &&
        decide (wadd hugeBase hugePageSize ≤ vma.endAddr) then
      if hugeBase = 0 then kernelPanic
      else do
        if ← isPdeEmpty (hugeBase / pageSize) then
          match ← allocHugePage with
          | some huge =>
            pageRefInitHuge huge
            mapHugeUserPage (hugeBase / pageSize) huge vma.prot
            freePages fill.paddr
            finish .returned
          | none => mapDemandPage vma aligned reason fill
        else mapDemandPage vma aligned reason fill
    else mapDemandPage vma aligned reason fill

/-- Where the file data of a page comes from: the offset inside the page, the
position in the file and the number of bytes. -/
def fileExtent (vma : VmArea) (aligned offset fileSize : ℕ) : ℕ × ℕ × ℕ :=
  if aligned < vma.start then
    (vma.start % pageSize, offset, min fileSize (pageSize - vma.start % pageSize))
  else if fileSize ≤ aligned - vma.start then (0, 0, 0)
  else (0, wadd offset (aligned - vma.start), min (fileSize - (aligned - vma.start)) pageSize)

/-- The frame that backs a position of the file image in the kernel's memory. -/
def directFrame (vaddr : ℕ) : Frame := wsub vaddr kernelBaseAddr / pageSize

/-- Nothing shared was found: the data is read into the fresh page. -/
def readInto (vma : VmArea) (aligned : ℕ) (reason : FaultReason) (file : FileId)
    (offset len : ℕ) (fill : Filled) : FaultProg FaultOutcome :=
  if 0 < len then do
    if ← readFile file offset len then mapFilled vma aligned reason fill
    else kernelPanic
  else mapFilled vma aligned reason fill

/-- A page of a file mapping: a read-only page of an immutable file comes from
the cache or straight from the file image in the kernel, any other is read. A
cached page is never copied for a writable area, since only read-only ones ask. -/
def fileFault (files : FileId → FileInfo) (vma : VmArea) (aligned : ℕ) (paddr : Frame)
    (reason : FaultReason) (file : FileId) (offset fileSize : ℕ) : FaultProg FaultOutcome :=
  let (offsetInPage, offsetInFile, copyLen) := fileExtent vma aligned offset fileSize
  let index := offsetInFile / pageSize
  let isCacheable := (files file).isContentImmutable && decide (offsetInPage = 0) &&
    decide (copyLen = pageSize) && !vma.prot.write
  if isCacheable then do
    match ← pageCacheLookup file index with
    | some cached =>
      freePages paddr
      pageRefInc cached
      mapFilled vma aligned reason ⟨cached, some (file, index), true, true⟩
    | none =>
      let enabled ← directMapEnabled
      let direct := (if enabled then (files file).dataVaddr else none).map (wadd · offsetInFile)
      match direct.filter (isAligned · pageSize) with
      | some vaddr =>
        pageRefInitKernelImage (directFrame vaddr)
        freePages paddr
        pageCacheInsert file index (directFrame vaddr)
        mapFilled vma aligned reason ⟨directFrame vaddr, some (file, index), false, true⟩
      | none =>
        readInto vma aligned reason file offsetInFile copyLen
          ⟨paddr, some (file, index), false, false⟩
  else
    readInto vma aligned reason file offsetInFile copyLen ⟨paddr, none, false, false⟩

/-- A fault on a page that is not present. -/
def demandFault (files : FileId → FileInfo) (vma : VmArea) (aligned : ℕ) (paddr : Frame)
    (reason : FaultReason) : FaultProg FaultOutcome :=
  match vma.areaType with
  | .anonymous => mapFilled vma aligned reason ⟨paddr, none, false, false⟩
  | .deviceMemory physBase => do
    freePages paddr
    let device := wadd physBase (wsub aligned vma.start) / pageSize
    mapPage (aligned / pageSize) device (deviceAttrs vma.prot)
    finish .returned
  | .file file offset fileSize => fileFault files vma aligned paddr reason file offset fileSize

/-- The handler once the area of the fault is known. -/
def faultInArea (files : FileId → FileInfo) (aligned : ℕ) (paddr : Frame)
    (reason : FaultReason) (vma : VmArea) : FaultProg FaultOutcome :=
  if reason.present then presentFault vma (aligned / pageSize) paddr reason
  else demandFault files vma aligned paddr reason

def noArea (paddr : Frame) : FaultProg FaultOutcome := do
  freePages paddr
  finish .signalled

/-- `handle_page_fault`; `none` is the null address. -/
def handlePageFault (files : FileId → FileInfo) (unaligned : Option ℕ) (reason : FaultReason) :
    FaultProg FaultOutcome :=
  match unaligned with
  | none => return .signalled
  | some vaddr =>
    let aligned := alignDown vaddr pageSize
    if aligned = 0 then return .signalled
    else do
      match ← allocPage with
      | none => return .killed
      | some paddr =>
        lockVm
        match ← findVmaCached vaddr with
        | some vma => faultInArea files aligned paddr reason vma
        | none =>
          if ← tryGrowStack aligned then
            match ← findVmaCached vaddr with
            | some vma => faultInArea files aligned paddr reason vma
            | none => noArea paddr
          else noArea paddr

end Fault

end Kevlar
