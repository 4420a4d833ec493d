import Kevlar.AtomicProgram
import Kevlar.PageZones

/-!
# The page allocator

On top of the zones the page allocator keeps a cache of single pages, a pool of
single pages that are already zero and a pool of 2 MB pages that are already zero.
Each of them has its own lock, and a function takes one lock after the other. Its
steps under one lock are one operation here, and a function is the program of its
operations, so that other processors can run between any two of them.

The state also says where every page that is not in a zone or in a pool is: on its
way through a function (`inFlight`, with the processor that executes the function)
or handed out to a caller. The diagnostics of the source (kernel stacks, rings of
recent frees, checks for zeroed contents, the scan of the pools after a large
allocation) are left out; the check for double frees changes what a free does and
is kept, with the switch that turns it on read as any value.
-/
namespace Kevlar

open Concurrent (Prog)
open Buddy

def pageCacheSize : ℕ := 64

def prezeroedPoolSize : ℕ := 512

def prezeroedHugePoolSize : ℕ := 8

/-- `num_pages_to_order`: the number of bits of `num_pages - 1`. -/
def numPagesToOrder (numPages : ℕ) : ℕ :=
  if numPages ≤ 1 then 0 else (numPages - 1).log2 + 1

/-- Pages that are handled together: where they start and how many were asked for. -/
structure Grant where
  ptr : ℕ
  pages : ℕ
  deriving Repr, DecidableEq

namespace Grant

/-- The block of the zones that the pages are taken from. -/
def block (g : Grant) : Block := ⟨g.ptr, numPagesToOrder g.pages⟩

def page (ptr : ℕ) : Grant := ⟨ptr, 1⟩

def huge (ptr : ℕ) : Grant := ⟨ptr, 512⟩

end Grant

/-- The state of the allocator. The last two fields are not stored anywhere: they
say what the processors and the callers have. -/
structure PageMem where
  zones : List BuddyAllocator
  cache : List ℕ
  cacheCount : ℕ
  prezeroed : List ℕ
  prezeroedCount : ℕ
  hugePool : List ℕ
  numFree : ℕ
  numTotal : ℕ
  inFlight : Multiset (ℕ × Grant)
  handed : Multiset Grant

/-- The steps of the allocator's functions, each under one lock or on one counter. -/
inductive PageOp
  | loadPrezeroedCount
  | popPrezeroed
  | subPrezeroedCount
  | loadCacheCount
  | popCache
  | subCacheCount
  | refillTake
  | refillPush (buf : List ℕ)
  | drainCache (max : ℕ)
  | batchTake (max : ℕ)
  | subFree (n : ℕ)
  | addFree (n : ℕ)
  | pushPrezeroed (ptr : ℕ)
  | loadZeroCheck
  | inCache (ptr : ℕ)
  | inPrezeroed (ptr : ℕ)
  | pushCache (ptr : ℕ)
  | allocZones (numPages : ℕ)
  | freeZones (ptr numPages : ℕ)
  | popHuge
  | pushHuge (ptr : ℕ)
  | handOut (grants : List Grant)
  | giveUp (grant : Grant)

namespace PageOp

def Ans : PageOp → Type
  | loadPrezeroedCount => ℕ
  | popPrezeroed => Option ℕ
  | subPrezeroedCount => Unit
  | loadCacheCount => ℕ
  | popCache => Option ℕ
  | subCacheCount => Unit
  | refillTake => List ℕ
  | refillPush _ => Unit
  | drainCache _ => List ℕ
  | batchTake _ => List ℕ
  | subFree _ => Unit
  | addFree _ => Unit
  | pushPrezeroed _ => Bool
  | loadZeroCheck => Bool
  | inCache _ => Bool
  | inPrezeroed _ => Bool
  | pushCache _ => Bool
  | allocZones _ => Option ℕ
  | freeZones .. => Unit
  | popHuge => Option ℕ
  | pushHuge _ => Bool
  | handOut _ => Unit
  | giveUp _ => Unit

end PageOp

namespace PageMem

/-- Pages come into the hands of a processor. -/
def carry (m : PageMem) (t : ℕ) (grants : Multiset Grant) : PageMem :=
  { m with inFlight := grants.map (t, ·) + m.inFlight }

/-- Pages leave the hands of a processor. -/
def drop (m : PageMem) (t : ℕ) (grants : Multiset Grant) : PageMem :=
  { m with inFlight := m.inFlight - grants.map (t, ·) }

/-- `PageCache::push` for every page of a buffer; what does not fit is not pushed. -/
def pushAll (cache buf : List ℕ) : List ℕ :=
  buf.foldl (fun cache ptr => if cache.length < pageCacheSize then ptr :: cache else cache) cache

end PageMem

/-- One step of a function that runs on processor `t`. -/
def pageSem (t : ℕ) (m : PageMem) : (o : PageOp) → o.Ans → PageMem → Prop
  | .loadPrezeroedCount, x, m' => x = m.prezeroedCount ∧ m' = m
  | .popPrezeroed, x, m' => match m.prezeroed with
    | [] => x = none ∧ m' = m
    | ptr :: rest => x = some ptr ∧ m' = { m with prezeroed := rest }.carry t {Grant.page ptr}
  | .subPrezeroedCount, _, m' => m' = { m with prezeroedCount := wsub m.prezeroedCount 1 }
  | .loadCacheCount, x, m' => x = m.cacheCount ∧ m' = m
  | .popCache, x, m' => match m.cache with
    | [] => x = none ∧ m' = m
    | ptr :: rest => x = some ptr ∧ m' = { m with cache := rest }.carry t {Grant.page ptr}
  | .subCacheCount, _, m' => m' = { m with cacheCount := wsub m.cacheCount 1 }
  | .refillTake, x, m' => ∃ zones, takeZones pageCacheSize m.zones = some (x, zones) ∧
      m' = { m with zones := zones }.carry t ↑(List.map Grant.page x)
  | .refillPush buf, _, m' => m' = { m with
      cache := PageMem.pushAll m.cache buf
      cacheCount := (PageMem.pushAll m.cache buf).length
      numFree := wsub m.numFree buf.length }.drop t ↑(buf.map Grant.page)
  | .drainCache max, x, m' => x = m.cache.take max ∧ m' = { m with
      cache := m.cache.drop max
      cacheCount := (m.cache.drop max).length }.carry t ↑((m.cache.take max).map Grant.page)
  | .batchTake max, x, m' => ∃ zones, takeZones max m.zones = some (x, zones) ∧
      m' = { m with zones := zones }.carry t ↑(List.map Grant.page x)
  | .subFree n, _, m' => m' = { m with numFree := wsub m.numFree n }
  | .addFree n, _, m' => m' = { m with numFree := wadd m.numFree n }
  | .pushPrezeroed ptr, x, m' =>
    if m.prezeroed.length < prezeroedPoolSize then x = true ∧ m' = { m with
      prezeroed := ptr :: m.prezeroed
      prezeroedCount := wadd m.prezeroedCount 1 }.drop t {Grant.page ptr}
    else x = false ∧ m' = m
  | .loadZeroCheck, _, m' => m' = m
  | .inCache ptr, x, m' => x = decide (ptr ∈ m.cache) ∧ m' = m
  | .inPrezeroed ptr, x, m' => x = decide (ptr ∈ m.prezeroed) ∧ m' = m
  | .pushCache ptr, x, m' =>
    if m.cache.length < pageCacheSize then x = true ∧ m' = { m with
      cache := ptr :: m.cache
      cacheCount := wadd m.cacheCount 1
      numFree := wadd m.numFree 1 }.drop t {Grant.page ptr}
    else x = false ∧ m' = m
  | .allocZones numPages, x, m' =>
    ∃ zones, allocZones (numPagesToOrder numPages) m.zones = some (x, zones) ∧
      m' = { m with zones := zones }.carry t ↑(x.map fun ptr => (⟨ptr, numPages⟩ : Grant)).toList
  | .freeZones ptr numPages, _, m' =>
    ∃ zones, freeZones ptr (numPagesToOrder numPages) m.zones = some zones ∧
      m' = { m with zones := zones, numFree := wadd m.numFree numPages }.drop t
        {(⟨ptr, numPages⟩ : Grant)}
  | .popHuge, x, m' => match m.hugePool with
    | [] => x = none ∧ m' = m
    | ptr :: rest => x = some ptr ∧ m' = { m with hugePool := rest }.carry t {Grant.huge ptr}
  | .pushHuge ptr, x, m' =>
    if m.hugePool.length < prezeroedHugePoolSize then
      x = true ∧ m' = { m with hugePool := ptr :: m.hugePool }.drop t {Grant.huge ptr}
    else x = false ∧ m' = m
  | .handOut grants, _, m' => m' = { m with handed := grants + m.handed }.drop t grants
  | .giveUp grant, _, m' => grant ∈ m.handed ∧
      m' = { m with handed := m.handed.erase grant }.carry t {grant}

abbrev PageProg (α : Type) : Type := Prog PageOp PageOp.Ans α

namespace PageAlloc

/-- The program that performs one step. -/
abbrev op (o : PageOp) : PageProg o.Ans := .act o .ret

abbrev loadPrezeroedCount : PageProg ℕ := op .loadPrezeroedCount
abbrev popPrezeroed : PageProg (Option ℕ) := op .popPrezeroed
abbrev subPrezeroedCount : PageProg Unit := op .subPrezeroedCount
abbrev loadCacheCount : PageProg ℕ := op .loadCacheCount
abbrev popCache : PageProg (Option ℕ) := op .popCache
abbrev subCacheCount : PageProg Unit := op .subCacheCount
abbrev refillTake : PageProg (List ℕ) := op .refillTake
abbrev refillPush (buf : List ℕ) : PageProg Unit := op (.refillPush buf)
abbrev drainCache (max : ℕ) : PageProg (List ℕ) := op (.drainCache max)
abbrev batchTake (max : ℕ) : PageProg (List ℕ) := op (.batchTake max)
abbrev subFree (n : ℕ) : PageProg Unit := op (.subFree n)
abbrev addFree (n : ℕ) : PageProg Unit := op (.addFree n)
abbrev pushPrezeroed (ptr : ℕ) : PageProg Bool := op (.pushPrezeroed ptr)
abbrev loadZeroCheck : PageProg Bool := op .loadZeroCheck
abbrev inCache (ptr : ℕ) : PageProg Bool := op (.inCache ptr)
abbrev inPrezeroed (ptr : ℕ) : PageProg Bool := op (.inPrezeroed ptr)
abbrev pushCache (ptr : ℕ) : PageProg Bool := op (.pushCache ptr)
abbrev allocZones (numPages : ℕ) : PageProg (Option ℕ) := op (.allocZones numPages)
abbrev freeZones (ptr numPages : ℕ) : PageProg Unit := op (.freeZones ptr numPages)
abbrev popHuge : PageProg (Option ℕ) := op .popHuge
abbrev pushHuge (ptr : ℕ) : PageProg Bool := op (.pushHuge ptr)
abbrev handOut (grants : List Grant) : PageProg Unit := op (.handOut grants)
abbrev giveUp (grant : Grant) : PageProg Unit := op (.giveUp grant)

/-- `refill_page_cache`. -/
def refillPageCache : PageProg ℕ := do
  let buf ← refillTake
  if 0 < buf.length then
    refillPush buf
    return buf.length
  else return 0

/-- The slow path of `alloc_page`: refill the cache, then pop. -/
def allocSlow : PageProg (Option ℕ) := do
  let count ← refillPageCache
  if 0 < count then
    match ← popCache with
    | some ptr =>
      subCacheCount
      return some ptr
    | none => return none
  else return none

/-- The fast path of `alloc_page`: pop from the cache if it seems to have a page. -/
def allocCached : PageProg (Option ℕ) := do
  let count ← loadCacheCount
  if 0 < count then
    match ← popCache with
    | some ptr =>
      subCacheCount
      subFree 1
      return some ptr
    | none => allocSlow
  else allocSlow

/-- `alloc_page`. Unless any contents will do, a page that is already zero is
tried first. -/
def allocPage (dirtyOk : Bool) : PageProg (Option ℕ) :=
  if dirtyOk then allocCached
  else do
    let count ← loadPrezeroedCount
    if 0 < count then
      match ← popPrezeroed with
      | some ptr =>
        subPrezeroedCount
        return some ptr
      | none => allocCached
    else allocCached

/-- The end of `alloc_page_batch`: the pages are taken off the count. -/
def countBatch (pages : List ℕ) : PageProg (List ℕ) :=
  if 0 < pages.length then do
    subFree pages.length
    return pages
  else return pages

/-- What the cache did not give to `alloc_page_batch` comes from the zones. -/
def completeBatch (max : ℕ) (pages : List ℕ) : PageProg (List ℕ) :=
  if pages.length < max then do
    let more ← batchTake (max - pages.length)
    countBatch (pages ++ more)
  else countBatch pages

/-- `alloc_page_batch`; `max` is at most the length of the output slice. -/
def allocPageBatch (max : ℕ) : PageProg (List ℕ) := do
  let count ← loadCacheCount
  if 0 < count then
    let pages ← drainCache max
    completeBatch max pages
  else completeBatch max []

/-- `alloc_pages`. -/
def allocPages (numPages : ℕ) (dirtyOk : Bool) : PageProg (Option ℕ) :=
  if numPages = 1 then allocPage dirtyOk
  else do
    match ← allocZones numPages with
    | some ptr =>
      subFree numPages
      return some ptr
    | none => return none

def allocHugePage : PageProg (Option ℕ) := allocPages 512 true

def allocHugePagePrezeroed : PageProg (Option ℕ) := popHuge

/-- The end of `free_pages` for a single page: it goes to the cache if there seems to
be room and to its zone otherwise. -/
def freeSingle (ptr : ℕ) : PageProg Unit := do
  let count ← loadCacheCount
  if count < pageCacheSize then
    if ← pushCache ptr then return ()
    else freeZones ptr 1
  else freeZones ptr 1

/-- `free_pages`. With the check for double frees switched on, a single page that is
already in a pool is left alone. -/
def freePages (ptr numPages : ℕ) : PageProg Unit :=
  if numPages = 1 then do
    if ← loadZeroCheck then
      if ← inCache ptr then return ()
      else if ← inPrezeroed ptr then return ()
      else freeSingle ptr
    else freeSingle ptr
  else freeZones ptr numPages

/-- `free_huge_page_and_zero`. -/
def freeHugePageAndZero (ptr : ℕ) : PageProg Unit := do
  if ← pushHuge ptr then addFree 512
  else freePages ptr 512

/-- The loop of `refill_prezeroed_pages`. -/
def refillPrezeroed : ℕ → ℕ → PageProg ℕ
  | 0, filled => return filled
  | target + 1, filled => do
    match ← allocPage true with
    | some ptr =>
      if ← pushPrezeroed ptr then refillPrezeroed target (filled + 1)
      else
        freePages ptr 1
        return filled
    | none => return filled

/-- `refill_prezeroed_pages`, run by the idle thread. -/
def refillPrezeroedPages : PageProg ℕ := do
  let current ← loadPrezeroedCount
  if prezeroedPoolSize / 2 ≤ current then return 0
  else refillPrezeroed (prezeroedPoolSize - current) 0

end PageAlloc

/-- The calls of the rest of the kernel. -/
inductive PageCall
  | allocPage (dirtyOk : Bool)
  | allocPageBatch (max : ℕ)
  | allocPages (numPages : ℕ) (dirtyOk : Bool)
  | allocHugePage
  | allocHugePagePrezeroed
  | freePages (grant : Grant)
  | freeHugePageAndZero (ptr : ℕ)
  | refillPrezeroedPages
  deriving DecidableEq

namespace PageCall

open PageAlloc

/-- Hand out what an allocation found. -/
def handOutFound (numPages : ℕ) : Option ℕ → PageProg Unit
  | some ptr => handOut [⟨ptr, numPages⟩]
  | none => return ()

/-- A call from the caller's side: it gives up what it frees and gets what it asked
for. -/
def prog : PageCall → PageProg Unit
  | allocPage dirtyOk => do handOutFound 1 (← PageAlloc.allocPage dirtyOk)
  | allocPageBatch max => do
    let pages ← PageAlloc.allocPageBatch max
    handOut (pages.map .page)
  | allocPages numPages dirtyOk => do
    handOutFound numPages (← PageAlloc.allocPages numPages dirtyOk)
  | allocHugePage => do handOutFound 512 (← PageAlloc.allocHugePage)
  | allocHugePagePrezeroed => do handOutFound 512 (← PageAlloc.allocHugePagePrezeroed)
  | freePages grant => do
    giveUp grant
    PageAlloc.freePages grant.ptr grant.pages
  | freeHugePageAndZero ptr => do
    giveUp (.huge ptr)
    PageAlloc.freeHugePageAndZero ptr
  | refillPrezeroedPages => do
    let _ ← PageAlloc.refillPrezeroedPages
    return ()

end PageCall

/-- The memory that the allocator is started with: up to eight regions that do not
overlap. -/
structure BootMemory where
  regions : List ManagedRegion
  apart : regions.Pairwise Apart
  length_le : regions.length ≤ 8

/-- `init`: a zone for each region, all its pages free. -/
def PageMem.init (boot : BootMemory) (words : ℕ → ℕ) : PageMem where
  zones := boot.regions.map fun r => .new r.base r.basePaddr r.len words fun _ => 0
  cache := []
  cacheCount := 0
  prezeroed := []
  prezeroedCount := 0
  hugePool := []
  numFree := (boot.regions.map fun r => r.len / pageSize).sum
  numTotal := (boot.regions.map fun r => r.len / pageSize).sum
  inFlight := 0
  handed := 0

end Kevlar
