import Kevlar.PageConservation

/-!
# The count of free pages

`NUM_FREE_PAGES` is changed by hand wherever a page comes or goes. Calls are made
one after the other here, and callers free what they have. A page that
`refill_page_cache` moves to the cache is taken off the count although it is free,
and taken off once more when it is handed out, unless it is the one that this very
call hands out. A 2 MB page from the pool of zeroed ones is handed out without
being taken off. As long as refills move one page at most and that pool gives
nothing, the count and the pages of the callers add up to all pages.
-/
namespace Kevlar
open Grant PageMem Function List Concurrent Buddy

/-- What a step takes off the count of free pages. -/
def PageOp.taken : PageOp → ℕ
  | .subFree n => n
  | .refillPush buf => buf.length
  | _ => 0

/-- The count is within its bounds and does not wrap in the next step. -/
def CountSound (m : PageMem) (o : PageOp) : Prop :=
  m.numFree ≤ m.numTotal ∧ o.taken ≤ m.numFree

/-- Refills take one page at most, and no page comes from the pool of zeroed 2 MB
pages. -/
def Counted : (o : PageOp) → o.Ans → Prop
  | .refillTake, x => List.length x ≤ 1
  | .popHuge, x => x = none
  | _, _ => True

/-- The steps of calls that are made one after the other. -/
def countedSem (m : PageMem) (o : PageOp) (x : o.Ans) (m' : PageMem) : Prop :=
  pageSem 0 m o x m' ∧ Counted o x

/-- The calls of the rest of the kernel, without the work of the idle thread. -/
def UserCall (p : PageProg Unit) : Prop :=
  ∃ call : PageCall, call ≠ .refillPrezeroedPages ∧ p = call.prog

/-- The number of pages of grants. -/
def pagesOf (gs : Multiset Grant) : ℕ := (gs.map Grant.pages).sum

lemma pagesOf_add (gs hs : Multiset Grant) : pagesOf (gs + hs) = pagesOf gs + pagesOf hs := by
  rw [pagesOf, Multiset.map_add, Multiset.sum_add]
  rfl

lemma pagesOf_singleton (g : Grant) : pagesOf {g} = g.pages := by
  rw [pagesOf, Multiset.map_singleton, Multiset.sum_singleton]

lemma pagesOf_pages (ptrs : List ℕ) : pagesOf ↑(ptrs.map Grant.page) = ptrs.length := by
  induction ptrs with
  | nil => rfl
  | cons ptr ptrs ih =>
    rw [PageSafe.coe_map_cons, pagesOf_add, pagesOf_singleton, ih, length_cons, add_comm]
    rfl

/-- The tokens when only processor 0 runs. -/
def alone (tok : Multiset Grant) : ℕ → Option (PageCall × Multiset Grant) :=
  update (fun _ => none) 0 (some (.allocHugePage, tok))

/-- The accounts within a call: `tok` is in the processor's hands, `due` is still to
be taken off the count and the count of cached pages is `lag` too high. -/
structure Tally (boot : BootMemory) (tok : Multiset Grant) (due : ℤ) (lag : ℕ) (m : PageMem) :
    Prop where
  holdings : Holdings boot m (alone tok)
  numFree : (m.numFree : ℤ) + pagesOf m.handed + pagesOf tok = m.numTotal + due
  due_le : due ≤ pagesOf tok
  numTotal : m.numTotal = (boot.regions.map fun r => r.len / pageSize).sum
  cacheCount : m.cacheCount = m.cache.length + lag
  prezeroed : m.prezeroed = []
  prezeroedCount : m.prezeroedCount = 0

lemma numPages_le_two_pow (numPages : ℕ) : numPages ≤ 2 ^ numPagesToOrder numPages := by
  rw [numPagesToOrder]
  split_ifs with hle
  · simpa using hle
  · have hlt := Nat.lt_log2_self (n := numPages - 1)
    omega

namespace Tally

variable {boot : BootMemory} {tok : Multiset Grant} {due : ℤ} {lag : ℕ} {m : PageMem}

section

variable (h : Tally boot tok due lag m)
include h

lemma inFlight_eq : m.inFlight.map Prod.snd = tok := by
  have hall : m.inFlight.filter (fun p => p.1 = 0) = m.inFlight := by
    rw [Multiset.filter_eq_self]
    intro p hp
    by_contra hne
    have hnone : m.carried p.1 = 0 := by
      rw [h.holdings.carried, alone, update_of_ne hne]
      rfl
    rw [carried, Multiset.map_eq_zero] at hnone
    have hmem : p ∈ m.inFlight.filter fun q => q.1 = p.1 := Multiset.mem_filter.mpr ⟨hp, rfl⟩
    rw [hnone] at hmem
    exact Multiset.notMem_zero p hmem
  have hcarried := h.holdings.carried_eq (show alone tok 0 = some (.allocHugePage, tok) from rfl)
  rwa [carried, hall] at hcarried

/-- The callers, the processor and the cache have no more pages than there are. -/
lemma pages_le : m.cache.length + pagesOf m.handed + pagesOf tok ≤ m.numTotal := by
  obtain ⟨live, hlive, hgood⟩ := h.holdings.zones
  have hsum := hgood.sum_pages_le
  rw [hgood.totalPages_eq, ← h.numTotal, ← Multiset.sum_coe, ← Multiset.map_coe, hlive,
    Multiset.map_map] at hsum
  have hle : pagesOf m.outside ≤ (m.outside.map (Block.pages ∘ block)).sum :=
    Multiset.sum_map_le_sum_map _ _ fun g _ => numPages_le_two_pow g.pages
  have hout : pagesOf m.outside = m.cache.length + pagesOf ↑(m.prezeroed.map page) +
      pagesOf ↑(m.hugePool.map huge) + pagesOf m.handed + pagesOf tok := by
    rw [outside, atRest, h.inFlight_eq]
    simp only [pagesOf_add, pagesOf_pages]
  omega

lemma numTotal_lt : m.numTotal < 2 ^ 32 := by
  have hbound : ∀ regions : List ManagedRegion,
      (regions.map fun r => r.len / pageSize).sum ≤ regions.length * 2 ^ 22 := by
    intro regions
    induction regions with
    | nil => simp
    | cons r regions ih =>
      have hr := r.below
      have hlen : r.len / pageSize ≤ 2 ^ 22 := by
        have hle : r.len ≤ 2 ^ 22 * pageSize := by
          have hsize : 2 ^ 22 * pageSize = 16 * 2 ^ 30 := by decide
          omega
        exact Nat.div_le_of_le_mul (by rwa [mul_comm])
      rw [map_cons, sum_cons, length_cons]
      omega
  have hregions := hbound boot.regions
  have hcount := boot.length_le
  rw [h.numTotal]
  omega

/-- What is due can be taken off the count. -/
lemma sound {o : PageOp} (ho : o.taken = 0 ∨ (o.taken : ℤ) ≤ due) : CountSound m o := by
  have hfree := h.numFree
  have hdue := h.due_le
  have hpages := h.pages_le
  constructor <;> omega

/-- Where the pages are after a step. -/
lemma moves {o : PageOp} {x : o.Ans} {m' : PageMem} (hsem : pageSem 0 m o x m')
    (hroom : Roomy m o) {P : o.Ans → Multiset Grant → Prop}
    (hsafe : PageSafe boot .allocHugePage (PageAlloc.op o) P tok) :
    ∃ tok', Holdings boot m' (alone tok') ∧ P x tok' := by
  obtain ⟨tok', hinv, hP⟩ := hsafe 0 m m' (alone tok) x h.holdings rfl ⟨hsem, hroom⟩
  rw [alone, update_idem] at hinv
  exact ⟨tok', hinv, hP⟩

/-- Pages taken from the zones are due. -/
lemma take {gs : Multiset Grant} {zones : List BuddyAllocator}
    (hhold : Holdings boot ({ m with zones := zones }.carry 0 gs) (alone (gs + tok))) :
    Tally boot (gs + tok) (due + pagesOf gs) lag ({ m with zones := zones }.carry 0 gs) := by
  have hfree := h.numFree
  have hdue := h.due_le
  refine ⟨hhold, ?_, ?_, h.numTotal, h.cacheCount, h.prezeroed, h.prezeroedCount⟩
  · rw [pagesOf_add]
    change (m.numFree : ℤ) + pagesOf m.handed + _ = m.numTotal + _
    omega
  · rw [pagesOf_add]
    omega

end

end Tally

/-- Every step of the program is performed with a sound count. -/
abbrev Counts {α : Type} (p : PageProg α) (Q : α → PageMem → Prop) (m : PageMem) : Prop :=
  wpAlways countedSem CountSound p Q m

namespace Counts

open PageAlloc
open PageSafe (found)

variable {boot : BootMemory} {tok rest : Multiset Grant} {due : ℤ} {lag : ℕ} {m : PageMem}

lemma loadPrezeroedCount {Q : ℕ → PageMem → Prop} (h : Tally boot tok due lag m)
    (hQ : Q 0 m) : Counts loadPrezeroedCount Q m := by
  refine ⟨h.sound (.inl rfl), ?_⟩
  rintro x m' ⟨⟨rfl, rfl⟩, -⟩
  rw [h.prezeroedCount]
  exact hQ

lemma loadZeroCheck {Q : Bool → PageMem → Prop} (h : Tally boot tok due lag m)
    (hQ : ∀ b, Q b m) : Counts loadZeroCheck Q m := by
  refine ⟨h.sound (.inl rfl), ?_⟩
  rintro x m' ⟨hsem, -⟩
  subst hsem
  exact hQ x

lemma loadCacheCount {Q : ℕ → PageMem → Prop} (h : Tally boot tok due 0 m)
    (hQ : Q m.cache.length m) : Counts loadCacheCount Q m := by
  refine ⟨h.sound (.inl rfl), ?_⟩
  rintro x m' ⟨⟨rfl, rfl⟩, -⟩
  rw [h.cacheCount]
  exact hQ

lemma popCache {Q : Option ℕ → PageMem → Prop} (h : Tally boot tok due 0 m)
    (hnone : m.cache = [] → Q none m)
    (hsome : ∀ ptr m', Tally boot ({Grant.page ptr} + tok) (due + 1) 1 m' → Q (some ptr) m') :
    Counts popCache Q m := by
  refine ⟨h.sound (.inl rfl), ?_⟩
  rintro x m' ⟨hsem, -⟩
  obtain ⟨tok', hhold, rfl⟩ := h.moves hsem trivial (PageSafe.popCache fun _ => rfl)
  rw [pageSem] at hsem
  have hcount := h.cacheCount
  cases hcache : m.cache with
  | nil =>
    rw [hcache] at hsem
    obtain ⟨rfl, rfl⟩ := hsem
    exact hnone hcache
  | cons ptr cached =>
    rw [hcache] at hsem hcount
    obtain ⟨rfl, rfl⟩ := hsem
    have hfree := h.numFree
    have hdue := h.due_le
    refine hsome ptr _ ⟨hhold, ?_, ?_, h.numTotal, hcount, h.prezeroed, h.prezeroedCount⟩
    · rw [pagesOf_add, pagesOf_singleton]
      change (m.numFree : ℤ) + pagesOf m.handed + ((1 + pagesOf tok : ℕ) : ℤ) = m.numTotal + _
      omega
    · rw [pagesOf_add, pagesOf_singleton]
      change due + 1 ≤ ((1 + pagesOf tok : ℕ) : ℤ)
      omega

variable {Q : Unit → PageMem → Prop} {ptr numPages : ℕ}

lemma subCacheCount (h : Tally boot tok due 1 m) (hQ : ∀ m', Tally boot tok due 0 m' → Q () m') :
    Counts subCacheCount Q m := by
  refine ⟨h.sound (.inl rfl), ?_⟩
  rintro x m' ⟨hsem, -⟩
  obtain ⟨tok', hhold, rfl⟩ := h.moves hsem trivial
    (PageSafe.subCacheCount (Q := fun _ tok' => tok' = tok) rfl)
  rw [pageSem] at hsem
  subst hsem
  have hcount := h.cacheCount
  have hpages := h.pages_le
  have htotal := h.numTotal_lt
  refine hQ _ ⟨hhold, h.numFree, h.due_le, h.numTotal, ?_, h.prezeroed, h.prezeroedCount⟩
  change wsub m.cacheCount 1 = m.cache.length + 0
  rw [wsub_of_le (by omega) (by omega)]
  omega

lemma refillTake {Q : List ℕ → PageMem → Prop} (h : Tally boot tok due lag m)
    (hQ : ∀ pages m', pages.length ≤ 1 →
      Tally boot (↑(pages.map Grant.page) + tok) (due + pages.length) lag m' →
      m'.cache = m.cache → Q pages m') : Counts refillTake Q m := by
  refine ⟨h.sound (.inl rfl), ?_⟩
  rintro (x : List ℕ) m' ⟨hsem, hone⟩
  obtain ⟨tok', hhold, rfl⟩ := h.moves hsem trivial (PageSafe.refillTake fun _ => rfl)
  obtain ⟨zones, -, rfl⟩ := hsem
  refine hQ x _ hone ?_ rfl
  rw [← pagesOf_pages]
  exact h.take hhold

lemma batchTake {Q : List ℕ → PageMem → Prop} (max : ℕ) (h : Tally boot tok due lag m)
    (hQ : ∀ pages m',
      Tally boot (↑(pages.map Grant.page) + tok) (due + pages.length) lag m' → Q pages m') :
    Counts (batchTake max) Q m := by
  refine ⟨h.sound (.inl rfl), ?_⟩
  rintro (x : List ℕ) m' ⟨hsem, -⟩
  obtain ⟨tok', hhold, rfl⟩ := h.moves hsem trivial (PageSafe.batchTake max fun _ => rfl)
  obtain ⟨zones, -, rfl⟩ := hsem
  refine hQ x _ ?_
  rw [← pagesOf_pages]
  exact h.take hhold

lemma drainCache {Q : List ℕ → PageMem → Prop} (max : ℕ) (h : Tally boot tok due 0 m)
    (hQ : ∀ pages m',
      Tally boot (↑(pages.map Grant.page) + tok) (due + pages.length) 0 m' → Q pages m') :
    Counts (drainCache max) Q m := by
  refine ⟨h.sound (.inl rfl), ?_⟩
  rintro x m' ⟨hsem, -⟩
  obtain ⟨tok', hhold, rfl⟩ := h.moves hsem trivial (PageSafe.drainCache max fun _ => rfl)
  obtain ⟨rfl, rfl⟩ := hsem
  have hfree := h.numFree
  have hdue := h.due_le
  refine hQ _ _ ⟨hhold, ?_, ?_, h.numTotal, rfl, h.prezeroed, h.prezeroedCount⟩
  · rw [pagesOf_add, pagesOf_pages]
    change (m.numFree : ℤ) + pagesOf m.handed + _ = m.numTotal + _
    push_cast
    omega
  · rw [pagesOf_add, pagesOf_pages]
    omega

lemma refillPush {buf : List ℕ} (h : Tally boot (↑(buf.map Grant.page) + rest) due 0 m)
    (hcache : m.cache = []) (hbuf : buf.length ≤ 1) (hdue : (buf.length : ℤ) ≤ due)
    (hQ : ∀ m', Tally boot rest (due - 2 * buf.length) 0 m' → m'.cache = buf.reverse → Q () m') :
    Counts (refillPush buf) Q m := by
  have hsound := h.sound (o := .refillPush buf) (.inr hdue)
  refine ⟨hsound, ?_⟩
  rintro x m' ⟨hsem, -⟩
  have hroom : Roomy m (.refillPush buf) := by
    change m.cache.length + buf.length ≤ 64
    rw [hcache, length_nil]
    omega
  obtain ⟨tok', hhold, rfl⟩ := h.moves hsem hroom
    (PageSafe.refillPush (Q := fun _ tok' => tok' = rest) rfl rfl)
  rw [pageSem] at hsem
  subst hsem
  have hpush : pushAll m.cache buf = buf.reverse := by
    rw [pushAll_of_room hroom, hcache, append_nil]
  have hfree := h.numFree
  have hdue' := h.due_le
  have htotal := h.numTotal_lt
  rw [pagesOf_add, pagesOf_pages] at hfree hdue'
  refine hQ _ ⟨hhold, ?_, ?_, h.numTotal, rfl, h.prezeroed, h.prezeroedCount⟩ hpush
  · change ((wsub m.numFree buf.length : ℕ) : ℤ) + pagesOf m.handed + _ = m.numTotal + _
    have hle : buf.length ≤ m.numFree := hsound.2
    rw [wsub_of_le hle (by have := hsound.1; omega)]
    omega
  · omega

lemma subFree {n : ℕ} (h : Tally boot tok due lag m) (hn : (n : ℤ) ≤ due)
    (hQ : ∀ m', Tally boot tok (due - n) lag m' → Q () m') :
    Counts (subFree n) Q m := by
  have hsound := h.sound (o := .subFree n) (.inr hn)
  refine ⟨hsound, ?_⟩
  rintro x m' ⟨hsem, -⟩
  obtain ⟨tok', hhold, rfl⟩ := h.moves hsem trivial
    (PageSafe.subFree (Q := fun _ tok' => tok' = tok) n rfl)
  rw [pageSem] at hsem
  subst hsem
  have hfree := h.numFree
  have hdue := h.due_le
  have htotal := h.numTotal_lt
  have hle : n ≤ m.numFree := hsound.2
  refine hQ _ ⟨hhold, ?_, by omega, h.numTotal, h.cacheCount, h.prezeroed, h.prezeroedCount⟩
  change ((wsub m.numFree n : ℕ) : ℤ) + pagesOf m.handed + _ = m.numTotal + _
  rw [wsub_of_le hle (by have := hsound.1; omega)]
  omega

lemma addFree {n : ℕ} (h : Tally boot tok due lag m) (hn : due + n ≤ pagesOf tok)
    (hQ : ∀ m', Tally boot tok (due + n) lag m' → Q () m') :
    Counts (addFree n) Q m := by
  refine ⟨h.sound (.inl rfl), ?_⟩
  rintro x m' ⟨hsem, -⟩
  obtain ⟨tok', hhold, rfl⟩ := h.moves hsem trivial
    (PageSafe.addFree (Q := fun _ tok' => tok' = tok) n rfl)
  rw [pageSem] at hsem
  subst hsem
  have hfree := h.numFree
  have htotal := h.numTotal_lt
  refine hQ _ ⟨hhold, ?_, hn, h.numTotal, h.cacheCount, h.prezeroed, h.prezeroedCount⟩
  change ((wadd m.numFree n : ℕ) : ℤ) + pagesOf m.handed + _ = m.numTotal + _
  rw [wadd_of_lt (by omega)]
  omega

lemma inCache {Q : Bool → PageMem → Prop} (h : Tally boot tok due lag m)
    (hptr : Grant.page ptr ∈ tok) (hQ : Q false m) : Counts (inCache ptr) Q m := by
  refine ⟨h.sound (.inl rfl), ?_⟩
  rintro x m' ⟨hsem, -⟩
  obtain ⟨-, -, hx⟩ := h.moves hsem trivial (PageSafe.inCache (Q := fun b _ => b = false) hptr rfl)
  obtain ⟨-, rfl⟩ := hsem
  obtain rfl : x = false := hx
  exact hQ

lemma inPrezeroed {Q : Bool → PageMem → Prop} (h : Tally boot tok due lag m)
    (hptr : Grant.page ptr ∈ tok) (hQ : Q false m) : Counts (inPrezeroed ptr) Q m := by
  refine ⟨h.sound (.inl rfl), ?_⟩
  rintro x m' ⟨hsem, -⟩
  obtain ⟨-, -, hx⟩ := h.moves hsem trivial
    (PageSafe.inPrezeroed (Q := fun b _ => b = false) hptr rfl)
  obtain ⟨-, rfl⟩ := hsem
  obtain rfl : x = false := hx
  exact hQ

lemma pushCache {Q : Bool → PageMem → Prop} (h : Tally boot ({Grant.page ptr} + rest) due 0 m)
    (hdue : due ≤ pagesOf rest) (htrue : ∀ m', Tally boot rest due 0 m' → Q true m')
    (hfalse : Q false m) :
    Counts (pushCache ptr) Q m := by
  refine ⟨h.sound (.inl rfl), ?_⟩
  rintro x m' ⟨hsem, -⟩
  obtain ⟨tok', hhold, rfl⟩ := h.moves hsem trivial
    (PageSafe.pushCache (Q := fun b tok' => tok' = if b then rest else {page ptr} + rest)
      rfl rfl rfl)
  rw [pageSem] at hsem
  split_ifs at hsem
  · obtain ⟨rfl, rfl⟩ := hsem
    have hfree := h.numFree
    have hcount := h.cacheCount
    have hpages := h.pages_le
    have htotal := h.numTotal_lt
    rw [pagesOf_add, pagesOf_singleton] at hfree hpages
    refine htrue _ ⟨hhold, ?_, hdue, h.numTotal, ?_, h.prezeroed, h.prezeroedCount⟩
    · change ((wadd m.numFree 1 : ℕ) : ℤ) + pagesOf m.handed + _ = m.numTotal + _
      change (m.numFree : ℤ) + pagesOf m.handed + ((1 + pagesOf rest : ℕ) : ℤ) = _ at hfree
      rw [wadd_of_lt (by omega)]
      omega
    · change wadd m.cacheCount 1 = (ptr :: m.cache).length + 0
      rw [wadd_of_lt (by omega), hcount, length_cons]
  · obtain ⟨rfl, rfl⟩ := hsem
    exact hfalse

lemma allocZones {Q : Option ℕ → PageMem → Prop} (numPages : ℕ) (h : Tally boot tok due lag m)
    (hnone : ∀ m', Tally boot tok due lag m' → Q none m')
    (hsome : ∀ ptr m', Tally boot ({(⟨ptr, numPages⟩ : Grant)} + tok) (due + numPages) lag m' →
      Q (some ptr) m') : Counts (allocZones numPages) Q m := by
  refine ⟨h.sound (.inl rfl), ?_⟩
  rintro (x : Option ℕ) m' ⟨hsem, -⟩
  obtain ⟨tok', hhold, rfl⟩ := h.moves hsem trivial (PageSafe.allocZones numPages fun _ => rfl)
  obtain ⟨zones, -, rfl⟩ := hsem
  have htally : Tally boot (found numPages x + tok) (due + pagesOf (found numPages x)) lag _ :=
    h.take hhold
  cases x with
  | none =>
    have hzero : pagesOf (found numPages none) = 0 := rfl
    rw [PageSafe.found_none_add, hzero, Nat.cast_zero, add_zero] at htally
    exact hnone _ htally
  | some ptr => exact hsome ptr _ htally

lemma freeZones (h : Tally boot ({(⟨ptr, numPages⟩ : Grant)} + rest) due lag m)
    (hdue : due ≤ pagesOf rest) (hQ : ∀ m', Tally boot rest due lag m' → Q () m') :
    Counts (freeZones ptr numPages) Q m := by
  refine ⟨h.sound (.inl rfl), ?_⟩
  rintro x m' ⟨hsem, -⟩
  obtain ⟨tok', hhold, rfl⟩ := h.moves hsem trivial
    (PageSafe.freeZones (Q := fun _ tok' => tok' = rest) rfl rfl)
  obtain ⟨zones, -, rfl⟩ := hsem
  have hfree := h.numFree
  have htotal := h.numTotal_lt
  rw [pagesOf_add, pagesOf_singleton] at hfree
  refine hQ _ ⟨hhold, ?_, hdue, h.numTotal, h.cacheCount, h.prezeroed, h.prezeroedCount⟩
  change ((wadd m.numFree numPages : ℕ) : ℤ) + pagesOf m.handed + _ = m.numTotal + _
  push_cast at hfree
  rw [wadd_of_lt (by omega)]
  omega

lemma popHuge {Q : Option ℕ → PageMem → Prop} (h : Tally boot tok due lag m) (hQ : Q none m) :
    Counts popHuge Q m := by
  refine ⟨h.sound (.inl rfl), ?_⟩
  rintro x m' ⟨hsem, hnone⟩
  rw [pageSem] at hsem
  obtain rfl : x = none := hnone
  cases hpool : m.hugePool with
  | nil =>
    rw [hpool] at hsem
    obtain ⟨-, rfl⟩ := hsem
    exact hQ
  | cons ptr pool =>
    rw [hpool] at hsem
    cases hsem.1

lemma pushHuge {Q : Bool → PageMem → Prop} (h : Tally boot ({huge ptr} + rest) due lag m)
    (htrue : ∀ m', Tally boot rest (due - 512) lag m' → Q true m') (hfalse : Q false m) :
    Counts (pushHuge ptr) Q m := by
  refine ⟨h.sound (.inl rfl), ?_⟩
  rintro x m' ⟨hsem, -⟩
  obtain ⟨tok', hhold, rfl⟩ := h.moves hsem trivial
    (PageSafe.pushHuge (Q := fun b tok' => tok' = if b then rest else {huge ptr} + rest)
      rfl rfl rfl)
  rw [pageSem] at hsem
  split_ifs at hsem
  · obtain ⟨rfl, rfl⟩ := hsem
    have hfree := h.numFree
    have hdue := h.due_le
    rw [pagesOf_add, pagesOf_singleton] at hfree hdue
    change (m.numFree : ℤ) + pagesOf m.handed + ((512 + pagesOf rest : ℕ) : ℤ) = _ at hfree
    change due ≤ ((512 + pagesOf rest : ℕ) : ℤ) at hdue
    refine htrue _ ⟨hhold, ?_, ?_, h.numTotal, h.cacheCount, h.prezeroed, h.prezeroedCount⟩
    · change (m.numFree : ℤ) + pagesOf m.handed + _ = m.numTotal + _
      omega
    · omega
  · obtain ⟨rfl, rfl⟩ := hsem
    exact hfalse

lemma handOut {gs : List Grant} (h : Tally boot (↑gs + rest) due lag m)
    (hdue : due ≤ pagesOf rest) (hQ : ∀ m', Tally boot rest due lag m' → Q () m') :
    Counts (handOut gs) Q m := by
  refine ⟨h.sound (.inl rfl), ?_⟩
  rintro x m' ⟨hsem, -⟩
  obtain ⟨tok', hhold, rfl⟩ := h.moves hsem trivial
    (PageSafe.handOut (Q := fun _ tok' => tok' = rest) rfl rfl)
  rw [pageSem] at hsem
  subst hsem
  have hfree := h.numFree
  rw [pagesOf_add] at hfree
  refine hQ _ ⟨hhold, ?_, hdue, h.numTotal, h.cacheCount, h.prezeroed, h.prezeroedCount⟩
  change (m.numFree : ℤ) + (pagesOf (↑gs + m.handed) : ℕ) + _ = m.numTotal + _
  rw [pagesOf_add]
  omega

lemma giveUp (g : Grant) (h : Tally boot tok due lag m)
    (hQ : ∀ m', Tally boot ({g} + tok) due lag m' → Q () m') : Counts (giveUp g) Q m := by
  refine ⟨h.sound (.inl rfl), ?_⟩
  rintro x m' ⟨hsem, -⟩
  obtain ⟨tok', hhold, rfl⟩ := h.moves hsem trivial
    (PageSafe.giveUp (Q := fun _ tok' => tok' = {g} + tok) g rfl)
  obtain ⟨hg, rfl⟩ := hsem
  have hfree := h.numFree
  have hdue := h.due_le
  have hsplit : pagesOf m.handed = g.pages + pagesOf (m.handed.erase g) := by
    rw [← pagesOf_singleton, ← pagesOf_add, Multiset.singleton_add, Multiset.cons_erase hg]
  refine hQ _ ⟨hhold, ?_, ?_, h.numTotal, h.cacheCount, h.prezeroed, h.prezeroedCount⟩
  · change (m.numFree : ℤ) + pagesOf (m.handed.erase g) + _ = m.numTotal + _
    rw [pagesOf_add, pagesOf_singleton]
    push_cast
    omega
  · rw [pagesOf_add]
    omega

/-! ### The functions -/

/-- What an allocation ends with: nothing, or pages that are off the count. -/
def Granted (boot : BootMemory) (tok : Multiset Grant) (numPages : ℕ)
    (Q : Option ℕ → PageMem → Prop) : Prop :=
  ∀ r m', Tally boot (found numPages r + tok) 0 0 m' → Q r m'

lemma Granted.nothing {Q : Option ℕ → PageMem → Prop} (hQ : Granted boot tok numPages Q)
    (h : Tally boot tok 0 0 m) : Q none m := by
  refine hQ none m ?_
  rw [PageSafe.found_none_add]
  exact h

lemma allocSlow {Q : Option ℕ → PageMem → Prop} (h : Tally boot tok 0 0 m)
    (hcache : m.cache = []) (hQ : Granted boot tok 1 Q) : Counts allocSlow Q m := by
  refine wpAlways_bind (wpAlways_bind (refillTake h fun buf m₁ hbuf htake hcache₁ => ?_))
  rw [hcache] at hcache₁
  by_cases hlen : 0 < buf.length
  · rw [if_pos hlen]
    refine wpAlways_bind (refillPush htake hcache₁ hbuf (by omega) fun m₂ hpush hcache₂ => ?_)
    change Counts (if 0 < buf.length then _ else _) Q m₂
    rw [if_pos hlen]
    refine wpAlways_bind (popCache hpush (fun hnil => ?_) fun ptr m₃ hpop => ?_)
    · rw [hcache₂, reverse_eq_nil_iff] at hnil
      rw [hnil] at hlen
      cases hlen
    · refine wpAlways_bind (subCacheCount hpop fun m₄ hsub => hQ (some ptr) m₄ ?_)
      have hdue : (0 : ℤ) + buf.length - 2 * buf.length + 1 = 0 := by omega
      rw [hdue] at hsub
      exact hsub
  · obtain rfl : buf = [] := length_eq_zero_iff.mp (by omega)
    exact hQ.nothing (by simpa using htake)

lemma allocCached {Q : Option ℕ → PageMem → Prop} (h : Tally boot tok 0 0 m)
    (hQ : Granted boot tok 1 Q) : Counts allocCached Q m := by
  refine wpAlways_bind (loadCacheCount h ?_)
  by_cases hn : 0 < m.cache.length
  · rw [if_pos hn]
    refine wpAlways_bind (popCache h (fun hnil => allocSlow h hnil hQ) fun ptr m₁ hpop => ?_)
    refine wpAlways_bind (subCacheCount hpop fun m₂ hsub => ?_)
    refine wpAlways_bind (subFree hsub (by omega) fun m₃ hfree => hQ (some ptr) m₃ ?_)
    exact hfree
  · rw [if_neg hn]
    exact allocSlow h (length_eq_zero_iff.mp (by omega)) hQ

lemma allocPage {Q : Option ℕ → PageMem → Prop} (dirtyOk : Bool) (h : Tally boot tok 0 0 m)
    (hQ : Granted boot tok 1 Q) : Counts (allocPage dirtyOk) Q m := by
  cases dirtyOk with
  | true => exact allocCached h hQ
  | false => exact wpAlways_bind (loadPrezeroedCount h (allocCached h hQ))

lemma countBatch {Q : List ℕ → PageMem → Prop} {pages : List ℕ}
    (h : Tally boot (↑(pages.map Grant.page) + tok) pages.length 0 m)
    (hQ : ∀ m', Tally boot (↑(pages.map Grant.page) + tok) 0 0 m' → Q pages m') :
    Counts (PageAlloc.countBatch pages) Q m := by
  rw [PageAlloc.countBatch]
  by_cases hlen : 0 < pages.length
  · rw [if_pos hlen]
    refine wpAlways_bind (subFree h (le_refl _) fun m₁ hfree => hQ m₁ ?_)
    rw [sub_self] at hfree
    exact hfree
  · rw [if_neg hlen]
    have hzero : pages.length = 0 := by omega
    rw [hzero] at h
    exact hQ m h

lemma completeBatch {Q : List ℕ → PageMem → Prop} (max : ℕ) {pages : List ℕ}
    (h : Tally boot (↑(pages.map Grant.page) + tok) pages.length 0 m)
    (hQ : ∀ pages m', Tally boot (↑(pages.map Grant.page) + tok) 0 0 m' → Q pages m') :
    Counts (PageAlloc.completeBatch max pages) Q m := by
  rw [PageAlloc.completeBatch]
  by_cases hlen : pages.length < max
  · rw [if_pos hlen]
    refine wpAlways_bind (batchTake _ h fun more m₁ htake => countBatch ?_ (hQ _))
    rw [map_append, ← Multiset.coe_add, add_assoc, add_left_comm, length_append]
    exact htake
  · rw [if_neg hlen]
    exact countBatch h (hQ _)

lemma allocPageBatch {Q : List ℕ → PageMem → Prop} (max : ℕ) (h : Tally boot tok 0 0 m)
    (hQ : ∀ pages m', Tally boot (↑(pages.map Grant.page) + tok) 0 0 m' → Q pages m') :
    Counts (allocPageBatch max) Q m := by
  refine wpAlways_bind (loadCacheCount h ?_)
  by_cases hn : 0 < m.cache.length
  · rw [if_pos hn]
    refine wpAlways_bind (drainCache max h fun pages m₁ hdrain => completeBatch max ?_ hQ)
    rw [zero_add] at hdrain
    exact hdrain
  · rw [if_neg hn]
    refine completeBatch max ?_ hQ
    rw [map_nil, Multiset.coe_nil, zero_add]
    exact h

lemma allocPages {Q : Option ℕ → PageMem → Prop} (numPages : ℕ) (dirtyOk : Bool)
    (h : Tally boot tok 0 0 m) (hQ : Granted boot tok numPages Q) :
    Counts (PageAlloc.allocPages numPages dirtyOk) Q m := by
  rw [PageAlloc.allocPages]
  by_cases hone : numPages = 1
  · subst hone
    exact allocPage dirtyOk h hQ
  · rw [if_neg hone]
    refine wpAlways_bind (allocZones numPages h (fun m₁ hnone => hQ.nothing hnone)
      fun ptr m₁ hsome => ?_)
    refine wpAlways_bind (subFree hsome (by omega) fun m₂ hfree => hQ (some ptr) m₂ ?_)
    rw [zero_add, sub_self] at hfree
    exact hfree

lemma freeSingle (h : Tally boot ({Grant.page ptr} + rest) 0 0 m)
    (hQ : ∀ m', Tally boot rest 0 0 m' → Q () m') : Counts (freeSingle ptr) Q m := by
  have hdue : (0 : ℤ) ≤ pagesOf rest := Int.natCast_nonneg _
  refine wpAlways_bind (loadCacheCount h ?_)
  by_cases hn : m.cache.length < pageCacheSize
  · rw [if_pos hn]
    exact wpAlways_bind (pushCache h hdue hQ (freeZones h hdue hQ))
  · rw [if_neg hn]
    exact freeZones h hdue hQ

lemma freePages (h : Tally boot ({(⟨ptr, numPages⟩ : Grant)} + rest) 0 0 m)
    (hQ : ∀ m', Tally boot rest 0 0 m' → Q () m') :
    Counts (PageAlloc.freePages ptr numPages) Q m := by
  rw [PageAlloc.freePages]
  by_cases hone : numPages = 1
  · subst hone
    have hmem : page ptr ∈ ({(⟨ptr, 1⟩ : Grant)} + rest : Multiset Grant) :=
      Multiset.mem_add.mpr (.inl (Multiset.mem_singleton_self _))
    refine wpAlways_bind (loadZeroCheck h fun check => ?_)
    cases check with
    | false => exact freeSingle h hQ
    | true =>
      exact wpAlways_bind (inCache h hmem (wpAlways_bind (inPrezeroed h hmem (freeSingle h hQ))))
  · rw [if_neg hone]
    exact freeZones h (Int.natCast_nonneg _) hQ

lemma freeHugePageAndZero (h : Tally boot ({huge ptr} + rest) 0 0 m)
    (hQ : ∀ m', Tally boot rest 0 0 m' → Q () m') :
    Counts (freeHugePageAndZero ptr) Q m := by
  refine wpAlways_bind (pushHuge h (fun m₁ hpush => addFree hpush ?_ fun m₂ hadd => hQ m₂ ?_)
    (freePages h hQ))
  · omega
  · simpa using hadd

lemma handOutFound {r : Option ℕ} (h : Tally boot (found numPages r + tok) 0 0 m)
    (hQ : ∀ m', Tally boot tok 0 0 m' → Q () m') :
    Counts (PageCall.handOutFound numPages r) Q m := by
  cases r with
  | none =>
    rw [PageSafe.found_none_add] at h
    exact hQ m h
  | some ptr => exact handOut h (Int.natCast_nonneg _) hQ

/-- Every call keeps the accounts. -/
lemma prog {call : PageCall} (hcall : call ≠ .refillPrezeroedPages)
    (h : Tally boot 0 0 0 m) : Counts call.prog (fun _ m' => Tally boot 0 0 0 m') m := by
  cases call with
  | allocPage dirtyOk =>
    exact wpAlways_bind (allocPage dirtyOk h fun r m₁ h₁ => handOutFound h₁ fun _ h₂ => h₂)
  | allocPageBatch max =>
    exact wpAlways_bind (allocPageBatch max h fun pages m₁ h₁ =>
      handOut h₁ (Int.natCast_nonneg _) fun _ h₂ => h₂)
  | allocPages numPages dirtyOk =>
    exact wpAlways_bind (allocPages numPages dirtyOk h fun r m₁ h₁ =>
      handOutFound h₁ fun _ h₂ => h₂)
  | allocHugePage =>
    exact wpAlways_bind (allocPages 512 true h fun r m₁ h₁ => handOutFound h₁ fun _ h₂ => h₂)
  | allocHugePagePrezeroed => exact wpAlways_bind (popHuge h h)
  | freePages grant => exact wpAlways_bind (giveUp grant h fun m₁ h₁ => freePages h₁ fun _ h₂ => h₂)
  | freeHugePageAndZero ptr =>
    exact wpAlways_bind (giveUp (huge ptr) h fun m₁ h₁ =>
      freeHugePageAndZero h₁ fun _ h₂ => h₂)
  | refillPrezeroedPages => exact absurd rfl hcall

end Counts

lemma Tally.init (boot : BootMemory) (words : ℕ → ℕ) :
    Tally boot 0 0 0 (PageMem.init boot words) where
  holdings := by
    refine ⟨(Holdings.init boot words).zones, fun t => ?_⟩
    by_cases ht : t = 0
    · subst ht
      rfl
    · rw [alone, update_of_ne ht]
      rfl
  numFree := by simp [PageMem.init, pagesOf]
  due_le := Int.natCast_nonneg _
  numTotal := rfl
  cacheCount := rfl
  prezeroed := rfl
  prezeroedCount := rfl

/-- In every history of calls in which refills move one page at most and the pool
of zeroed 2 MB pages gives nothing: the count never exceeds the number of pages and
never wraps, and when the callers have nothing it is what it was in the beginning. -/
theorem numFree_of_counted (boot : BootMemory) (words : ℕ → ℕ) {m : PageMem}
    {rest : Option (PageProg Unit)}
    (h : History countedSem UserCall (· = PageMem.init boot words) m rest) :
    m.numFree ≤ m.numTotal ∧
    (∀ o next, rest = some (.act o next) → o.taken ≤ m.numFree) ∧
    (rest = none → m.handed = 0 → m.numFree = (PageMem.init boot words).numFree) := by
  have hstart : ∀ m, m = PageMem.init boot words → Tally boot 0 0 0 m := by
    rintro _ rfl
    exact Tally.init boot words
  have hcalls : ∀ p m, UserCall p → Tally boot 0 0 0 m →
      Counts p (fun _ m' => Tally boot 0 0 0 m') m := by
    rintro _ m ⟨call, hcall, rfl⟩ hm
    exact Counts.prog hcall hm
  have hinv := h.always hstart hcalls
  cases rest with
  | none =>
    refine ⟨(hinv.sound (o := .popCache) (.inl rfl)).1, nofun, ?_⟩
    intro _ hhanded
    have hfree := hinv.numFree
    rw [hhanded, hinv.numTotal] at hfree
    exact Int.ofNat_inj.mp hfree
  | some p => cases p with
    | ret a =>
      exact ⟨(Tally.sound hinv (o := .popCache) (.inl rfl)).1, nofun, nofun⟩
    | act o next =>
      obtain ⟨⟨hle, htaken⟩, -⟩ := hinv
      refine ⟨hle, fun o' next' hrest => ?_, nofun⟩
      cases hrest
      exact htaken

/-- One region of two pages. -/
def twoPages : BootMemory where
  regions := [⟨0x100000, 0x100000, 2 * pageSize, Nat.succ_pos _, rfl, by decide⟩]
  apart := List.pairwise_singleton _ _
  length_le := by decide

/-- Both pages can be taken at once. -/
lemma exists_two_pages {max : ℕ} (hmax : 2 ≤ max) : ∃ first second zones,
    takeZones max (PageMem.init twoPages fun _ => 0).zones = some ([first, second], zones) := by
  have hgood := ZonesGood.new twoPages.regions fun _ => 0
  obtain ⟨pages, zones, htake, -, -⟩ := hgood.takeZones max
  have hlen := hgood.takeZones_length htake
  have hsum : (twoPages.regions.map fun r => r.len / pageSize).sum = 2 := by decide
  rw [hgood.totalPages_eq, hsum, map_nil, sum_nil, Nat.sub_zero, Nat.min_eq_right hmax] at hlen
  obtain ⟨first, second, rfl⟩ := length_eq_two.mp hlen
  exact ⟨first, second, zones, htake⟩

theorem numFree_batch : ∃ m,
    History countedSem UserCall (· = PageMem.init twoPages fun _ => 0) m none ∧
    pagesOf m.handed = 2 ∧ m.numFree ≤ m.numTotal := by
  obtain ⟨first, second, zones, htake⟩ := exists_two_pages (le_refl 2)
  have start : History countedSem UserCall (· = PageMem.init twoPages fun _ => 0) _
      (some (PageCall.prog (.allocPageBatch 2))) :=
    .call (.start rfl) ⟨.allocPageBatch 2, by decide, rfl⟩
  have load := start.step ⟨⟨rfl, rfl⟩, trivial⟩
  have take := load.step ⟨⟨zones, htake, rfl⟩, trivial⟩
  have sub := take.step (x := ()) ⟨rfl, trivial⟩
  have hand := sub.step (x := ()) ⟨rfl, trivial⟩
  exact ⟨_, hand.done, rfl, (numFree_of_counted twoPages _ hand.done).1⟩

/-- Two allocations: the second one counts its page a second time, and the count
wraps. -/
theorem numFree_wraps : ∃ m rest,
    History (pageSem 0) UserCall (· = PageMem.init twoPages fun _ => 0) m rest ∧
    m.numTotal < m.numFree := by
  obtain ⟨first, second, zones, htake⟩ := exists_two_pages (show 2 ≤ pageCacheSize by decide)
  have start : History (pageSem 0) UserCall (· = PageMem.init twoPages fun _ => 0) _
      (some (PageCall.prog (.allocPage true))) :=
    .call (.start rfl) ⟨.allocPage true, by decide, rfl⟩
  have load := start.step ⟨rfl, rfl⟩
  have take := load.step ⟨zones, htake, rfl⟩
  have push := take.step (x := ()) rfl
  have pop := push.step ⟨rfl, rfl⟩
  have sub := pop.step (x := ()) rfl
  have hand := sub.step (x := ()) rfl
  have again := hand.done.call ⟨.allocPage true, by decide, rfl⟩
  have hcount : 1 = wsub 2 1 := by norm_num [wsub]
  have load' := again.step ⟨hcount, rfl⟩
  have pop' := load'.step ⟨rfl, rfl⟩
  have sub' := pop'.step (x := ()) rfl
  have count := sub'.step (x := ()) rfl
  have hwrap : 2 < wsub (wsub 2 2) 1 := by norm_num [wsub]
  exact ⟨_, _, count, hwrap⟩

end Kevlar
