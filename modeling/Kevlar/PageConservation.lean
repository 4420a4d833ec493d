import Kevlar.PageAllocator

/-!
# No page is lost

A page is on a free list of its zone, in the cache, in one of the two pools, on its
way through a function or handed out to a caller. The functions of the allocator
run interleaved on any number of processors, step by step. A step moves pages from
one of these places to another, with one exception: `refill_page_cache` takes pages
from the zones under one lock and pushes them to the cache under another, and a
cache that another processor filled in between does not take them. Then they are
in no place at all. As long as a refill finds room for its pages, every address of
the managed memory is in exactly one place.
-/
namespace Kevlar
open Grant PageMem Function List Concurrent Buddy

namespace PageMem

/-- What is in the cache, in the pools and with the callers. -/
def atRest (m : PageMem) : Multiset Grant :=
  ↑(m.cache.map Grant.page) + ↑(m.prezeroed.map Grant.page) + ↑(m.hugePool.map Grant.huge) +
    m.handed

/-- What is not in a zone. -/
def outside (m : PageMem) : Multiset Grant := m.atRest + m.inFlight.map Prod.snd

/-- What a processor has in its hands. -/
def carried (m : PageMem) (t : ℕ) : Multiset Grant :=
  (m.inFlight.filter fun p => p.1 = t).map Prod.snd

/-- All places: the free lists of the zones and what is not in a zone. -/
def places (m : PageMem) : Multiset Block :=
  ↑(m.zones.flatMap BuddyAllocator.listed) + m.outside.map Grant.block

/-- Every managed address is in exactly one place. -/
def Conserved (boot : BootMemory) (m : PageMem) : Prop :=
  ∀ region ∈ boot.regions, ∀ a, region.basePaddr ≤ a → a < region.stop →
    m.places.countP (fun b => b.holds a = true) = 1

/-- The callers and the functions themselves write to the pages they have. -/
def Written (m m' : PageMem) : Prop :=
  ∃ zones, List.Forall₂ (Rewritten fun a => ∃ g ∈ m.outside, g.block.holds a = true)
    m.zones zones ∧ m' = { m with zones := zones }

end PageMem

/-- The calls that the processors make, interleaved step by step. -/
def pageSystem : System PageMem PageCall PageOp PageOp.Ans Unit where
  sem t _ m o x m' := pageSem t m o x m'
  start := PageCall.prog
  other := PageMem.Written

/-- A refill finds room in the cache for all its pages. -/
def Roomy (m : PageMem) : PageOp → Prop
  | .refillPush buf => m.cache.length + buf.length ≤ pageCacheSize
  | _ => True

/-- The runs in which every refill finds room. -/
def roomySystem : System PageMem PageCall PageOp PageOp.Ans Unit :=
  pageSystem.restrict (fun _ _ m o _ => Roomy m o) fun _ _ => True

/-- The tokens of the processors are what they have in their hands, and what is not
in a zone is what the zones have given out. -/
structure Holdings (boot : BootMemory) (m : PageMem)
    (toks : ℕ → Option (PageCall × Multiset Grant)) : Prop where
  zones : ∃ live : List Block, ↑live = m.outside.map Grant.block ∧
    ZonesGood boot.regions m.zones live
  carried : ∀ t, m.carried t = ((toks t).map Prod.snd).getD 0

namespace PageMem

/-- Every page is where it was. -/
structure SamePlaces (m m' : PageMem) : Prop where
  zones : m'.zones = m.zones
  cache : m'.cache = m.cache
  prezeroed : m'.prezeroed = m.prezeroed
  hugePool : m'.hugePool = m.hugePool
  inFlight : m'.inFlight = m.inFlight
  handed : m'.handed = m.handed

variable {m : PageMem} {t : ℕ} {gs : Multiset Grant}

lemma SamePlaces.atRest {m' : PageMem} (h : SamePlaces m m') : m'.atRest = m.atRest := by
  rw [PageMem.atRest, h.cache, h.prezeroed, h.hugePool, h.handed, ← PageMem.atRest]

lemma outside_carry (m : PageMem) (t : ℕ) (gs : Multiset Grant) :
    (m.carry t gs).outside = gs + m.outside := by
  simp only [outside, atRest, carry, Multiset.map_add, Multiset.map_map, Function.comp_def,
    Multiset.map_id']
  abel

lemma pushAll_of_room {cache buf : List ℕ}
    (h : cache.length + buf.length ≤ pageCacheSize) : pushAll cache buf = buf.reverse ++ cache := by
  induction buf generalizing cache with
  | nil => rfl
  | cons ptr buf ih =>
    rw [length_cons] at h
    have hstep : pushAll cache (ptr :: buf) = pushAll (ptr :: cache) buf := by
      rw [pushAll, foldl_cons, if_pos (by omega)]
      rfl
    rw [hstep, ih (by rw [length_cons]; omega), reverse_cons, append_assoc]
    rfl

lemma carry_zero (m : PageMem) (t : ℕ) : m.carry t 0 = m := by
  rw [carry, Multiset.map_zero, zero_add]

lemma carried_carry (u : ℕ) :
    (m.carry t gs).carried u = (if u = t then gs else 0) + m.carried u := by
  simp only [carried, carry, Multiset.filter_add, Multiset.map_add, Multiset.filter_map,
    Multiset.map_map, Function.comp_def]
  by_cases hu : u = t
  · simp [hu]
  · simp [hu, Ne.symm hu]

section

variable (h : gs ≤ m.carried t)
include h

/-- What a processor carries is in flight. -/
lemma map_le_inFlight : gs.map (t, ·) ≤ m.inFlight := by
  have heq : (m.carried t).map (t, ·) = m.inFlight.filter fun p => p.1 = t := by
    rw [carried, Multiset.map_map]
    conv_rhs => rw [← Multiset.map_id (m.inFlight.filter _)]
    refine Multiset.map_congr rfl fun p hp => ?_
    rw [Multiset.mem_filter] at hp
    rw [comp_apply, ← hp.2]
    rfl
  exact (Multiset.map_le_map h).trans (heq.le.trans (Multiset.filter_le _ _))

lemma carry_drop : (m.drop t gs).carry t gs = m := by
  simp only [drop, carry, add_tsub_cancel_of_le (map_le_inFlight h)]

lemma outside_drop : gs + (m.drop t gs).outside = m.outside := by
  rw [← outside_carry _ t, carry_drop h]

lemma carried_drop (u : ℕ) :
    (if u = t then gs else 0) + (m.drop t gs).carried u = m.carried u := by
  rw [← carried_carry, carry_drop h]

end

end PageMem

namespace Holdings

variable {boot : BootMemory} {m m₁ : PageMem} {toks : ℕ → Option (PageCall × Multiset Grant)}
variable {t : ℕ} {c : PageCall} {tok gs : Multiset Grant}

lemma carried_eq (h : Holdings boot m toks) (ht : toks t = some (c, tok)) :
    m.carried t = tok := by
  rw [h.carried t, ht]
  rfl

/-- Pages come into the hands of a processor, from wherever. -/
lemma carry (h : Holdings boot m toks) (ht : toks t = some (c, tok))
    (hfly : m₁.inFlight = m.inFlight)
    (hgood : ∃ live : List Block, ↑live = (gs + m₁.outside).map block ∧
      ZonesGood boot.regions m₁.zones live) :
    Holdings boot (m₁.carry t gs) (update toks t (some (c, gs + tok))) := by
  refine ⟨?_, fun u => ?_⟩
  · rw [outside_carry]
    exact hgood
  · have hcarried : m₁.carried u = m.carried u := by
      rw [PageMem.carried, hfly, PageMem.carried]
    rw [PageMem.carried_carry, hcarried]
    by_cases hu : u = t
    · subst hu
      rw [if_pos rfl, h.carried_eq ht, update_self]
      rfl
    · rw [if_neg hu, zero_add, h.carried u, update_of_ne hu]

/-- Pages leave the hands of a processor, to wherever. -/
lemma drop {rest : Multiset Grant} (h : Holdings boot m toks)
    (ht : toks t = some (c, gs + rest)) (hfly : m₁.inFlight = m.inFlight)
    (hgood : ∃ live : List Block, ↑live = (m₁.drop t gs).outside.map block ∧
      ZonesGood boot.regions m₁.zones live) :
    Holdings boot (m₁.drop t gs) (update toks t (some (c, rest))) := by
  have hcarried : ∀ u, m₁.carried u = m.carried u := by
    intro u
    rw [PageMem.carried, hfly, PageMem.carried]
  have hle : gs ≤ m₁.carried t := by
    rw [hcarried, h.carried_eq ht]
    exact Multiset.le_add_right gs rest
  refine ⟨hgood, fun u => ?_⟩
  have hsum := carried_drop hle u
  rw [hcarried] at hsum
  by_cases hu : u = t
  · subst hu
    rw [if_pos rfl, h.carried_eq ht] at hsum
    rw [update_self]
    exact add_left_cancel hsum
  · rw [if_neg hu, zero_add] at hsum
    rw [hsum, h.carried u, update_of_ne hu]

/-- A processor takes pages from a pool or from a caller. -/
lemma pickUp (h : Holdings boot m toks) (ht : toks t = some (c, tok))
    (hzones : m₁.zones = m.zones) (hfly : m₁.inFlight = m.inFlight)
    (hrest : gs + m₁.atRest = m.atRest) :
    Holdings boot (m₁.carry t gs) (update toks t (some (c, gs + tok))) := by
  obtain ⟨live, hlive, hgood⟩ := h.zones
  refine h.carry ht hfly ⟨live, ?_, hzones ▸ hgood⟩
  rw [hlive, PageMem.outside, PageMem.outside, hfly, ← add_assoc, hrest]

/-- A processor gives pages to a pool or to a caller. -/
lemma putDown {rest : Multiset Grant} (h : Holdings boot m toks)
    (ht : toks t = some (c, gs + rest)) (hzones : m₁.zones = m.zones)
    (hfly : m₁.inFlight = m.inFlight) (hrest : m₁.atRest = gs + m.atRest) :
    Holdings boot (m₁.drop t gs) (update toks t (some (c, rest))) := by
  obtain ⟨live, hlive, hgood⟩ := h.zones
  refine h.drop ht hfly ⟨live, ?_, hzones ▸ hgood⟩
  have hle : gs ≤ m₁.carried t := by
    rw [PageMem.carried, hfly, ← PageMem.carried, h.carried_eq ht]
    exact Multiset.le_add_right gs rest
  have hsum := PageMem.outside_drop hle
  have hout : m₁.outside = gs + m.outside := by
    rw [PageMem.outside, hrest, hfly, add_assoc, ← PageMem.outside]
  rw [hlive, add_left_cancel (hsum.trans hout)]

section

variable (h : Holdings boot m toks)
include h

/-- Counters do not matter. -/
lemma same (ht : toks t = some (c, tok)) (hsame : PageMem.SamePlaces m m₁) :
    Holdings boot m₁ (update toks t (some (c, tok))) := by
  obtain ⟨live, hlive, hgood⟩ := h.zones
  refine ⟨⟨live, ?_, hsame.zones ▸ hgood⟩, fun u => ?_⟩
  · rw [hlive, PageMem.outside, PageMem.outside, hsame.inFlight, hsame.atRest]
  · rw [PageMem.carried, hsame.inFlight, ← PageMem.carried, h.carried u, ← ht, update_eq_self]

/-- Taking pages from the zones. -/
lemma take (ht : toks t = some (c, tok)) {zones : List BuddyAllocator}
    (hgood : ∀ live, ZonesGood boot.regions m.zones live → ∃ taken : List Block,
      ↑taken = gs.map block ∧ ZonesGood boot.regions zones (taken ++ live)) :
    Holdings boot ({ m with zones := zones }.carry t gs)
      (update toks t (some (c, gs + tok))) := by
  obtain ⟨live, hlive, hlive'⟩ := h.zones
  obtain ⟨taken, htaken, htaken'⟩ := hgood live hlive'
  refine h.carry ht rfl ⟨taken ++ live, ?_, htaken'⟩
  rw [← Multiset.coe_add, htaken, hlive, ← Multiset.map_add]
  rfl

lemma countP_outside_le_one (a : ℕ) : m.outside.countP (fun g => g.block.holds a = true) ≤ 1 := by
  obtain ⟨live, hlive, hgood⟩ := h.zones
  have htiles := hgood.tiles boot.apart a
  have hcount : (m.outside.map block).countP (fun b => b.holds a = true) =
      live.countP (Block.holds a) := by
    rw [← hlive, Multiset.coe_countP]
    simp only [Bool.decide_eq_true]
  rw [Multiset.countP_map, ← Multiset.countP_eq_card_filter] at hcount
  rw [countP_append] at htiles
  split_ifs at htiles <;> omega

/-- A page in the hands of a processor is not in a pool as well. -/
lemma not_mem_atRest (ht : toks t = some (c, tok)) {g : Grant} (hg : g ∈ tok) : g ∉ m.atRest := by
  intro hrest
  have hle : ({g} : Multiset Grant) ≤ m.carried t := by
    rw [h.carried_eq ht]
    exact Multiset.singleton_le.mpr hg
  have hsum := PageMem.outside_drop hle
  have hmem : g ∈ (m.drop t {g}).outside := by
    rw [PageMem.outside, Multiset.mem_add]
    exact .inl hrest
  have hcount := h.countP_outside_le_one g.ptr
  rw [← hsum, Multiset.countP_add] at hcount
  have hself : g.block.holds g.ptr = true := Block.holds_ptr g.block
  have hone : 0 < ({g} : Multiset Grant).countP (fun g' => g'.block.holds g.ptr = true) :=
    Multiset.countP_pos.mpr ⟨g, Multiset.mem_singleton_self g, hself⟩
  have hpos : 0 < (m.drop t {g}).outside.countP (fun g' => g'.block.holds g.ptr = true) :=
    Multiset.countP_pos.mpr ⟨g, hmem, hself⟩
  omega

end

end Holdings

/-- A program that moves pages as its tokens say, in a run in which refills find
room. -/
abbrev PageSafe (boot : BootMemory) (c : PageCall) {α : Type} (p : PageProg α)
    (Q : α → Multiset Grant → Prop) (tok : Multiset Grant) : Prop :=
  Safe roomySystem (Holdings boot) c p Q tok

namespace PageSafe

open PageAlloc

variable {boot : BootMemory} {c : PageCall} {tok : Multiset Grant}

/-- What an allocation found. -/
def found (numPages : ℕ) (r : Option ℕ) : Multiset Grant :=
  ↑(r.map fun ptr => (⟨ptr, numPages⟩ : Grant)).toList

/-- A step that moves no page. -/
lemma still (o : PageOp) {Q : o.Ans → Multiset Grant → Prop}
    (hstep : ∀ t m x m', pageSem t m o x m' → PageMem.SamePlaces m m') (hQ : ∀ x, Q x tok) :
    PageSafe boot c (op o) Q tok := by
  rintro t m m' toks x hinv ht ⟨hsem, -⟩
  exact ⟨tok, hinv.same ht (hstep t m x m' hsem), hQ x⟩

lemma loadPrezeroedCount {Q : ℕ → Multiset Grant → Prop} (hQ : ∀ n, Q n tok) :
    PageSafe boot c loadPrezeroedCount Q tok := by
  refine still .loadPrezeroedCount (fun t m x m' hsem => ?_) hQ
  rw [hsem.2]
  exact ⟨rfl, rfl, rfl, rfl, rfl, rfl⟩

lemma loadCacheCount {Q : ℕ → Multiset Grant → Prop} (hQ : ∀ n, Q n tok) :
    PageSafe boot c loadCacheCount Q tok := by
  refine still .loadCacheCount (fun t m x m' hsem => ?_) hQ
  rw [hsem.2]
  exact ⟨rfl, rfl, rfl, rfl, rfl, rfl⟩

lemma loadZeroCheck {Q : Bool → Multiset Grant → Prop} (hQ : ∀ b, Q b tok) :
    PageSafe boot c loadZeroCheck Q tok := by
  refine still .loadZeroCheck (fun t m x m' hsem => ?_) hQ
  rw [pageSem] at hsem
  rw [hsem]
  exact ⟨rfl, rfl, rfl, rfl, rfl, rfl⟩

variable {Q : Unit → Multiset Grant → Prop} {ptr numPages : ℕ} {rest : Multiset Grant}

lemma subPrezeroedCount (hQ : Q () tok) :
    PageSafe boot c subPrezeroedCount Q tok := by
  refine still .subPrezeroedCount (fun t m x m' hsem => ?_) fun _ => hQ
  rw [pageSem] at hsem
  rw [hsem]
  exact ⟨rfl, rfl, rfl, rfl, rfl, rfl⟩

lemma subCacheCount (hQ : Q () tok) :
    PageSafe boot c subCacheCount Q tok := by
  refine still .subCacheCount (fun t m x m' hsem => ?_) fun _ => hQ
  rw [pageSem] at hsem
  rw [hsem]
  exact ⟨rfl, rfl, rfl, rfl, rfl, rfl⟩

lemma subFree (n : ℕ) (hQ : Q () tok) :
    PageSafe boot c (subFree n) Q tok := by
  refine still (.subFree n) (fun t m x m' hsem => ?_) fun _ => hQ
  rw [pageSem] at hsem
  rw [hsem]
  exact ⟨rfl, rfl, rfl, rfl, rfl, rfl⟩

lemma addFree (n : ℕ) (hQ : Q () tok) :
    PageSafe boot c (addFree n) Q tok := by
  refine still (.addFree n) (fun t m x m' hsem => ?_) fun _ => hQ
  rw [pageSem] at hsem
  rw [hsem]
  exact ⟨rfl, rfl, rfl, rfl, rfl, rfl⟩

lemma inCache {Q : Bool → Multiset Grant → Prop} (hptr : Grant.page ptr ∈ tok)
    (hQ : Q false tok) : PageSafe boot c (inCache ptr) Q tok := by
  rintro t m m' toks x hinv ht ⟨⟨hx, rfl⟩, -⟩
  have hnot : ptr ∉ m'.cache := by
    intro hmem
    refine hinv.not_mem_atRest ht hptr ?_
    simp only [PageMem.atRest, Multiset.mem_add, Multiset.mem_coe]
    exact .inl (.inl (.inl (mem_map_of_mem hmem)))
  rw [decide_eq_false hnot] at hx
  subst hx
  exact ⟨tok, hinv.same ht ⟨rfl, rfl, rfl, rfl, rfl, rfl⟩, hQ⟩

lemma inPrezeroed {Q : Bool → Multiset Grant → Prop} (hptr : Grant.page ptr ∈ tok)
    (hQ : Q false tok) : PageSafe boot c (inPrezeroed ptr) Q tok := by
  rintro t m m' toks x hinv ht ⟨⟨hx, rfl⟩, -⟩
  have hnot : ptr ∉ m'.prezeroed := by
    intro hmem
    refine hinv.not_mem_atRest ht hptr ?_
    simp only [PageMem.atRest, Multiset.mem_add, Multiset.mem_coe]
    exact .inl (.inl (.inr (mem_map_of_mem hmem)))
  rw [decide_eq_false hnot] at hx
  subst hx
  exact ⟨tok, hinv.same ht ⟨rfl, rfl, rfl, rfl, rfl, rfl⟩, hQ⟩

lemma coe_map_cons (f : ℕ → Grant) (rest : List ℕ) :
    (↑((ptr :: rest).map f) : Multiset Grant) = {f ptr} + ↑(rest.map f) := by
  rw [map_cons, ← Multiset.cons_coe, Multiset.singleton_add]

lemma found_none_add : found numPages none + tok = tok :=
  zero_add tok

lemma found_some (numPages ptr : ℕ) :
    found numPages (some ptr) = {(⟨ptr, numPages⟩ : Grant)} := rfl

/-- A step that takes pages from a pool or from a caller. -/
lemma picks (o : PageOp) (gain : o.Ans → Multiset Grant) {Q : o.Ans → Multiset Grant → Prop}
    (hstep : ∀ t m x m', pageSem t m o x m' → ∃ m₁ : PageMem, m' = m₁.carry t (gain x) ∧
      m₁.zones = m.zones ∧ m₁.inFlight = m.inFlight ∧ gain x + m₁.atRest = m.atRest)
    (hQ : ∀ x, Q x (gain x + tok)) : PageSafe boot c (op o) Q tok := by
  rintro t m m' toks x hinv ht ⟨hsem, -⟩
  obtain ⟨m₁, rfl, hzones, hfly, hrest⟩ := hstep t m x m' hsem
  exact ⟨_, hinv.pickUp ht hzones hfly hrest, hQ x⟩

lemma popPrezeroed {Q : Option ℕ → Multiset Grant → Prop}
    (hQ : ∀ r, Q r (found 1 r + tok)) : PageSafe boot c popPrezeroed Q tok := by
  refine picks .popPrezeroed (found 1) (fun t m x m' hsem => ?_) hQ
  rw [pageSem] at hsem
  cases hpool : m.prezeroed with
  | nil =>
    rw [hpool] at hsem
    obtain ⟨rfl, rfl⟩ := hsem
    exact ⟨m', (carry_zero m' t).symm, rfl, rfl, zero_add _⟩
  | cons ptr rest =>
    rw [hpool] at hsem
    obtain ⟨rfl, rfl⟩ := hsem
    refine ⟨_, rfl, rfl, rfl, ?_⟩
    simp only [PageMem.atRest, hpool, coe_map_cons, found_some, page]
    abel

lemma popCache {Q : Option ℕ → Multiset Grant → Prop}
    (hQ : ∀ r, Q r (found 1 r + tok)) : PageSafe boot c popCache Q tok := by
  refine picks .popCache (found 1) (fun t m x m' hsem => ?_) hQ
  rw [pageSem] at hsem
  cases hpool : m.cache with
  | nil =>
    rw [hpool] at hsem
    obtain ⟨rfl, rfl⟩ := hsem
    exact ⟨m', (carry_zero m' t).symm, rfl, rfl, zero_add _⟩
  | cons ptr rest =>
    rw [hpool] at hsem
    obtain ⟨rfl, rfl⟩ := hsem
    refine ⟨_, rfl, rfl, rfl, ?_⟩
    simp only [PageMem.atRest, hpool, coe_map_cons, found_some, page]
    abel

lemma popHuge {Q : Option ℕ → Multiset Grant → Prop}
    (hQ : ∀ r, Q r (found 512 r + tok)) : PageSafe boot c popHuge Q tok := by
  refine picks .popHuge (found 512) (fun t m x m' hsem => ?_) hQ
  rw [pageSem] at hsem
  cases hpool : m.hugePool with
  | nil =>
    rw [hpool] at hsem
    obtain ⟨rfl, rfl⟩ := hsem
    exact ⟨m', (carry_zero m' t).symm, rfl, rfl, zero_add _⟩
  | cons ptr rest =>
    rw [hpool] at hsem
    obtain ⟨rfl, rfl⟩ := hsem
    refine ⟨_, rfl, rfl, rfl, ?_⟩
    simp only [PageMem.atRest, hpool, coe_map_cons, found_some, huge]
    abel

lemma drainCache {Q : List ℕ → Multiset Grant → Prop} (max : ℕ)
    (hQ : ∀ pages, Q pages (↑(pages.map Grant.page) + tok)) :
    PageSafe boot c (drainCache max) Q tok := by
  rintro t m m' toks x hinv ht ⟨⟨rfl, rfl⟩, -⟩
  refine ⟨_, hinv.pickUp ht rfl rfl ?_, hQ _⟩
  have hsplit : (↑(m.cache.map page) : Multiset Grant) =
      ↑((m.cache.take max).map page) + ↑((m.cache.drop max).map page) := by
    rw [Multiset.coe_add, ← map_append, take_append_drop]
  simp only [PageMem.atRest, hsplit]
  abel

lemma giveUp (g : Grant) (hQ : Q () ({g} + tok)) :
    PageSafe boot c (giveUp g) Q tok := by
  rintro t m m' toks x hinv ht ⟨⟨hg, rfl⟩, -⟩
  refine ⟨_, hinv.pickUp ht rfl rfl ?_, hQ⟩
  have hsplit : m.handed = {g} + m.handed.erase g := by
    rw [Multiset.singleton_add, Multiset.cons_erase hg]
  simp only [PageMem.atRest]
  conv_rhs => rw [hsplit]
  abel

/-- Single pages taken from the zones. -/
lemma map_block_page (pages : List ℕ) :
    (↑(pages.map fun ptr => (⟨ptr, 0⟩ : Block)) : Multiset Block) =
      (↑(pages.map Grant.page) : Multiset Grant).map block := by
  rw [Multiset.map_coe, map_map]
  rfl

lemma refillTake {Q : List ℕ → Multiset Grant → Prop}
    (hQ : ∀ pages, Q pages (↑(pages.map Grant.page) + tok)) :
    PageSafe boot c refillTake Q tok := by
  rintro t m m' toks x hinv ht ⟨⟨zones, hzones, rfl⟩, -⟩
  refine ⟨_, hinv.take ht fun live hlive => ?_, hQ _⟩
  exact ⟨_, map_block_page _, hlive.of_takeZones hzones⟩

lemma batchTake {Q : List ℕ → Multiset Grant → Prop} (max : ℕ)
    (hQ : ∀ pages, Q pages (↑(pages.map Grant.page) + tok)) :
    PageSafe boot c (batchTake max) Q tok := by
  rintro t m m' toks x hinv ht ⟨⟨zones, hzones, rfl⟩, -⟩
  refine ⟨_, hinv.take ht fun live hlive => ?_, hQ _⟩
  exact ⟨_, map_block_page _, hlive.of_takeZones hzones⟩

lemma allocZones {Q : Option ℕ → Multiset Grant → Prop} (numPages : ℕ)
    (hQ : ∀ r, Q r (found numPages r + tok)) : PageSafe boot c (allocZones numPages) Q tok := by
  rintro t m m' toks x hinv ht ⟨⟨zones, hzones, rfl⟩, -⟩
  refine ⟨_, hinv.take ht fun live hlive => ?_, hQ _⟩
  refine ⟨_, ?_, hlive.of_allocZones hzones⟩
  cases x <;> rfl

/-- A step that gives pages to a pool or to a caller, or fails to. -/
lemma puts (o : PageOp) (gs : Multiset Grant) {Q : o.Ans → Multiset Grant → Prop}
    (htok : tok = gs + rest) (hstep : ∀ t m x m', pageSem t m o x m' → Roomy m o →
      (PageMem.SamePlaces m m' ∧ Q x tok) ∨
      ∃ m₁ : PageMem, m' = m₁.drop t gs ∧ m₁.zones = m.zones ∧ m₁.inFlight = m.inFlight ∧
        m₁.atRest = gs + m.atRest ∧ Q x rest) : PageSafe boot c (op o) Q tok := by
  rintro t m m' toks x hinv ht ⟨hsem, hroom⟩
  rcases hstep t m x m' hsem hroom with ⟨hsame, hq⟩ | ⟨m₁, rfl, hzones, hfly, hrest, hq⟩
  · exact ⟨tok, hinv.same ht hsame, hq⟩
  · rw [htok] at ht
    exact ⟨rest, hinv.putDown ht hzones hfly hrest, hq⟩

lemma pushPrezeroed {Q : Bool → Multiset Grant → Prop} (htok : tok = {Grant.page ptr} + rest)
    (htrue : Q true rest) (hfalse : Q false tok) :
    PageSafe boot c (pushPrezeroed ptr) Q tok := by
  refine puts (.pushPrezeroed ptr) _ htok fun t m x m' hsem _ => ?_
  rw [pageSem] at hsem
  split_ifs at hsem
  · obtain ⟨rfl, rfl⟩ := hsem
    refine .inr ⟨_, rfl, rfl, rfl, ?_, htrue⟩
    simp only [PageMem.atRest, coe_map_cons]
    abel
  · obtain ⟨rfl, rfl⟩ := hsem
    exact .inl ⟨⟨rfl, rfl, rfl, rfl, rfl, rfl⟩, hfalse⟩

lemma pushCache {Q : Bool → Multiset Grant → Prop} (htok : tok = {Grant.page ptr} + rest)
    (htrue : Q true rest) (hfalse : Q false tok) :
    PageSafe boot c (pushCache ptr) Q tok := by
  refine puts (.pushCache ptr) _ htok fun t m x m' hsem _ => ?_
  rw [pageSem] at hsem
  split_ifs at hsem
  · obtain ⟨rfl, rfl⟩ := hsem
    refine .inr ⟨_, rfl, rfl, rfl, ?_, htrue⟩
    simp only [PageMem.atRest, coe_map_cons]
    abel
  · obtain ⟨rfl, rfl⟩ := hsem
    exact .inl ⟨⟨rfl, rfl, rfl, rfl, rfl, rfl⟩, hfalse⟩

lemma pushHuge {Q : Bool → Multiset Grant → Prop} (htok : tok = {huge ptr} + rest)
    (htrue : Q true rest) (hfalse : Q false tok) :
    PageSafe boot c (pushHuge ptr) Q tok := by
  refine puts (.pushHuge ptr) _ htok fun t m x m' hsem _ => ?_
  rw [pageSem] at hsem
  split_ifs at hsem
  · obtain ⟨rfl, rfl⟩ := hsem
    refine .inr ⟨_, rfl, rfl, rfl, ?_, htrue⟩
    simp only [PageMem.atRest, coe_map_cons]
    abel
  · obtain ⟨rfl, rfl⟩ := hsem
    exact .inl ⟨⟨rfl, rfl, rfl, rfl, rfl, rfl⟩, hfalse⟩

lemma refillPush {buf : List ℕ} (htok : tok = ↑(buf.map Grant.page) + rest) (hQ : Q () rest) :
    PageSafe boot c (refillPush buf) Q tok := by
  refine puts (.refillPush buf) _ htok fun t m x m' hsem hroom => ?_
  rw [pageSem] at hsem
  subst hsem
  refine .inr ⟨_, rfl, rfl, rfl, ?_, hQ⟩
  simp only [PageMem.atRest, PageMem.pushAll_of_room hroom, map_append, map_reverse,
    ← Multiset.coe_add, Multiset.coe_reverse]
  abel

lemma handOut {gs : List Grant} (htok : tok = ↑gs + rest) (hQ : Q () rest) :
    PageSafe boot c (handOut gs) Q tok := by
  refine puts (.handOut gs) _ htok fun t m x m' hsem hroom => ?_
  rw [pageSem] at hsem
  subst hsem
  refine .inr ⟨_, rfl, rfl, rfl, ?_, hQ⟩
  simp only [PageMem.atRest]
  abel

lemma freeZones (htok : tok = {(⟨ptr, numPages⟩ : Grant)} + rest) (hQ : Q () rest) :
    PageSafe boot c (freeZones ptr numPages) Q tok := by
  rintro t m m' toks x hinv ht ⟨⟨zones, hzones, rfl⟩, -⟩
  rw [htok] at ht
  refine ⟨rest, hinv.drop ht rfl ?_, hQ⟩
  have hle : {(⟨ptr, numPages⟩ : Grant)} ≤ m.carried t := by
    rw [hinv.carried_eq ht]
    exact Multiset.le_add_right _ _
  have hsum := PageMem.outside_drop hle
  obtain ⟨live, hlive, hgood⟩ := hinv.zones
  rw [← hsum, Multiset.map_add, Multiset.map_singleton, Multiset.singleton_add] at hlive
  have hmem : (⟨ptr, numPagesToOrder numPages⟩ : Block) ∈ live := by
    rw [← Multiset.mem_coe, hlive]
    exact Multiset.mem_cons_self _ _
  obtain ⟨zones', hfree, hgood'⟩ := hgood.freeZones boot.apart hmem
  rw [hzones] at hfree
  cases hfree
  refine ⟨_, ?_, hgood'⟩
  rw [← Multiset.coe_erase, hlive]
  exact Multiset.erase_cons_head _ _

/-! ### The functions -/

lemma refillPageCache {Q : ℕ → Multiset Grant → Prop} (hQ : ∀ n, Q n tok) :
    PageSafe boot c refillPageCache Q tok := by
  refine Safe.bind (refillTake fun buf => ?_)
  by_cases hbuf : 0 < buf.length
  · rw [if_pos hbuf]
    exact Safe.bind (refillPush rfl (hQ _))
  · obtain rfl : buf = [] := length_eq_zero_iff.mp (by omega)
    rw [map_nil, Multiset.coe_nil, zero_add]
    exact hQ 0

lemma allocSlow {Q : Option ℕ → Multiset Grant → Prop} (hQ : ∀ r, Q r (found 1 r + tok)) :
    PageSafe boot c allocSlow Q tok := by
  have hnone := hQ none
  rw [found_none_add] at hnone
  refine Safe.bind (refillPageCache fun n => ?_)
  by_cases hn : 0 < n
  · rw [if_pos hn]
    refine Safe.bind (popCache fun r => ?_)
    cases r with
    | none => exact hQ none
    | some ptr => exact Safe.bind (subCacheCount (hQ (some ptr)))
  · rw [if_neg hn]
    exact hnone

lemma allocCached {Q : Option ℕ → Multiset Grant → Prop} (hQ : ∀ r, Q r (found 1 r + tok)) :
    PageSafe boot c allocCached Q tok := by
  refine Safe.bind (loadCacheCount fun n => ?_)
  by_cases hn : 0 < n
  · rw [if_pos hn]
    refine Safe.bind (popCache fun r => ?_)
    cases r with
    | none =>
      rw [found_none_add]
      exact allocSlow hQ
    | some ptr => exact Safe.bind (subCacheCount (Safe.bind (subFree 1 (hQ (some ptr)))))
  · rw [if_neg hn]
    exact allocSlow hQ

lemma allocPage {Q : Option ℕ → Multiset Grant → Prop} (dirtyOk : Bool)
    (hQ : ∀ r, Q r (found 1 r + tok)) : PageSafe boot c (allocPage dirtyOk) Q tok := by
  cases dirtyOk with
  | true => exact allocCached hQ
  | false =>
    refine Safe.bind (loadPrezeroedCount fun n => ?_)
    by_cases hn : 0 < n
    · rw [if_pos hn]
      refine Safe.bind (popPrezeroed fun r => ?_)
      cases r with
      | none =>
        rw [found_none_add]
        exact allocCached hQ
      | some ptr => exact Safe.bind (subPrezeroedCount (hQ (some ptr)))
    · rw [if_neg hn]
      exact allocCached hQ

lemma countBatch {Q : List ℕ → Multiset Grant → Prop} (pages : List ℕ) (hQ : Q pages tok) :
    PageSafe boot c (PageAlloc.countBatch pages) Q tok := by
  rw [PageAlloc.countBatch]
  by_cases hpages : 0 < pages.length
  · rw [if_pos hpages]
    exact Safe.bind (subFree _ hQ)
  · rw [if_neg hpages]
    exact hQ

lemma completeBatch {Q : List ℕ → Multiset Grant → Prop} (max : ℕ) (pages : List ℕ)
    (hQ : ∀ more, Q (pages ++ more) (↑(more.map Grant.page) + tok)) :
    PageSafe boot c (PageAlloc.completeBatch max pages) Q tok := by
  rw [PageAlloc.completeBatch]
  by_cases hlen : pages.length < max
  · rw [if_pos hlen]
    exact Safe.bind (batchTake _ fun more => countBatch _ (hQ more))
  · rw [if_neg hlen]
    have hnil := hQ []
    rw [append_nil, map_nil, Multiset.coe_nil, zero_add] at hnil
    exact countBatch pages hnil

lemma allocPageBatch {Q : List ℕ → Multiset Grant → Prop} (max : ℕ)
    (hQ : ∀ pages, Q pages (↑(pages.map Grant.page) + tok)) :
    PageSafe boot c (allocPageBatch max) Q tok := by
  refine Safe.bind (loadCacheCount fun n => ?_)
  by_cases hn : 0 < n
  · rw [if_pos hn]
    refine Safe.bind (drainCache max fun pages => completeBatch max pages fun more => ?_)
    have hsum := hQ (pages ++ more)
    rw [map_append, ← Multiset.coe_add, add_assoc, add_left_comm] at hsum
    exact hsum
  · rw [if_neg hn]
    exact completeBatch max [] hQ

lemma allocPages {Q : Option ℕ → Multiset Grant → Prop} (numPages : ℕ) (dirtyOk : Bool)
    (hQ : ∀ r, Q r (found numPages r + tok)) :
    PageSafe boot c (PageAlloc.allocPages numPages dirtyOk) Q tok := by
  rw [PageAlloc.allocPages]
  by_cases hone : numPages = 1
  · subst hone
    exact allocPage dirtyOk hQ
  · rw [if_neg hone]
    refine Safe.bind (allocZones numPages fun r => ?_)
    cases r with
    | none => exact hQ none
    | some ptr => exact Safe.bind (subFree _ (hQ (some ptr)))

lemma freeSingle (htok : tok = {Grant.page ptr} + rest) (hQ : Q () rest) :
    PageSafe boot c (freeSingle ptr) Q tok := by
  refine Safe.bind (loadCacheCount fun n => ?_)
  by_cases hn : n < pageCacheSize
  · rw [if_pos hn]
    exact Safe.bind (pushCache htok hQ (freeZones htok hQ))
  · rw [if_neg hn]
    exact freeZones htok hQ

lemma freePages (htok : tok = {(⟨ptr, numPages⟩ : Grant)} + rest) (hQ : Q () rest) :
    PageSafe boot c (PageAlloc.freePages ptr numPages) Q tok := by
  rw [PageAlloc.freePages]
  by_cases hone : numPages = 1
  · subst hone
    have hmem : page ptr ∈ tok := by
      rw [htok]
      exact Multiset.mem_add.mpr (.inl (Multiset.mem_singleton_self _))
    refine Safe.bind (loadZeroCheck fun check => ?_)
    cases check with
    | false => exact freeSingle htok hQ
    | true => exact Safe.bind (inCache hmem (Safe.bind (inPrezeroed hmem (freeSingle htok hQ))))
  · rw [if_neg hone]
    exact freeZones htok hQ

lemma freeHugePageAndZero (htok : tok = {huge ptr} + rest) (hQ : Q () rest) :
    PageSafe boot c (freeHugePageAndZero ptr) Q tok :=
  Safe.bind (pushHuge htok (addFree 512 hQ) (freePages htok hQ))

lemma refillPrezeroed {Q : ℕ → Multiset Grant → Prop} (target filled : ℕ)
    (hQ : ∀ n, Q n tok) : PageSafe boot c (refillPrezeroed target filled) Q tok := by
  induction target generalizing filled with
  | zero => exact hQ filled
  | succ target ih =>
    refine Safe.bind (allocPage true fun r => ?_)
    cases r with
    | none =>
      rw [found_none_add]
      exact hQ filled
    | some ptr =>
      exact Safe.bind (pushPrezeroed (found_some 1 ptr ▸ rfl) (ih _)
        (Safe.bind (freePages (found_some 1 ptr ▸ rfl) (hQ filled))))

lemma refillPrezeroedPages {Q : ℕ → Multiset Grant → Prop} (hQ : ∀ n, Q n tok) :
    PageSafe boot c refillPrezeroedPages Q tok := by
  refine Safe.bind (loadPrezeroedCount fun n => ?_)
  by_cases hn : prezeroedPoolSize / 2 ≤ n
  · rw [if_pos hn]
    exact hQ 0
  · rw [if_neg hn]
    exact refillPrezeroed _ 0 hQ

lemma handOutFound {r : Option ℕ} (hQ : Q () tok) :
    PageSafe boot c (PageCall.handOutFound numPages r) Q (found numPages r + tok) := by
  cases r with
  | none =>
    rw [found_none_add]
    exact hQ
  | some ptr => exact handOut rfl hQ

/-- Every call ends with empty hands. -/
lemma prog (call : PageCall) :
    PageSafe boot c call.prog (fun _ tok => tok = 0) 0 := by
  cases call with
  | allocPage dirtyOk => exact Safe.bind (allocPage dirtyOk fun r => handOutFound rfl)
  | allocPageBatch max => exact Safe.bind (allocPageBatch max fun pages => handOut rfl rfl)
  | allocPages numPages dirtyOk =>
    exact Safe.bind (allocPages numPages dirtyOk fun r => handOutFound rfl)
  | allocHugePage => exact Safe.bind (allocPages 512 true fun r => handOutFound rfl)
  | allocHugePagePrezeroed => exact Safe.bind (popHuge fun r => handOutFound rfl)
  | freePages grant => exact Safe.bind (giveUp grant (freePages rfl rfl))
  | freeHugePageAndZero ptr => exact Safe.bind (giveUp (huge ptr) (freeHugePageAndZero rfl rfl))
  | refillPrezeroedPages => exact Safe.bind (refillPrezeroedPages fun _ => rfl)

end PageSafe

namespace Holdings

variable {boot : BootMemory} {m m' : PageMem} {toks : ℕ → Option (PageCall × Multiset Grant)}

lemma init (boot : BootMemory) (words : ℕ → ℕ) :
    Holdings boot (PageMem.init boot words) fun _ => none :=
  ⟨⟨[], rfl, ZonesGood.new boot.regions words⟩, fun _ => rfl⟩

lemma written (h : Holdings boot m toks) (hwritten : m.Written m') : Holdings boot m' toks := by
  obtain ⟨zones, hzones, rfl⟩ := hwritten
  obtain ⟨live, hlive, hgood⟩ := h.zones
  refine ⟨⟨live, hlive, hgood.rewritten boot.apart ?_ hzones⟩, h.carried⟩
  rintro a ⟨g, hg, hga⟩ -
  refine ⟨g.block, ?_, hga⟩
  rw [← Multiset.mem_coe, hlive]
  exact Multiset.mem_map_of_mem _ hg

lemma conserved (h : Holdings boot m toks) : m.Conserved boot := by
  obtain ⟨live, hlive, hgood⟩ := h.zones
  intro region hregion a hlo hhi
  have htiles := hgood.tiles boot.apart a
  rw [if_pos ⟨region, hregion, hlo, hhi⟩] at htiles
  rw [places, ← hlive, Multiset.coe_add, Multiset.coe_countP]
  simpa only [Bool.decide_eq_true] using htiles

end Holdings

/-- Every call moves pages from place to place only. -/
def roomyDiscipline (boot : BootMemory) : Discipline roomySystem (Multiset Grant) where
  inv := Holdings boot
  init := 0
  done tok := tok = 0
  inv_spawn := by
    intro m toks t c h ht
    refine ⟨h.zones, fun u => ?_⟩
    by_cases hu : u = t
    · subst hu
      rw [h.carried u, ht, update_self]
      rfl
    · rw [h.carried u, update_of_ne hu]
  inv_exit := by
    intro m toks t c tok h ht hdone
    refine ⟨h.zones, fun u => ?_⟩
    by_cases hu : u = t
    · subst hu
      rw [h.carried_eq ht, hdone, update_self]
      rfl
    · rw [h.carried u, update_of_ne hu]
  inv_other := fun h hother => h.written hother.1
  safe_start := fun c => PageSafe.prog c

/-- In every interleaving in which refills find room in the cache, every managed
address is at every step in exactly one place. -/
theorem conserved_of_roomy (boot : BootMemory) (words : ℕ → ℕ) {m : PageMem}
    {pool : Pool PageCall PageOp PageOp.Ans Unit}
    (h : roomySystem.Reaches (PageMem.init boot words) m pool) : m.Conserved boot := by
  obtain ⟨toks, hinv, -⟩ := (roomyDiscipline boot).reaches (Holdings.init boot words) h
  exact hinv.conserved

/-- One region of 128 pages. -/
def twoCaches : BootMemory where
  regions := [⟨0x100000, 0x100000, 128 * pageSize, by decide, by decide, by decide⟩]
  apart := List.pairwise_singleton _ _
  length_le := by decide

/-- The zones have pages for two refills. -/
lemma exists_two_refills : ∃ (first second : List ℕ) (zones₁ zones₂ : List BuddyAllocator),
    takeZones pageCacheSize (PageMem.init twoCaches fun _ => 0).zones = some (first, zones₁) ∧
    takeZones pageCacheSize zones₁ = some (second, zones₂) ∧
    first.length = pageCacheSize ∧ second.length = pageCacheSize ∧
    ZonesGood twoCaches.regions zones₂ (second.map (⟨·, 0⟩) ++ first.map (⟨·, 0⟩)) := by
  have hgood := ZonesGood.new twoCaches.regions fun _ => 0
  obtain ⟨first, zones₁, htake₁, -, hgood₁⟩ := hgood.takeZones pageCacheSize
  obtain ⟨second, zones₂, htake₂, -, hgood₂⟩ := hgood₁.takeZones pageCacheSize
  have hlen₁ := hgood.takeZones_length htake₁
  have hlen₂ := hgood₁.takeZones_length htake₂
  have hsum : (twoCaches.regions.map fun r => r.len / pageSize).sum = 128 := by decide
  rw [hgood₁.totalPages_eq, hsum] at hlen₂
  have hpages : (((first.map fun ptr => (⟨ptr, 0⟩ : Block)) ++ []).map Block.pages).sum =
      pageCacheSize := by
    have hone : (Block.pages ∘ fun ptr => (⟨ptr, 0⟩ : Block)) = fun _ => 1 := rfl
    rw [append_nil, map_map, hone, map_const', sum_replicate, hlen₁]
    rfl
  rw [hpages] at hlen₂
  rw [append_nil] at hgood₂
  exact ⟨first, second, zones₁, zones₂, htake₁, htake₂, hlen₁, hlen₂, hgood₂⟩

namespace PageMem

/-- A processor has taken pages from the zones to refill the cache. -/
def refilling (m : PageMem) (t : ℕ) (zones : List BuddyAllocator) (buf : List ℕ) : PageMem :=
  { m with zones := zones }.carry t ↑(buf.map Grant.page)

/-- A processor has tried to push its pages to the cache. -/
def refilled (m : PageMem) (t : ℕ) (buf : List ℕ) : PageMem :=
  { m with
    cache := pushAll m.cache buf
    cacheCount := (pushAll m.cache buf).length
    numFree := wsub m.numFree buf.length }.drop t ↑(buf.map Grant.page)

/-- A full cache takes no page. -/
lemma pushAll_of_full {cache : List ℕ} (h : pageCacheSize ≤ cache.length) (buf : List ℕ) :
    pushAll cache buf = cache := by
  induction buf with
  | nil => rfl
  | cons ptr buf ih =>
    rw [pushAll, foldl_cons, if_neg (by omega)]
    exact ih

/-- Pages that are in no place any more. -/
lemma not_conserved_of_lost {boot : BootMemory} {m : PageMem} {lost live : List Block}
    (hgood : ZonesGood boot.regions m.zones (lost ++ live))
    (hout : m.outside.map block = ↑live) (hlost : lost ≠ []) : ¬m.Conserved boot := by
  intro hconserved
  obtain ⟨b, hb⟩ := exists_mem_of_ne_nil _ hlost
  obtain ⟨region, hregion, hlo, hhi⟩ := hgood.exists_region (mem_append_left live hb) b.holds_ptr
  have htiles := hgood.tiles boot.apart b.ptr
  rw [if_pos ⟨region, hregion, hlo, hhi⟩, countP_append, countP_append] at htiles
  have hpos : 0 < lost.countP (Block.holds b.ptr) := countP_pos_iff.mpr ⟨b, hb, b.holds_ptr⟩
  have hone := hconserved region hregion b.ptr hlo hhi
  rw [places, hout, Multiset.coe_add, Multiset.coe_countP, countP_append] at hone
  simp only [Bool.decide_eq_true] at hone
  change (m.zones.flatMap BuddyAllocator.listed).countP (Block.holds b.ptr) +
    live.countP (Block.holds b.ptr) = 1 at hone
  omega

end PageMem

/-- Two processors refill the cache at once, and the first one has filled it. -/
lemma reaches_two_refills : ∃ (first second : List ℕ) (m : PageMem) (pool : _) (next : _),
    roomySystem.Reaches (PageMem.init twoCaches fun _ => 0) m pool ∧
    pool 1 = some (.allocPage true, .act (.refillPush second) next) ∧
    first.length = pageCacheSize ∧ second.length = pageCacheSize ∧
    ZonesGood twoCaches.regions m.zones (second.map (⟨·, 0⟩) ++ first.map (⟨·, 0⟩)) ∧
    m.cache = first.reverse ∧ m.prezeroed = [] ∧ m.hugePool = [] ∧ m.handed = 0 ∧
    m.inFlight = ↑(second.map fun ptr => (1, Grant.page ptr)) := by
  obtain ⟨first, second, zones₁, zones₂, htake₁, htake₂, hlen₁, hlen₂, hgood⟩ := exists_two_refills
  let m := PageMem.init twoCaches fun _ => 0
  let m₁ := m.refilling 0 zones₁ first
  let m₂ := m₁.refilling 1 zones₂ second
  have hload : ∀ t, roomySystem.sem t (.allocPage true) m .loadCacheCount (0 : ℕ) m :=
    fun t => ⟨⟨rfl, rfl⟩, trivial⟩
  have hfirst : roomySystem.sem 0 (.allocPage true) m .refillTake first m₁ :=
    ⟨⟨zones₁, htake₁, rfl⟩, trivial⟩
  have hsecond : roomySystem.sem 1 (.allocPage true) m₁ .refillTake second m₂ :=
    ⟨⟨zones₂, htake₂, rfl⟩, trivial⟩
  have hpush : roomySystem.sem 0 (.allocPage true) m₂ (.refillPush first) ()
      (m₂.refilled 0 first) := by
    refine ⟨rfl, ?_⟩
    change 0 + first.length ≤ pageCacheSize
    rw [zero_add, hlen₁]
  obtain ⟨f, fs, rfl⟩ := exists_cons_of_length_pos (by rw [hlen₁]; decide)
  obtain ⟨g, gs, rfl⟩ := exists_cons_of_length_pos (by rw [hlen₂]; decide)
  have start : roomySystem.Reaches m _ _ := .refl
  have spawned := (start.tail (.spawn 0 (.allocPage true) rfl)).tail
    (.spawn 1 (.allocPage true) rfl)
  have loaded := (spawned.tail (.act 0 _ rfl (hload 0))).tail (.act 1 _ rfl (hload 1))
  have taken := (loaded.tail (.act 0 _ rfl hfirst)).tail (.act 1 _ rfl hsecond)
  refine ⟨_, _, _, _, _, taken.tail (.act 0 _ rfl hpush), rfl, hlen₁, hlen₂, hgood, ?_, rfl, rfl,
    rfl, ?_⟩
  · exact (PageMem.pushAll_of_room (by rw [hlen₁]; rfl)).trans (append_nil _)
  · simp only [m₂, m₁, m, PageMem.refilled, PageMem.refilling, PageMem.init, PageMem.carry,
      PageMem.drop, Multiset.map_coe, map_map, Function.comp_def, add_zero, add_tsub_cancel_right]

theorem conserved_two_refills : ∃ m pool,
    roomySystem.Reaches (PageMem.init twoCaches fun _ => 0) m pool ∧
    m.cache.length = pageCacheSize ∧ m.inFlight.card = pageCacheSize ∧
    m.Conserved twoCaches := by
  obtain ⟨first, second, m, pool, -, hreach, -, hlen₁, hlen₂, -, hcache, -, -, -, hfly⟩ :=
    reaches_two_refills
  refine ⟨m, pool, hreach, ?_, ?_, conserved_of_roomy twoCaches _ hreach⟩
  · rw [hcache, length_reverse, hlen₁]
  · rw [hfly, Multiset.coe_card, length_map, hlen₂]

/-- Two refills at once lose 64 pages. -/
theorem not_conserved_two_refills : ∃ m pool,
    pageSystem.Reaches (PageMem.init twoCaches fun _ => 0) m pool ∧ ¬m.Conserved twoCaches := by
  obtain ⟨first, second, m, pool, _, hreach, hpool, hlen₁, hlen₂, hgood, hcache, hprezeroed, hhuge,
    hhanded, hfly⟩ := reaches_two_refills
  have hpush : pageSystem.sem 1 (.allocPage true) m (.refillPush second) ()
      (m.refilled 1 second) := rfl
  refine ⟨_, _, hreach.of_restrict.tail (.act 1 _ hpool hpush), ?_⟩
  have hfull : pushAll m.cache second = m.cache :=
    pushAll_of_full (by rw [hcache, length_reverse, hlen₁]) second
  have hhands : (m.refilled 1 second).inFlight = 0 := by
    change m.inFlight - (↑(second.map page) : Multiset Grant).map (1, ·) = 0
    rw [hfly, Multiset.map_coe, map_map]
    exact tsub_self _
  have hrest : (m.refilled 1 second).atRest = ↑(first.map page) := by
    change ↑((pushAll m.cache second).map page) + ↑(m.prezeroed.map page) +
      ↑(m.hugePool.map huge) + m.handed = _
    rw [hfull, hcache, hprezeroed, hhuge, hhanded]
    simp
  have hout : (m.refilled 1 second).outside.map block =
      ↑(first.map fun ptr => (⟨ptr, 0⟩ : Block)) := by
    rw [PageMem.outside, hrest, hhands, Multiset.map_zero, add_zero, PageSafe.map_block_page]
  refine @PageMem.not_conserved_of_lost _ _ (second.map (⟨·, 0⟩)) _ ?_ hout ?_
  · exact hgood
  · intro hnil
    rw [map_eq_nil_iff] at hnil
    rw [hnil] at hlen₂
    cases hlen₂

end Kevlar
