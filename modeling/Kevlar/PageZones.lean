import Kevlar.BuddyRuns

/-!
# The zones of the page allocator

The page allocator keeps one buddy allocator for each region of memory and tries
them in order. A list of zones is good for a list of live blocks if the blocks can
be distributed over the zones such that each zone is consistent. Taking blocks
from the zones and giving them back keeps that, and the sizes of the live blocks
never add up to more than the pages of all zones.
-/
namespace Kevlar.Buddy
open List Option Nat BuddyAllocator Block DisjointRegions LinkedChain

namespace BuddyAllocator

/-- `includes`. -/
def includes (s : BuddyAllocator) (ptr : ℕ) : Bool :=
  decide (s.base ≤ ptr) && decide (ptr < s.endAddr)

end BuddyAllocator

/-- Single pages from one zone, at most `max` of them; `none` is a failed assertion. -/
def takeZone : ℕ → BuddyAllocator → Option (List ℕ × BuddyAllocator)
  | 0, zone => some ([], zone)
  | max + 1, zone => match zone.allocOrder 0 with
    | none => none
    | some (none, zone) => some ([], zone)
    | some (some page, zone) => (takeZone max zone).map fun r => (page :: r.1, r.2)

/-- Single pages from the zones in turn, at most `max` of them. -/
def takeZones : ℕ → List BuddyAllocator → Option (List ℕ × List BuddyAllocator)
  | _, [] => some ([], [])
  | max, zone :: zones => (takeZone max zone).bind fun r =>
    (takeZones (max - r.1.length) zones).map fun rest => (r.1 ++ rest.1, r.2 :: rest.2)

/-- A block of the order from the first zone that has one. -/
def allocZones (order : ℕ) : List BuddyAllocator → Option (Option ℕ × List BuddyAllocator)
  | [] => some (none, [])
  | zone :: zones => match zone.allocOrder order with
    | none => none
    | some (some ptr, zone) => some (some ptr, zone :: zones)
    | some (none, zone) => (allocZones order zones).map fun r => (r.1, zone :: r.2)

/-- Give a block back to the zone that includes it; an address of no zone is a panic. -/
def freeZones (ptr order : ℕ) : List BuddyAllocator → Option (List BuddyAllocator)
  | [] => none
  | zone :: zones =>
    if zone.includes ptr then (zone.freeCoalesce ptr order).map (· :: zones)
    else (freeZones ptr order zones).map (zone :: ·)

/-- The live blocks can be distributed over the zones such that each is consistent. -/
def ZonesGood : List ManagedRegion → List BuddyAllocator → List Block → Prop
  | [], [], live => live = []
  | region :: regions, zone :: zones, live => ∃ here there, Good region zone here ∧
      ZonesGood regions zones there ∧ live.Perm (here ++ there)
  | _, _, _ => False

variable {regions : List ManagedRegion} {zones : List BuddyAllocator} {live held : List Block}
  {region : ManagedRegion} {zone s : BuddyAllocator} {stop : ℕ} {lists : ℕ → List ℕ}

/-- The induction over the zones. -/
lemma ZonesGood.zones_induction
    {motive : ∀ regions zones live, ZonesGood regions zones live → Prop} (nil : motive [] [] [] rfl)
    (cons : ∀ {region regions zone zones live here there} (hhere : Good region zone here)
      (hthere : ZonesGood regions zones there) (hperm : live.Perm (here ++ there)),
      motive regions zones there hthere →
        motive (region :: regions) (zone :: zones) live ⟨here, there, hhere, hthere, hperm⟩)
    (h : ZonesGood regions zones live) : motive regions zones live h := by
  induction regions generalizing zones live with
  | nil => cases zones with
    | nil =>
      obtain rfl : live = [] := h
      exact nil
    | cons => exact h.elim
  | cons region regions ih => cases zones with
    | nil => exact h.elim
    | cons zone zones =>
      obtain ⟨here, there, hhere, hthere, hperm⟩ := h
      exact cons hhere hthere hperm (ih hthere)

/-- No address is managed by two regions. -/
def Apart (r r' : ManagedRegion) : Prop :=
  ∀ a, ¬((r.basePaddr ≤ a ∧ a < r.stop) ∧ (r'.basePaddr ≤ a ∧ a < r'.stop))

lemma Good.perm {live' : List Block} (h : Good region zone live) (hp : live.Perm live') :
    Good region zone live' := by
  obtain ⟨lists, hinv⟩ := h.inv
  refine ⟨⟨lists, hinv.perm_held hp⟩, h.manages, fun a hlo hhi => ?_⟩
  rw [h.bitmap a hlo hhi]
  simp only [hp.mem_iff]

/-- A live block lies in the region. -/
lemma Good.mem_region (h : Good region zone live) {b : Block} (hb : b ∈ live) {a : ℕ}
    (ha : b.holds a = true) :
    region.basePaddr ≤ a ∧ a < region.stop := by
  obtain ⟨lists, hinv⟩ := h.inv
  rw [← h.manages.base, ← h.manages.endAddr]
  exact hinv.mem_region (mem_append_right _ hb) ha

namespace ZonesGood

variable {regions : List ManagedRegion} {zones : List BuddyAllocator} {live : List Block}

/-- A live block lies in the regions. -/
lemma exists_region (h : ZonesGood regions zones live) {b : Block} (hb : b ∈ live) {a : ℕ}
    (ha : b.holds a = true) : ∃ region ∈ regions, region.basePaddr ≤ a ∧ a < region.stop := by
  induction h using ZonesGood.zones_induction with
  | nil => simp at hb
  | @cons region _ _ _ _ _ _ hhere hthere hperm ih =>
    rcases mem_append.mp (hperm.mem_iff.mp hb) with hb | hb
    · exact ⟨region, mem_cons_self, hhere.mem_region hb ha⟩
    · obtain ⟨r, hr, hin⟩ := ih hb
      exact ⟨r, mem_cons_of_mem _ hr, hin⟩

end ZonesGood

lemma takeZone_good (h : Good region zone live) (max : ℕ) :
    ∃ pages zone', takeZone max zone = some (pages, zone') ∧ pages.length ≤ max ∧
      Good region zone' (pages.map (⟨·, 0⟩) ++ live) := by
  induction max generalizing zone live with
  | zero => exact ⟨[], zone, rfl, le_refl _, h⟩
  | succ max ih =>
    obtain ⟨r, zone₁, halloc, hgood⟩ := allocOrder_good h (zero_le maxOrder)
    cases r with
    | none => exact ⟨[], zone₁, by simp [takeZone, halloc], zero_le _, hgood⟩
    | some page =>
      obtain ⟨pages, zone', htake, hlen, hgood'⟩ := ih hgood
      refine ⟨page :: pages, zone', by simp [takeZone, halloc, htake], by simpa using hlen, ?_⟩
      refine hgood'.perm ?_
      exact perm_middle

namespace ZonesGood

variable {regions : List ManagedRegion} {zones : List BuddyAllocator} {live : List Block}

section

variable (h : ZonesGood regions zones live)
include h

lemma takeZones (max : ℕ) :
    ∃ pages zones', takeZones max zones = some (pages, zones') ∧ pages.length ≤ max ∧
      ZonesGood regions zones' (pages.map (⟨·, 0⟩) ++ live) := by
  induction h using ZonesGood.zones_induction generalizing max with
  | nil => exact ⟨[], [], rfl, zero_le _, rfl⟩
  | cons hhere hthere hperm ih =>
    obtain ⟨pages, zone', htake, hlen, hgood⟩ := takeZone_good hhere max
    obtain ⟨rest, zones', hrest, hlen', hgood'⟩ := ih (max - pages.length)
    refine ⟨pages ++ rest, zone' :: zones', by simp [Buddy.takeZones, htake, hrest], ?_,
      _, _, hgood, hgood', ?_⟩
    · rw [length_append]
      omega
    · rw [map_append]
      refine (hperm.append_left _).trans ?_
      simp only [append_assoc]
      refine List.Perm.append_left _ ?_
      rw [← append_assoc, ← append_assoc]
      exact perm_append_comm.append_right _

lemma allocZones {order : ℕ} (horder : order ≤ maxOrder) :
    ∃ r zones', allocZones order zones = some (r, zones') ∧
      ZonesGood regions zones' ((r.map fun ptr => (⟨ptr, order⟩ : Block)).toList ++ live) := by
  induction h using ZonesGood.zones_induction with
  | nil => exact ⟨none, [], rfl, rfl⟩
  | @cons _ _ _ zones _ _ _ hhere hthere hperm ih =>
    obtain ⟨r, zone', halloc, hgood⟩ := allocOrder_good hhere horder
    cases r with
    | some ptr =>
      refine ⟨some ptr, zone' :: zones, by simp [Buddy.allocZones, halloc], _, _, hgood, hthere, ?_⟩
      exact (hperm.append_left _).trans (by simp)
    | none =>
      obtain ⟨r, zones', hrest, hgood'⟩ := ih
      refine ⟨r, zone' :: zones', by simp [Buddy.allocZones, halloc, hrest], _, _, hgood, hgood',
        ?_⟩
      refine (hperm.append_left _).trans ?_
      rw [← append_assoc, ← append_assoc]
      exact perm_append_comm.append_right _

/-- The same for an allocation that is known to return. -/
lemma of_allocZones {order : ℕ} {r : Option ℕ} {zones' : List BuddyAllocator}
    (halloc : Buddy.allocZones order zones = some (r, zones')) :
    ZonesGood regions zones' ((r.map fun ptr => (⟨ptr, order⟩ : Block)).toList ++ live) := by
  by_cases horder : order ≤ maxOrder
  · obtain ⟨r', zones'', halloc', hgood⟩ := h.allocZones horder
    rw [halloc] at halloc'
    cases halloc'
    exact hgood
  · cases zones with
    | nil =>
      cases halloc
      exact h
    | cons zone zones =>
      rw [Buddy.allocZones, allocOrder, if_pos (by omega)] at halloc
      cases halloc

/-- The same for pages that are known to have been taken. -/
lemma of_takeZones {max : ℕ} {pages : List ℕ} {zones' : List BuddyAllocator}
    (htake : Buddy.takeZones max zones = some (pages, zones')) :
    ZonesGood regions zones' (pages.map (⟨·, 0⟩) ++ live) := by
  obtain ⟨pages', zones'', htake', -, hgood⟩ := h.takeZones max
  rw [htake] at htake'
  cases htake'
  exact hgood

lemma freeZones (hapart : regions.Pairwise Apart) {b : Block} (hb : b ∈ live) :
    ∃ zones', freeZones b.ptr b.order zones = some zones' ∧
      ZonesGood regions zones' (live.erase b) := by
  induction h using ZonesGood.zones_induction with
  | nil => simp at hb
  | @cons region _ zone zones _ here there hhere hthere hperm ih =>
    obtain ⟨hregion, hapart⟩ := pairwise_cons.mp hapart
    have hincl : zone.includes b.ptr = true ↔ region.basePaddr ≤ b.ptr ∧ b.ptr < region.stop := by
      rw [includes, hhere.manages.base, hhere.manages.endAddr]
      simp
    by_cases hmem : b ∈ here
    · obtain ⟨zone', hfree, hgood⟩ := freeCoalesce_good hhere hmem
      refine ⟨zone' :: zones, ?_, _, _, hgood, hthere, ?_⟩
      · rw [Buddy.freeZones, if_pos (hincl.mpr (hhere.mem_region hmem b.holds_ptr)), hfree,
          map_some]
      · refine (hperm.erase b).trans ?_
        rw [erase_append_left _ hmem]
    · have hmem' : b ∈ there := (mem_append.mp (hperm.mem_iff.mp hb)).resolve_left hmem
      obtain ⟨zones', hfree, hgood⟩ := ih hapart hmem'
      have hout : ¬zone.includes b.ptr = true := by
        rw [hincl]
        intro hin
        obtain ⟨r, hr, hin'⟩ := hthere.exists_region hmem' b.holds_ptr
        exact hregion r hr b.ptr ⟨hin, hin'⟩
      refine ⟨zone :: zones', ?_, _, _, hhere, hgood, ?_⟩
      · rw [Buddy.freeZones, if_neg hout, hfree, map_some]
      · refine (hperm.erase b).trans ?_
        rw [erase_append_right _ hmem]

end

end ZonesGood

/-! ## Where every address is -/

/-- The blocks on the free lists of a zone. -/
def BuddyAllocator.listed (s : BuddyAllocator) : List Block :=
  freeBlocks fun order => nodes 0 s.next s.totalPages (s.freeLists order)

lemma Inv.listed_eq (h : Inv s stop lists held) : s.listed = freeBlocks lists := by
  refine flatMap_congr fun order horder => ?_
  have hle : order ≤ maxOrder := le_of_lt_succ (mem_range.mp horder)
  exact congrArg _ ((h.chain order hle).nodes_eq (h.length_list_le hle))

lemma Good.tiles (h : Good region zone live) :
    Tiles Block.holds (fun a => region.basePaddr ≤ a ∧ a < region.stop) (zone.listed ++ live) := by
  obtain ⟨lists, hinv⟩ := h.inv
  rw [hinv.listed_eq]
  have htiles := hinv.tiles
  simp only [h.manages.base, h.manages.endAddr] at htiles
  exact htiles

/-- An address of a region is in one block, on a free list or live, and an address
of no region is in none. -/
lemma ZonesGood.tiles (h : ZonesGood regions zones live) (hapart : regions.Pairwise Apart) :
    Tiles Block.holds (fun a => ∃ r ∈ regions, r.basePaddr ≤ a ∧ a < r.stop)
      (zones.flatMap listed ++ live) := by
  induction h using ZonesGood.zones_induction with
  | nil =>
    intro a
    simp
  | @cons region regions _ _ _ _ _ hhere hthere hperm ih =>
    obtain ⟨hregion, hapart⟩ := pairwise_cons.mp hapart
    intro a
    have hfirst := hhere.tiles a
    have hrest := ih hapart a
    rw [countP_append] at hfirst hrest
    rw [flatMap_cons, countP_append, countP_append, hperm.countP_eq, countP_append]
    by_cases ha : region.basePaddr ≤ a ∧ a < region.stop
    · have hnot : ¬∃ r ∈ regions, r.basePaddr ≤ a ∧ a < r.stop := by
        rintro ⟨r, hr, hin⟩
        exact hregion r hr a ⟨ha, hin⟩
      rw [if_pos ha] at hfirst
      rw [if_neg hnot] at hrest
      rw [if_pos ⟨region, mem_cons_self, ha⟩]
      omega
    · rw [if_neg ha] at hfirst
      have hiff : (∃ r ∈ region :: regions, r.basePaddr ≤ a ∧ a < r.stop) ↔
          ∃ r ∈ regions, r.basePaddr ≤ a ∧ a < r.stop := by
        simp [ha]
      simp only [hiff]
      simp only at hrest
      omega

/-- Somebody writes to addresses that are `owned`: all other words stay. -/
def Rewritten (owned : ℕ → Prop) (zone zone' : BuddyAllocator) : Prop :=
  ∃ words, zone' = { zone with words := words } ∧
    ∀ a, zone.base ≤ a → a < zone.endAddr → ¬owned a →
      words (wadd a zone.vaddrOffset) = zone.words (wadd a zone.vaddrOffset)

/-- Writing to live blocks does not disturb the zones. -/
lemma ZonesGood.rewritten {zones' : List BuddyAllocator} {owned : ℕ → Prop}
    (h : ZonesGood regions zones live) (hapart : regions.Pairwise Apart)
    (howned : ∀ a, owned a → (∃ r ∈ regions, r.basePaddr ≤ a ∧ a < r.stop) →
      ∃ b ∈ live, b.holds a = true) (hzones : List.Forall₂ (Rewritten owned) zones zones') :
    ZonesGood regions zones' live := by
  induction h using ZonesGood.zones_induction generalizing zones' with
  | nil =>
    cases hzones
    rfl
  | @cons region _ zone _ _ here there hhere hthere hperm ih =>
    obtain ⟨hregion, hapart⟩ := pairwise_cons.mp hapart
    obtain ⟨zone', zones', ⟨words, rfl, hwords⟩, hrest, rfl⟩ := forall₂_cons_left_iff.mp hzones
    refine ⟨here, there, ?_, ih hapart ?_ hrest, hperm⟩
    · refine @Good.other region ⟨zone, here⟩ hhere words zone.bitmap ⟨?_, fun _ _ _ => rfl⟩
      intro a hlo hhi hfree
      refine hwords a hlo hhi fun ha => ?_
      rw [hhere.manages.base] at hlo
      rw [hhere.manages.endAddr] at hhi
      obtain ⟨b, hb, hba⟩ := howned a ha ⟨region, mem_cons_self, hlo, hhi⟩
      rcases mem_append.mp (hperm.mem_iff.mp hb) with hb | hb
      · rw [hfree b hb] at hba
        cases hba
      · obtain ⟨r, hr, hin⟩ := hthere.exists_region hb hba
        exact hregion r hr a ⟨⟨hlo, hhi⟩, hin⟩
    · rintro a ha ⟨r, hr, hin⟩
      obtain ⟨b, hb, hba⟩ := howned a ha ⟨r, mem_cons_of_mem _ hr, hin⟩
      rcases mem_append.mp (hperm.mem_iff.mp hb) with hb | hb
      · exact absurd ⟨hhere.mem_region hb hba, hin⟩ (hregion r hr a)
      · exact ⟨b, hb, hba⟩

/-- The zones as they are set up, with all pages free. -/
lemma ZonesGood.new (regions : List ManagedRegion) (words : ℕ → ℕ) :
    ZonesGood regions
      (regions.map fun r => new r.base r.basePaddr r.len words fun _ => 0) [] := by
  induction regions with
  | nil => rfl
  | cons region regions ih =>
    refine ⟨[], [], new_good region words _ ?_, ih, List.Perm.refl _⟩
    intro a _ _
    simp [bitmapIsAllocated]

/-! ## Counting pages -/

/-- The number of pages of a block. -/
def Block.pages (b : Block) : ℕ := 2 ^ b.order

lemma sum_pages_mul (l : List Block) :
    (l.map Block.size).sum = (l.map Block.pages).sum * pageSize := by
  induction l with
  | nil => simp
  | cons b l ih =>
    rw [map_cons, map_cons, sum_cons, sum_cons, ih, add_mul]
    rfl

/-- Counting the addresses of blocks inside an interval block by block. -/
lemma sum_countP_holds {lo hi : ℕ} (l : List Block)
    (hin : ∀ b ∈ l, lo ≤ b.ptr ∧ b.ptr + b.size ≤ hi) :
    ∑ a ∈ Finset.Ico lo hi, l.countP (Block.holds a) = (l.map Block.size).sum := by
  induction l with
  | nil => simp
  | cons b l ih =>
    have hb := hin b mem_cons_self
    have hone : ∑ a ∈ Finset.Ico lo hi, (if b.holds a = true then 1 else 0) = b.size := by
      rw [Finset.sum_boole]
      have hset : (Finset.Ico lo hi).filter (fun a => b.holds a = true) =
          Finset.Ico b.ptr (b.ptr + b.size) := by
        ext a
        simp only [Finset.mem_filter, Finset.mem_Ico, holds_iff]
        omega
      rw [hset, Nat.card_Ico, Nat.add_sub_cancel_left, Nat.cast_id]
    simp only [countP_cons, Finset.sum_add_distrib, map_cons, sum_cons, hone]
    rw [ih fun c hc => hin c (mem_cons_of_mem _ hc), add_comm]

lemma Inv.block_inside (h : Inv s stop lists held) {b : Block}
    (hb : b ∈ freeBlocks lists ++ held) : s.base ≤ b.ptr ∧ b.ptr + b.size ≤ stop := by
  have hsize := b.size_pos
  have hfirst := h.mem_region hb b.holds_ptr
  have hlast : b.holds (b.ptr + b.size - 1) = true := by
    rw [holds_iff]
    omega
  have hend := (h.mem_region hb hlast).2
  exact ⟨hfirst.1, by omega⟩

/-- The free and the live blocks of a zone have all its pages between them. -/
lemma Good.sum_pages (h : Good region zone live) (hinv : Inv zone zone.endAddr lists live) :
    ((freeBlocks lists).map Block.pages).sum + (live.map Block.pages).sum = zone.totalPages := by
  have hsum := sum_countP_holds (freeBlocks lists ++ live) fun b hb => hinv.block_inside hb
  have hone : ∀ a ∈ Finset.Ico zone.base zone.endAddr,
      (freeBlocks lists ++ live).countP (holds a) = 1 := by
    intro a ha
    rw [hinv.tiles a, if_pos (Finset.mem_Ico.mp ha)]
  rw [Finset.sum_congr rfl hone, Finset.sum_const, Nat.card_Ico, smul_eq_mul, mul_one,
    sum_pages_mul, map_append, List.sum_append_nat] at hsum
  have hend : zone.endAddr - zone.base = zone.totalPages * pageSize := by
    rw [h.manages.endAddr, h.manages.base, h.manages.totalPages, ManagedRegion.stop,
      Nat.add_sub_cancel_left]
  rw [hend] at hsum
  exact (Nat.eq_of_mul_eq_mul_right pageSize_pos hsum).symm

/-- A zone with a free block of any order hands out a page. -/
lemma allocOrder_zero_of_free (h : Inv s stop lists held) (hfree : freeBlocks lists ≠ [])
    {s' : BuddyAllocator} : s.allocOrder 0 ≠ some (none, s') := by
  obtain ⟨b, hb⟩ := exists_mem_of_ne_nil _ hfree
  obtain ⟨order, horder, hb⟩ := mem_flatMap.mp hb
  have hle : order ≤ maxOrder := le_of_lt_succ (mem_range.mp horder)
  have hne : s.freeLists order ≠ 0 := by
    intro hz
    have hchain := h.chain order hle
    rw [hz] at hchain
    rw [hchain.eq_nil] at hb
    simp at hb
  rw [allocOrder, if_neg (by decide)]
  by_cases hfirst : s.freeLists 0 ≠ 0
  · rw [if_pos hfirst]
    cases hmark : markAllocated (s.popFree 0).2.bitmap
        (blockPages (s.popFree 0).1 0) <;> simp
  · rw [if_neg hfirst]
    have hsome : (s.nonemptyOrder 0).isSome := by
      rw [nonemptyOrder, find?_isSome]
      refine ⟨order, mem_range'_1.mpr ⟨?_, by omega⟩, by simpa using hne⟩
      by_contra hlt
      obtain rfl : order = 0 := by omega
      exact hfirst hne
    obtain ⟨big, hbig⟩ := isSome_iff_exists.mp hsome
    simp only [hbig]
    cases hmark : markAllocated
        (splitDown (s.popFree big).1 0 big (s.popFree big).2).bitmap
        (blockPages (s.popFree big).1 0) <;> simp

/-- The loop takes as many pages as it may or as there are. -/
lemma takeZone_length (h : Good region zone live) {max : ℕ} {pages : List ℕ}
    {zone' : BuddyAllocator} (htake : takeZone max zone = some (pages, zone')) :
    pages.length = min max (zone.totalPages - (live.map Block.pages).sum) := by
  induction max generalizing zone live pages zone' with
  | zero =>
    obtain ⟨rfl, -⟩ : [] = pages ∧ zone = zone' := by simpa [takeZone] using htake
    simp
  | succ max ih =>
    obtain ⟨r, zone₁, halloc, hgood⟩ := allocOrder_good h (zero_le maxOrder)
    have htotal : zone₁.totalPages = zone.totalPages := by
      rw [hgood.manages.totalPages, h.manages.totalPages]
    obtain ⟨lists, hinv⟩ := h.inv
    have hsum := h.sum_pages hinv
    cases r with
    | none =>
      obtain ⟨rfl, -⟩ : [] = pages ∧ zone₁ = zone' := by simpa [takeZone, halloc] using htake
      have hempty : freeBlocks lists = [] := by
        by_contra hfree
        exact allocOrder_zero_of_free hinv hfree halloc
      rw [hempty, map_nil, sum_nil, zero_add] at hsum
      rw [hsum]
      simp
    | some page =>
      simp only [takeZone, halloc, map_eq_some_iff, Prod.mk.injEq, Prod.exists] at htake
      obtain ⟨rest, zone₂, hrest, rfl, rfl⟩ := htake
      have hlen := ih hgood hrest
      obtain ⟨lists₁, hinv₁⟩ := hgood.inv
      have hsum₁ := hgood.sum_pages hinv₁
      simp only [map_some, toList_some, map_append, map_cons, map_nil, List.sum_append_nat,
        sum_cons, sum_nil, pages, htotal] at hlen hsum₁ ⊢
      rw [length_cons, hlen]
      omega

namespace ZonesGood

variable {regions : List ManagedRegion} {zones : List BuddyAllocator} {live : List Block}

section

variable (h : ZonesGood regions zones live)
include h

lemma totalPages_eq : zones.map (·.totalPages) = regions.map fun r => r.len / pageSize := by
  induction h using ZonesGood.zones_induction with
  | nil => rfl
  | cons hhere hthere _ ih => rw [map_cons, map_cons, hhere.manages.totalPages, ih]

/-- The live blocks have no more pages than all zones together. -/
lemma sum_pages_le : (live.map Block.pages).sum ≤ (zones.map (·.totalPages)).sum := by
  induction h using ZonesGood.zones_induction with
  | nil => simp
  | cons hhere hthere hperm ih =>
    obtain ⟨lists, hinv⟩ := hhere.inv
    have hhere' := hhere.sum_pages hinv
    rw [(hperm.map pages).sum_eq, map_append, List.sum_append_nat, map_cons, sum_cons]
    omega

lemma takeZones_length {max : ℕ} {pages : List ℕ} {zones' : List BuddyAllocator}
    (htake : Buddy.takeZones max zones = some (pages, zones')) :
    pages.length = min max ((zones.map (·.totalPages)).sum - (live.map Block.pages).sum) := by
  induction h using ZonesGood.zones_induction generalizing max pages zones' with
  | nil =>
    obtain ⟨rfl, -⟩ : [] = pages ∧ [] = zones' := by simpa [Buddy.takeZones] using htake
    simp
  | cons hhere hthere hperm ih =>
    simp only [Buddy.takeZones, bind_eq_some_iff, map_eq_some_iff, Prod.mk.injEq,
      Prod.exists] at htake
    obtain ⟨first, zone', hfirst, rest, zones'', hrest, rfl, rfl⟩ := htake
    have hlen := takeZone_length hhere hfirst
    have hlen' := ih hrest
    have hthere' := hthere.sum_pages_le
    obtain ⟨lists, hinv⟩ := hhere.inv
    have hhere' := hhere.sum_pages hinv
    rw [(hperm.map pages).sum_eq, map_append, List.sum_append_nat, map_cons, sum_cons,
      length_append]
    omega

end

end ZonesGood

end Kevlar.Buddy
