import Kevlar.BuddyInvariant

/-!
# The buddy allocator along whole runs

The region is seeded once and then changed by allocations, frees and by whatever
the owners of live blocks and the other zones do to memory and bitmap. No
operation fails an assertion, and in every state the free and the live blocks
tile the region with the bitmap marking the live ones.
-/
namespace Kevlar.Buddy
open List BuddyAllocator Block Bool DisjointRegions LinkedChain

variable {s : BuddyAllocator} {lists : ℕ → List ℕ} {live : List Block} {region : ManagedRegion}
  {b : Block}

/-- Merging ends with one block in hand and the bitmap untouched. -/
lemma Inv.coalesce {stop : ℕ} {held : List Block} (rounds : ℕ) {ptr order : ℕ}
    (h : Inv s stop lists (⟨ptr, order⟩ :: held)) (hrounds : order + rounds = maxOrder) :
    ∃ s' ptr' order' lists', coalesce rounds s ptr order = some (s', ptr', order') ∧
      Frame s s' ∧ Inv s' stop lists' (⟨ptr', order'⟩ :: held) := by
  induction rounds generalizing s lists ptr order with
  | zero => exact ⟨s, ptr, order, lists, rfl, Frame.refl s, h⟩
  | succ rounds ih =>
    simp only [coalesce]
    by_cases hregion : ptr ^^^ (2 ^ order * pageSize) < s.base ∨
        s.endAddr ≤ ptr ^^^ (2 ^ order * pageSize)
    · rw [if_pos hregion]
      exact ⟨s, ptr, order, lists, rfl, Frame.refl s, h⟩
    rw [if_neg hregion]
    by_cases hbusy : (blockPages (ptr ^^^ (2 ^ order * pageSize)) order).any
        (bitmapIsAllocated s.bitmap) = true
    · rw [if_pos hbusy]
      exact ⟨s, ptr, order, lists, rfl, Frame.refl s, h⟩
    rw [if_neg hbusy]
    rcases h.removeFromFreeList (show order ≤ maxOrder by omega)
      (ptr ^^^ (2 ^ order * pageSize)) with hnone | ⟨s₁, rest, hfound, hframe, hinv⟩
    · rw [hnone]
      exact ⟨s, ptr, order, lists, rfl, Frame.refl s, h⟩
    · rw [hfound]
      obtain ⟨s', ptr', order', lists', hrun, hframe', hinv'⟩ :=
        ih (hinv.merge (by omega) rfl) (by omega)
      exact ⟨s', ptr', order', lists', hrun, hframe.trans hframe', hinv'⟩

/-- In the region exactly the pages of live blocks have their bit set. -/
def BitmapExact (s : BuddyAllocator) (live : List Block) : Prop :=
  ∀ a, s.base ≤ a → a < s.endAddr →
    (bitmapIsAllocated s.bitmap a = true ↔ ∃ b ∈ live, b.holds a = true)

lemma BitmapExact.frame {s' : BuddyAllocator} (h : BitmapExact s live) (hframe : Frame s s') :
    BitmapExact s' live := by
  intro a
  rw [hframe.base, hframe.endAddr, hframe.bitmap]
  exact h a

/-- A page-aligned region of physical memory above address zero and below 16 GiB,
with the kernel virtual address of its start. -/
structure ManagedRegion where
  base : ℕ
  basePaddr : ℕ
  len : ℕ
  pos : 0 < basePaddr
  aligned : basePaddr % pageSize = 0
  below : basePaddr + len ≤ 16 * 2 ^ 30

/-- The end of the last whole page. -/
def ManagedRegion.stop (region : ManagedRegion) : ℕ :=
  region.basePaddr + region.len / pageSize * pageSize

/-- The allocator manages the whole pages of the region. -/
structure Manages (region : ManagedRegion) (s : BuddyAllocator) : Prop where
  base : s.base = region.basePaddr
  totalPages : s.totalPages = region.len / pageSize
  endAddr : s.endAddr = region.stop

lemma Manages.frame {s' : BuddyAllocator} (h : Manages region s) (hframe : Frame s s') :
    Manages region s' :=
  ⟨hframe.base.trans h.base, hframe.totalPages.trans h.totalPages,
    hframe.endAddr.trans h.endAddr⟩

/-- A consistent allocator whose live blocks are `live`. -/
structure Good (region : ManagedRegion) (s : BuddyAllocator) (live : List Block) : Prop where
  inv : ∃ lists, Inv s s.endAddr lists live
  manages : Manages region s
  bitmap : BitmapExact s live

lemma lt_of_mem_region {stop : ℕ} {held : List Block} (h : Inv s stop lists held) {a : ℕ}
    (ha : a < stop) :
    a < maxBitmapPages * pageSize := by
  have hstop := h.stop_le
  have hend := h.end_le
  omega

/-- A page of a block, its number and the addresses the block holds. -/
lemma holds_of_mem_blockPages (h : b.Aligned) {page : ℕ}
    (hpage : page ∈ blockPages b.ptr b.order) : b.holds page = true :=
  (mem_blockPages_div_iff h).mp (mem_map_of_mem hpage)

lemma nodup_blockPages_div (b : Block) :
    ((blockPages b.ptr b.order).map (· / pageSize)).Nodup := by
  rw [map_div_blockPages]
  exact nodup_range'

/-- Handing out the block in hand: no assertion fails and its bits are set. -/
lemma Good.handOut (hinv : Inv s s.endAddr lists (b :: live)) (hmanages : Manages region s)
    (hbits : BitmapExact s live) :
    ∃ bitmap, markAllocated s.bitmap (blockPages b.ptr b.order) =
      some bitmap ∧ Good region { s with bitmap := bitmap } (b :: live) := by
  have hb : b ∈ freeBlocks lists ++ b :: live := by simp
  have haligned := hinv.aligned b hb
  have hregion : ∀ page ∈ blockPages b.ptr b.order, s.base ≤ page ∧
      page < s.endAddr := fun page hpage =>
    hinv.mem_region hb (holds_of_mem_blockPages haligned hpage)
  obtain ⟨bitmap, hmark, hbitmap⟩ := markAllocated_eq s.bitmap _
    (fun page hpage => lt_of_mem_region hinv (hregion page hpage).2)
    (nodup_blockPages_div b) (by
      intro page hpage
      rw [← not_eq_true, hbits page (hregion page hpage).1 (hregion page hpage).2]
      rintro ⟨c, hc, hcp⟩
      have htiles := hinv.tiles.perm perm_append_comm
      exact (disjointOn_cons.mp htiles.disjointOn).1 c (by simp [hc]) page
        ⟨holds_of_mem_blockPages haligned hpage, hcp⟩)
  refine ⟨bitmap, hmark, ⟨lists, ?_⟩, ⟨hmanages.base, hmanages.totalPages, hmanages.endAddr⟩, ?_⟩
  · exact ⟨hinv.base_pos, hinv.base_mod, hinv.stop_le, hinv.end_le, hinv.chain, hinv.aligned,
      hinv.tiles⟩
  · intro a hlo hhi
    have hold := hbits a hlo hhi
    simp only [hbitmap a (lt_of_mem_region hinv hhi), or_eq_true, decide_eq_true_eq,
      mem_blockPages_div_iff haligned, mem_cons, exists_eq_or_imp, hold]

lemma allocOrder_good (h : Good region s live) {target : ℕ} (htarget : target ≤ maxOrder) :
    ∃ r s', s.allocOrder target = some (r, s') ∧
      Good region s' ((r.map fun ptr => (⟨ptr, target⟩ : Block)).toList ++ live) := by
  obtain ⟨lists, hinv⟩ := h.inv
  unfold allocOrder
  rw [if_neg (by omega)]
  split_ifs with hfast
  · obtain ⟨rest, hpop⟩ := hinv.pop htarget hfast
    obtain ⟨bitmap, hmark, hgood⟩ := Good.handOut hpop
      (h.manages.frame (frame_popFree s target)) h.bitmap
    simp only [hmark]
    exact ⟨_, _, rfl, hgood⟩
  · cases hfind : s.nonemptyOrder target with
    | none => exact ⟨none, s, rfl, h⟩
    | some order =>
      have hmem := mem_range'_1.mp (mem_of_find?_eq_some hfind)
      have hne : s.freeLists order ≠ 0 := by simpa using find?_some hfind
      obtain ⟨rest, hpop⟩ := hinv.pop (show order ≤ maxOrder by omega) hne
      obtain ⟨lists', hsplit, hframe⟩ := hpop.splitDown order (show target ≤ order by omega)
      have hframe' := (frame_popFree s order).trans hframe
      rw [← hframe'.endAddr] at hsplit
      obtain ⟨bitmap, hmark, hgood⟩ := Good.handOut hsplit
        (h.manages.frame hframe') (h.bitmap.frame hframe')
      simp only [hmark]
      exact ⟨_, _, rfl, hgood⟩

lemma freeCoalesce_good (h : Good region s live) (hb : b ∈ live) :
    ∃ s', s.freeCoalesce b.ptr b.order = some s' ∧ Good region s' (live.erase b) := by
  obtain ⟨lists, hinv⟩ := h.inv
  have hinv := hinv.perm_held (perm_cons_erase hb)
  have hmem : b ∈ freeBlocks lists ++ b :: live.erase b := by simp
  have haligned := hinv.aligned b hmem
  have hregion : ∀ page ∈ blockPages b.ptr b.order, s.base ≤ page ∧
      page < s.endAddr := fun page hpage =>
    hinv.mem_region hmem (holds_of_mem_blockPages haligned hpage)
  obtain ⟨bitmap, hmark, hbitmap⟩ := markFree_eq s.bitmap _
    (fun page hpage => lt_of_mem_region hinv (hregion page hpage).2)
    (nodup_blockPages_div b) fun page hpage =>
      (h.bitmap page (hregion page hpage).1 (hregion page hpage).2).mpr
        ⟨b, hb, holds_of_mem_blockPages haligned hpage⟩
  have hcleared : Inv { s with bitmap := bitmap } s.endAddr lists (b :: live.erase b) :=
    ⟨hinv.base_pos, hinv.base_mod, hinv.stop_le, hinv.end_le, hinv.chain, hinv.aligned,
      hinv.tiles⟩
  have hbits : BitmapExact { s with bitmap := bitmap } (live.erase b) := by
    intro a hlo hhi
    have hold := h.bitmap a hlo hhi
    simp only [hbitmap a (lt_of_mem_region hinv hhi), and_eq_true, not_eq_true',
      decide_eq_false_iff_not, mem_blockPages_div_iff haligned, hold]
    constructor
    · rintro ⟨hnot, c, hc, hca⟩
      have hne : c ≠ b := fun heq => hnot (heq ▸ hca)
      exact ⟨c, (mem_erase_of_ne hne).mpr hc, hca⟩
    · rintro ⟨c, hc, hca⟩
      refine ⟨fun hba => ?_, c, mem_of_mem_erase hc, hca⟩
      have htiles := hinv.tiles.perm perm_append_comm
      exact (disjointOn_cons.mp htiles.disjointOn).1 c (by simp [hc]) a ⟨hba, hca⟩
  obtain ⟨s', ptr', order', lists', hrun, hframe, hinv'⟩ :=
    hcleared.coalesce (maxOrder - b.order) (by have := haligned.2; omega)
  have hframe' := hframe.trans (frame_pushFree s' ptr' order')
  refine ⟨s'.pushFree ptr' order', ?_, ?_⟩
  · have horder := haligned.2
    rw [freeCoalesce, if_neg (by omega), hmark]
    simp only [hrun]
  · have hmanages : Manages region { s with bitmap := bitmap } :=
      ⟨h.manages.base, h.manages.totalPages, h.manages.endAddr⟩
    refine ⟨⟨Function.update lists' order' (ptr' :: lists' order'), ?_⟩,
      hmanages.frame hframe', hbits.frame hframe'⟩
    rw [hframe'.endAddr]
    exact hinv'.push

/-- The order chosen for the next seed block: it fits and is aligned. -/
lemma seedOrder_spec {remaining paddr : ℕ} (hremaining : 1 ≤ remaining)
    (hpaddr : paddr % pageSize = 0) (limit : ℕ) :
    seedOrder remaining paddr limit ≤ limit ∧
      2 ^ seedOrder remaining paddr limit ≤ remaining ∧
      paddr % (2 ^ seedOrder remaining paddr limit * pageSize) = 0 := by
  induction limit with
  | zero => simpa [seedOrder] using ⟨hremaining, hpaddr⟩
  | succ limit ih =>
    unfold seedOrder
    split_ifs with hfit
    · exact ⟨le_rfl, hfit⟩
    · exact ⟨by omega, ih.2⟩

/-- Taking the block behind the tiled part in hand. -/
lemma Inv.extend {s : BuddyAllocator} {lists : ℕ → List ℕ} {held : List Block} {b : Block}
    (h : Inv s b.ptr lists held) (hb : b.Aligned) (hbase : s.base ≤ b.ptr)
    (hfit : b.ptr + b.size ≤ s.base + s.totalPages * pageSize) :
    Inv s (b.ptr + b.size) lists (b :: held) := by
  refine ⟨h.base_pos, h.base_mod, hfit, h.end_le, h.chain, ?_, ?_⟩
  · intro c hc
    simp only [mem_append, mem_cons] at hc
    rcases hc with hc | rfl | hc
    · exact h.aligned c (by simp [hc])
    · exact hb
    · exact h.aligned c (by simp [hc])
  · intro a
    have ha := h.tiles a
    have hmid : (freeBlocks lists ++ b :: held).countP (holds a) =
        (b :: (freeBlocks lists ++ held)).countP (holds a) :=
      perm_middle.countP_eq _
    rw [hmid, countP_cons, ha]
    simp only [holds_iff]
    split_ifs <;> omega

lemma Inv.seed (numPages : ℕ) (fuel : ℕ) {offset : ℕ}
    (h : Inv s (s.base + offset * pageSize) lists []) (hpages : s.totalPages = numPages)
    (hoffset : offset ≤ numPages) (hfuel : numPages ≤ offset + fuel) :
    ∃ lists', Inv (seed numPages s.base fuel offset s)
      (s.base + numPages * pageSize) lists' [] ∧
      Frame s (seed numPages s.base fuel offset s) := by
  induction fuel generalizing s lists offset with
  | zero =>
    obtain rfl : offset = numPages := by omega
    exact ⟨lists, h, Frame.refl s⟩
  | succ fuel ih =>
    unfold seed
    split_ifs with hlt
    · have hmod : (s.base + offset * pageSize) % pageSize = 0 := by
        rw [Nat.add_mul_mod_self_right]
        exact h.base_mod
      obtain ⟨horder, hfit, haligned⟩ := seedOrder_spec (show 1 ≤ numPages - offset by omega)
        hmod maxOrder
      dsimp only
      generalize seedOrder (numPages - offset) (s.base + offset * pageSize)
        maxOrder = order at horder hfit haligned ⊢
      have hext : Inv s (s.base + (offset + 2 ^ order) * pageSize) lists
          [⟨s.base + offset * pageSize, order⟩] := by
        have hsum : s.base + (offset + 2 ^ order) * pageSize =
            s.base + offset * pageSize + 2 ^ order * pageSize := by ring
        rw [hsum]
        refine Inv.extend (b := ⟨s.base + offset * pageSize, order⟩) h ⟨haligned, horder⟩
          (Nat.le_add_right _ _) ?_
        have hle : (offset + 2 ^ order) * pageSize ≤ s.totalPages * pageSize := by
          exact Nat.mul_le_mul_right _ (by omega)
        simp only [size]
        omega
      have hpush := hext.push
      obtain ⟨lists', hinv, hframe⟩ := ih
        hpush hpages (by omega) (by have := Nat.one_le_two_pow (n := order); omega)
      exact ⟨lists', hinv, (frame_pushFree s _ _).trans hframe⟩
    · obtain rfl : offset = numPages := by omega
      exact ⟨lists, h, Frame.refl s⟩

/-- `BuddyAllocator::new` over memory whose region has a clear bitmap. -/
lemma new_good (region : ManagedRegion) (words : ℕ → ℕ) (bitmap : Bitmap)
    (hclear : ∀ a, region.basePaddr ≤ a → a < region.basePaddr + region.len →
      bitmapIsAllocated bitmap a = false) :
    Good region (new region.base region.basePaddr region.len words bitmap) [] := by
  have hlen := Nat.div_mul_le_self region.len pageSize
  have hbelow := region.below
  have hmax : maxBitmapPages * pageSize = 16 * 2 ^ 30 := by decide
  have hempty : Inv
      { freeLists := fun _ => 0
        base := region.basePaddr
        endAddr := region.basePaddr + region.len / pageSize * pageSize
        totalPages := region.len / pageSize
        vaddrOffset := wsub region.base region.basePaddr
        words := words
        bitmap := bitmap } (region.basePaddr + 0 * pageSize) (fun _ => []) [] := by
    refine ⟨region.pos, region.aligned, ?_, ?_, fun _ _ => rfl, ?_, ?_⟩
    · simp
    · dsimp only
      omega
    · simp [freeBlocks]
    · intro a
      rw [if_neg (by dsimp only; omega)]
      simp [freeBlocks]
  obtain ⟨lists, hinv, hframe⟩ := hempty.seed (region.len / pageSize) (region.len / pageSize) rfl
    (Nat.zero_le _) (by omega)
  refine ⟨⟨lists, ?_⟩, Manages.frame ⟨rfl, rfl, rfl⟩ hframe, ?_⟩
  · have hend := hframe.endAddr
    rw [new, hend]
    exact hinv
  · refine BitmapExact.frame ?_ hframe
    intro a hlo hhi
    dsimp only at hlo hhi ⊢
    rw [hclear a hlo (by omega)]
    simp

/-- The allocator of a region and the blocks handed out so far. -/
structure System where
  alloc : BuddyAllocator
  live : List Block

/-- Memory writes by the owners of live blocks and anything outside the region,
together with what other zones do to the bitmap: the words of free pages and the
bits of the region stay. -/
structure Undisturbed (sys : System) (words : ℕ → ℕ) (bitmap : Bitmap) : Prop where
  words_eq : ∀ a, sys.alloc.base ≤ a → a < sys.alloc.endAddr →
    (∀ b ∈ sys.live, b.holds a = false) →
    words (wadd a sys.alloc.vaddrOffset) = sys.alloc.words (wadd a sys.alloc.vaddrOffset)
  bitmap_eq : ∀ a, sys.alloc.base ≤ a → a < sys.alloc.endAddr →
    bitmapIsAllocated bitmap a = bitmapIsAllocated sys.alloc.bitmap a

/-- The states of all runs over a region in which blocks are freed once and with
the order they were allocated with. -/
inductive Run (region : ManagedRegion) : System → Prop
  | new (words : ℕ → ℕ) (bitmap : Bitmap)
      (hclear : ∀ a, region.basePaddr ≤ a → a < region.basePaddr + region.len →
        bitmapIsAllocated bitmap a = false) :
      Run region ⟨BuddyAllocator.new region.base region.basePaddr region.len words bitmap, []⟩
  | alloc {sys : System} (h : Run region sys) (order : ℕ) {r : Option ℕ} {s' : BuddyAllocator}
      (hop : sys.alloc.allocOrder order = some (r, s')) :
      Run region ⟨s', (r.map fun ptr => (⟨ptr, order⟩ : Block)).toList ++ sys.live⟩
  | free {sys : System} (h : Run region sys) {b : Block} (hb : b ∈ sys.live)
      {s' : BuddyAllocator} (hop : sys.alloc.freeCoalesce b.ptr b.order = some s') :
      Run region ⟨s', sys.live.erase b⟩
  | other {sys : System} (h : Run region sys) {words : ℕ → ℕ} {bitmap : Bitmap}
      (hother : Undisturbed sys words bitmap) :
      Run region ⟨{ sys.alloc with words := words, bitmap := bitmap }, sys.live⟩

lemma Good.other {region : ManagedRegion} {sys : System} (h : Good region sys.alloc sys.live)
    {words : ℕ → ℕ} {bitmap : Bitmap} (hother : Undisturbed sys words bitmap) :
    Good region { sys.alloc with words := words, bitmap := bitmap } sys.live := by
  obtain ⟨lists, hinv⟩ := h.inv
  refine ⟨⟨lists, ?_⟩, ⟨h.manages.base, h.manages.totalPages, h.manages.endAddr⟩, ?_⟩
  · refine ⟨hinv.base_pos, hinv.base_mod, hinv.stop_le, hinv.end_le, ?_, hinv.aligned, hinv.tiles⟩
    intro o ho
    refine (hinv.chain o ho).congr fun x hx => ?_
    have hmem := mem_freeBlocks ho hx
    have hregion := hinv.mem_region (mem_append_left _ hmem) (holds_ptr _)
    refine hother.words_eq x hregion.1 hregion.2 fun b hb => ?_
    rw [← not_eq_true]
    intro hbx
    exact (pairwise_append.mp hinv.tiles.disjointOn).2.2 _ hmem b hb x ⟨holds_ptr _, hbx⟩
  · intro a hlo hhi
    simp only [hother.bitmap_eq a hlo hhi]
    exact h.bitmap a hlo hhi

lemma Run.good {sys : System} (h : Run region sys) :
    Good region sys.alloc sys.live := by
  induction h with
  | new words bitmap hclear => exact new_good region words bitmap hclear
  | @alloc sys _ order r s' hop ih =>
    have horder : order ≤ maxOrder := by
      by_contra hlt
      rw [allocOrder, if_pos (by omega)] at hop
      cases hop
    obtain ⟨r', s'', hop', hgood⟩ := allocOrder_good ih horder
    rw [hop] at hop'
    cases hop'
    exact hgood
  | free _ hb hop ih =>
    obtain ⟨s'', hop', hgood⟩ := freeCoalesce_good ih hb
    rw [hop] at hop'
    cases hop'
    exact hgood
  | other _ hother ih => exact ih.other hother

/-- In every state of every run: the free lists end, their blocks are aligned and
lie in the region, no two blocks overlap, free or live, together they cover the
region, and a bit is set exactly for the live pages. Moreover no operation that
the callers may perform next fails an assertion. -/
theorem run_partition {region : ManagedRegion} {sys : System} (h : Run region sys) :
    (∃ lists : ℕ → List ℕ,
      (∀ order ≤ maxOrder,
        Chain 0 sys.alloc.next (sys.alloc.freeLists order) (lists order)) ∧
      (∀ b ∈ freeBlocks lists, b.ptr % b.size = 0 ∧
        region.basePaddr ≤ b.ptr ∧ b.ptr + b.size ≤ region.stop) ∧
      (freeBlocks lists ++ sys.live).Pairwise
        (fun b c => ∀ a, ¬(b.holds a = true ∧ c.holds a = true)) ∧
      (∀ a, (∃ b ∈ freeBlocks lists ++ sys.live, b.holds a = true) ↔
        region.basePaddr ≤ a ∧ a < region.stop) ∧
      ∀ a, region.basePaddr ≤ a → a < region.stop →
        (bitmapIsAllocated sys.alloc.bitmap a = true ↔ ∃ b ∈ sys.live, b.holds a = true)) ∧
    (∀ order ≤ maxOrder, ∃ r, sys.alloc.allocOrder order = some r) ∧
    ∀ b ∈ sys.live, ∃ s', sys.alloc.freeCoalesce b.ptr b.order = some s' := by
  have hgood := h.good
  obtain ⟨lists, hinv⟩ := hgood.inv
  rw [← hgood.manages.base, ← hgood.manages.endAddr]
  refine ⟨⟨lists, hinv.chain, ?_, hinv.tiles.disjointOn, ?_, hgood.bitmap⟩, ?_, ?_⟩
  · intro b hb
    have hmem := mem_append_left sys.live hb
    have hsize := b.size_pos
    have hfirst := hinv.mem_region hmem b.holds_ptr
    have hlast := hinv.mem_region hmem (a := b.ptr + b.size - 1) (by rw [holds_iff]; omega)
    exact ⟨(hinv.aligned b hmem).1, hfirst.1, by omega⟩
  · intro a
    constructor
    · rintro ⟨b, hb, hba⟩
      exact hinv.mem_region hb hba
    · intro ha
      exact hinv.tiles.exists_mem ha
  · intro order horder
    obtain ⟨r, s', hop, -⟩ := allocOrder_good hgood horder
    exact ⟨_, hop⟩
  · intro b hb
    obtain ⟨s', hop, -⟩ := freeCoalesce_good hgood hb
    exact ⟨s', hop⟩

/-- Three pages from `0x1000` on, of which the first allocation takes the first. -/
theorem run_partition_first_page :
    ∃ region sys, Run region sys ∧ sys.live = [⟨0x1000, 0⟩] ∧
      bitmapIsAllocated sys.alloc.bitmap 0x1000 = true := by
  have hnew : Run ⟨0xffff800000001000, 0x1000, 0x3000, by decide, by decide, by decide⟩
      ⟨new 0xffff800000001000 0x1000 0x3000 (fun _ => 0) (fun _ => 0), []⟩ :=
    .new (fun _ => 0) (fun _ => 0) (by
    intro a _ _
    simp [bitmapIsAllocated])
  obtain ⟨⟨r, s'⟩, hop⟩ := (run_partition hnew).2.1 0 (by decide)
  have hfirst : (allocOrder (new 0xffff800000001000 0x1000 0x3000
      (fun _ => 0) fun _ => 0) 0).map Prod.fst = some (some 0x1000) := by decide +kernel
  have hr : r = some 0x1000 := by
    have hmap := congrArg (Option.map Prod.fst) hop
    exact Option.some.inj (hmap.symm.trans hfirst)
  subst hr
  have hrun := hnew.alloc 0 hop
  obtain ⟨lists, -, -, -, -, hbits⟩ := (run_partition hrun).1
  exact ⟨_, _, hrun, rfl, (hbits 0x1000 (by decide) (by decide)).mpr
    ⟨⟨0x1000, 0⟩, by simp, by decide⟩⟩

end Kevlar.Buddy
