import Kevlar.BuddyBlocks
import Kevlar.LinkedChain

/-!
# The partition invariant of the buddy allocator

The invariant is stated with the blocks that are off the lists in `held`: the
live allocations and, inside an operation, the block in hand. Pushing, popping
and unlinking move one block between the lists and `held`; splitting and merging
exchange blocks in `held`. The operations are sequences of these moves.
-/
namespace Kevlar.Buddy
open List BuddyAllocator Block DisjointRegions Function LinkedChain

/-- All blocks of a family of free lists, one list for each order. -/
def freeBlocks (lists : ℕ → List ℕ) : List Block :=
  (List.range (maxOrder + 1)).flatMap fun order => (lists order).map (⟨·, order⟩)

lemma flatMap_update_perm {α β : Type*} {l : List α} (hl : l.Nodup) {o : α} (ho : o ∈ l)
    {f g : α → List β} {x : β} (hfo : (f o).Perm (x :: g o)) (hne : ∀ o' ≠ o, f o' = g o') :
    (l.flatMap f).Perm (x :: l.flatMap g) := by
  induction l with
  | nil => simp at ho
  | cons y l ih =>
    obtain ⟨hy, hl⟩ := nodup_cons.mp hl
    rw [flatMap_cons, flatMap_cons]
    by_cases hyo : y = o
    · subst hyo
      have htail : l.flatMap f = l.flatMap g :=
        flatMap_congr fun z hz => hne z fun hzy => hy (hzy ▸ hz)
      rw [htail]
      exact hfo.append_right _
    · have ho' : o ∈ l := (mem_cons.mp ho).resolve_left (Ne.symm hyo)
      rw [hne y hyo]
      exact ((ih hl ho').append_left _).trans perm_middle

/-- Taking one block off a list takes it out of the free blocks. -/
lemma freeBlocks_perm {lists : ℕ → List ℕ} {order ptr : ℕ} {rest : List ℕ}
    (ho : order ≤ maxOrder) (h : (lists order).Perm (ptr :: rest)) :
    (freeBlocks lists).Perm (⟨ptr, order⟩ :: freeBlocks (update lists order rest)) := by
  have hmem : order ∈ range (maxOrder + 1) := mem_range.mpr (by omega)
  refine flatMap_update_perm nodup_range hmem ?_ ?_
  · rw [update_self]
    exact h.map _
  · intro o' hne
    rw [update_of_ne hne]

lemma mem_freeBlocks {lists : ℕ → List ℕ} {order ptr : ℕ} (ho : order ≤ maxOrder)
    (h : ptr ∈ lists order) : ⟨ptr, order⟩ ∈ freeBlocks lists :=
  mem_flatMap.mpr ⟨order, mem_range.mpr (by omega), mem_map.mpr ⟨ptr, h, rfl⟩⟩

/-- The free lists are chains through memory, all blocks are aligned, and the
listed and held blocks tile the addresses from the base up to `stop`. -/
structure Inv (s : BuddyAllocator) (stop : ℕ) (lists : ℕ → List ℕ) (held : List Block) :
    Prop where
  base_pos : 0 < s.base
  base_mod : s.base % pageSize = 0
  stop_le : stop ≤ s.base + s.totalPages * pageSize
  end_le : s.base + s.totalPages * pageSize ≤ maxBitmapPages * pageSize
  chain : ∀ order ≤ maxOrder, Chain 0 s.next (s.freeLists order) (lists order)
  aligned : ∀ b ∈ freeBlocks lists ++ held, b.Aligned
  tiles : Tiles Block.holds (fun a => s.base ≤ a ∧ a < stop) (freeBlocks lists ++ held)

namespace Inv

variable {s : BuddyAllocator} {stop : ℕ} {lists : ℕ → List ℕ} {held : List Block}

section

variable (h : Inv s stop lists held)
include h

lemma mem_region {b : Block} (hb : b ∈ freeBlocks lists ++ held) {a : ℕ} (ha : b.holds a = true) :
    s.base ≤ a ∧ a < stop :=
  h.tiles.inside_of_mem hb ha

lemma ptr_lt {b : Block} (hb : b ∈ freeBlocks lists ++ held) : b.ptr < 2 ^ 64 := by
  have hregion := h.mem_region hb b.holds_ptr
  have hstop := h.stop_le
  have hend := h.end_le
  have hmax : maxBitmapPages * pageSize < 2 ^ 64 := by decide
  omega

lemma nodup_ptr : ((freeBlocks lists ++ held).map ptr).Nodup := by
  refine pairwise_map.mpr (List.Pairwise.imp ?_ h.tiles.disjointOn)
  intro b c hbc hptr
  refine hbc b.ptr ⟨b.holds_ptr, ?_⟩
  rw [hptr]
  exact c.holds_ptr

lemma nodup_list {order : ℕ} (ho : order ≤ maxOrder) : (lists order).Nodup := by
  have hnodup := h.nodup_ptr
  rw [map_append, freeBlocks, map_flatMap] at hnodup
  have hfree := (nodup_append.mp hnodup).1
  have hlist := (nodup_flatMap.mp hfree).1 order (mem_range.mpr (by omega))
  simpa [comp_def] using hlist

/-- The lists of different orders share no block. -/
lemma notMem_of_ne {o o' : ℕ} (ho : o ≤ maxOrder) (ho' : o' ≤ maxOrder) (hne : o ≠ o') {x : ℕ}
    (hx : x ∈ lists o) : x ∉ lists o' := by
  intro hx'
  have hb := mem_append_left held (mem_freeBlocks ho hx)
  have hb' := mem_append_left held (mem_freeBlocks ho' hx')
  have heq := h.tiles.eq_of_mem hb hb' (holds_ptr _) (holds_ptr ⟨x, o'⟩)
  exact hne (congrArg order heq)

end

/-- A held block is on no list. -/
lemma notMem_of_held {b : Block} (h : Inv s stop lists (b :: held)) {order : ℕ}
    (ho : order ≤ maxOrder) : b.ptr ∉ lists order := by
  intro hx
  have hnodup := h.nodup_ptr
  rw [map_append, map_cons] at hnodup
  exact (nodup_append.mp hnodup).2.2 b.ptr
    (mem_map.mpr ⟨_, mem_freeBlocks ho hx, rfl⟩) b.ptr (by simp) rfl

/-- The length of a list is bounded by the number of pages. -/
lemma length_list_le (h : Inv s stop lists held) {order : ℕ} (ho : order ≤ maxOrder) :
    (lists order).length ≤ s.totalPages := by
  have hpage : ∀ x ∈ lists order, s.base ≤ x ∧ x < s.base + s.totalPages * pageSize ∧
      x % pageSize = 0 := by
    intro x hx
    have hb := mem_append_left held (mem_freeBlocks ho hx)
    have hregion := h.mem_region hb (holds_ptr _)
    have hstop := h.stop_le
    exact ⟨hregion.1, by simp only at hregion; omega, (h.aligned _ hb).ptr_mod⟩
  have hbase := h.base_mod
  have hnodup : ((lists order).map fun x => (x - s.base) / pageSize).Nodup := by
    refine List.Nodup.map_on ?_ (h.nodup_list ho)
    intro x hx y hy hxy
    have hx' := hpage x hx
    have hy' := hpage y hy
    simp only [pageSize] at hx' hy' hxy hbase
    omega
  have hsub : ((lists order).map fun x => (x - s.base) / pageSize) ⊆ range s.totalPages := by
    intro i hi
    obtain ⟨x, hx, rfl⟩ := mem_map.mp hi
    have hx' := hpage x hx
    rw [mem_range, Nat.div_lt_iff_lt_mul (by decide)]
    omega
  simpa using (subperm_of_subset hnodup hsub).length_le

end Inv

/-- The parts of the allocator that list operations leave alone. -/
structure Frame (s s' : BuddyAllocator) : Prop where
  base : s'.base = s.base
  endAddr : s'.endAddr = s.endAddr
  totalPages : s'.totalPages = s.totalPages
  bitmap : s'.bitmap = s.bitmap

lemma Frame.refl (s : BuddyAllocator) : Frame s s := ⟨rfl, rfl, rfl, rfl⟩

lemma Frame.trans {s s' s'' : BuddyAllocator} (h : Frame s s') (h' : Frame s' s'') :
    Frame s s'' :=
  ⟨h'.base.trans h.base, h'.endAddr.trans h.endAddr, h'.totalPages.trans h.totalPages,
    h'.bitmap.trans h.bitmap⟩

lemma frame_pushFree (s : BuddyAllocator) (paddr order : ℕ) : Frame s (s.pushFree paddr order) :=
  ⟨rfl, rfl, rfl, rfl⟩

lemma frame_popFree (s : BuddyAllocator) (order : ℕ) : Frame s (s.popFree order).2 :=
  ⟨rfl, rfl, rfl, rfl⟩

section Stores

variable {s : BuddyAllocator} {p x link : ℕ}

/-- A store into one block changes no other block's link. -/
lemma next_setNext (hp : p < 2 ^ 64) (hx : x < 2 ^ 64) :
    (s.setNext p link).next x = if x = p then link else s.next x := by
  simp only [BuddyAllocator.next, BuddyAllocator.setNext]
  by_cases hxp : x = p
  · rw [if_pos hxp, hxp, update_self]
  · rw [if_neg hxp, update_of_ne]
    simp only [wadd]
    omega

@[simp] lemma next_setHead (order head : ℕ) : (s.setHead order head).next x = s.next x := rfl

@[simp] lemma freeLists_setNext : (s.setNext p link).freeLists = s.freeLists := by
  rw [setNext]

@[simp] lemma freeLists_setHead (order head : ℕ) :
    (s.setHead order head).freeLists = update s.freeLists order head := by
  rw [setHead]

end Stores

namespace Inv

variable {s : BuddyAllocator} {stop : ℕ} {lists : ℕ → List ℕ} {held : List Block}

/-- The invariant reads the held blocks as a set of positions. -/
lemma perm_held {held' : List Block} (h : Inv s stop lists held) (hp : held.Perm held') :
    Inv s stop lists held' where
  base_pos := h.base_pos
  base_mod := h.base_mod
  stop_le := h.stop_le
  end_le := h.end_le
  chain := h.chain
  aligned := fun b hb => h.aligned b ((hp.append_left (freeBlocks lists)).mem_iff.mpr hb)
  tiles := h.tiles.perm (hp.append_left (freeBlocks lists))

lemma push {b : Block} (h : Inv s stop lists (b :: held)) :
    Inv (s.pushFree b.ptr b.order) stop
      (update lists b.order (b.ptr :: lists b.order)) held := by
  have hb : b ∈ freeBlocks lists ++ b :: held := by simp
  have horder : b.order ≤ maxOrder := (h.aligned b hb).2
  have hperm : (freeBlocks lists ++ b :: held).Perm
      (freeBlocks (update lists b.order (b.ptr :: lists b.order)) ++ held) := by
    have hlist : (update lists b.order (b.ptr :: lists b.order) b.order).Perm
        (b.ptr :: lists b.order) := by rw [update_self]
    have hfree := freeBlocks_perm horder hlist
    rw [update_idem, update_eq_self] at hfree
    exact perm_middle.trans (hfree.symm.append_right held)
  refine ⟨h.base_pos, h.base_mod, h.stop_le, h.end_le, ?_, ?_, h.tiles.perm hperm⟩
  · have hlt := h.ptr_lt hb
    have hptr : b.ptr ≠ 0 := by
      have hregion := h.mem_region hb b.holds_ptr
      have hpos := h.base_pos
      omega
    have hnext : ∀ o ≤ maxOrder, ∀ y ∈ lists o,
        (s.pushFree b.ptr b.order).next y = s.next y := by
      intro o ho y hy
      have hy' := h.ptr_lt (mem_append_left _ (mem_freeBlocks ho hy))
      have hne : y ≠ b.ptr := fun heq => h.notMem_of_held ho (heq ▸ hy)
      rw [pushFree, next_setHead, next_setNext hlt hy', if_neg hne]
    intro o ho
    have hchain := h.chain o ho
    simp only [pushFree, freeLists_setHead, freeLists_setNext]
    by_cases hob : o = b.order
    · subst hob
      rw [update_self, update_self]
      refine hchain.push hptr ?_ (hnext _ ho)
      rw [next_setHead, next_setNext hlt hlt, if_pos rfl]
    · rw [update_of_ne hob, update_of_ne hob]
      exact hchain.congr (hnext o ho)
  · intro c hc
    exact h.aligned c (hperm.mem_iff.mpr hc)

/-- Taking a block off its list, given how the lists look in memory afterwards. -/
lemma takeOff (h : Inv s stop lists held) {s' : BuddyAllocator} {order ptr : ℕ}
    {rest : List ℕ} (ho : order ≤ maxOrder) (hperm : (lists order).Perm (ptr :: rest))
    (hframe : Frame s s')
    (hchain : ∀ o ≤ maxOrder,
      Chain 0 s'.next (s'.freeLists o) (update lists order rest o)) :
    Inv s' stop (update lists order rest) (⟨ptr, order⟩ :: held) := by
  have hfree := ((freeBlocks_perm ho hperm).append_right held).trans perm_middle.symm
  refine ⟨?_, ?_, ?_, ?_, hchain, ?_, ?_⟩
  · rw [hframe.base]
    exact h.base_pos
  · rw [hframe.base]
    exact h.base_mod
  · rw [hframe.base, hframe.totalPages]
    exact h.stop_le
  · rw [hframe.base, hframe.totalPages]
    exact h.end_le
  · intro b hb
    exact h.aligned b (hfree.mem_iff.mpr hb)
  · rw [hframe.base]
    exact h.tiles.perm hfree

lemma pop (h : Inv s stop lists held) {order : ℕ} (ho : order ≤ maxOrder)
    (hne : s.freeLists order ≠ 0) :
    ∃ rest, Inv (s.popFree order).2 stop (update lists order rest)
      (⟨(s.popFree order).1, order⟩ :: held) := by
  obtain ⟨rest, hlist, hrest⟩ := (h.chain order ho).pop hne
  refine ⟨rest, h.takeOff ho (by rw [hlist]; rfl) (frame_popFree s order) ?_⟩
  intro o ho'
  simp only [popFree, freeLists_setHead]
  by_cases hoo : o = order
  · subst hoo
    rw [update_self, update_self]
    exact hrest
  · rw [update_of_ne hoo, update_of_ne hoo]
    exact h.chain o ho'

/-- Exchanging held blocks for aligned ones that hold the same addresses. -/
lemma exchange (mid mid' : List Block) (h : Inv s stop lists (mid ++ held))
    (haligned : ∀ b ∈ mid', b.Aligned)
    (hmid : ∀ a, mid.countP (holds a) = mid'.countP (holds a)) :
    Inv s stop lists (mid' ++ held) := by
  refine ⟨h.base_pos, h.base_mod, h.stop_le, h.end_le, h.chain, ?_, h.tiles.exchange mid' hmid⟩
  intro b hb
  simp only [mem_append] at hb
  rcases hb with hb | hb | hb
  · exact h.aligned b (by simp [hb])
  · exact haligned b hb
  · exact h.aligned b (by simp [hb])

lemma split {ptr order : ℕ} (h : Inv s stop lists (⟨ptr, order + 1⟩ :: held)) :
    Inv s stop lists (⟨ptr + 2 ^ order * pageSize, order⟩ :: ⟨ptr, order⟩ :: held) := by
  have hb : (⟨ptr, order + 1⟩ : Block).Aligned := h.aligned _ (by simp)
  have hhalves := exchange [⟨ptr, order + 1⟩] [⟨ptr, order⟩, ⟨ptr + 2 ^ order * pageSize, order⟩] h
    (by simp [hb.lower, hb.upper]) (fun a => countP_halves a ptr order)
  exact hhalves.perm_held (List.Perm.swap _ _ _)

lemma merge {ptr order buddy : ℕ} (h : Inv s stop lists (⟨buddy, order⟩ :: ⟨ptr, order⟩ :: held))
    (horder : order < maxOrder) (hbuddy : buddy = ptr ^^^ (2 ^ order * pageSize)) :
    Inv s stop lists (⟨if ptr < buddy then ptr else buddy, order + 1⟩ :: held) := by
  obtain ⟨haligned, hcount⟩ := merge_buddy (h.aligned ⟨ptr, order⟩ (by simp)) horder hbuddy
  exact exchange [⟨ptr, order⟩, ⟨buddy, order⟩] [_]
    (h.perm_held (List.Perm.swap _ _ _)) (by simp [haligned]) hcount

/-- Splitting a held block down to `target` leaves its lowest part in hand. -/
lemma splitDown {block target : ℕ} (order : ℕ) (htarget : target ≤ order)
    (h : Inv s stop lists (⟨block, order⟩ :: held)) :
    ∃ lists', Inv (splitDown block target order s) stop lists'
      (⟨block, target⟩ :: held) ∧ Frame s (splitDown block target order s) := by
  induction order generalizing s lists with
  | zero =>
    obtain rfl : target = 0 := by omega
    exact ⟨lists, h, Frame.refl s⟩
  | succ order ih =>
    unfold splitDown
    split_ifs with hlt
    · obtain ⟨lists', hinv, hframe⟩ := ih (by omega) h.split.push
      exact ⟨lists', hinv, (frame_pushFree s _ _).trans hframe⟩
    · obtain rfl : target = order + 1 := by omega
      exact ⟨lists, h, Frame.refl s⟩

end Inv

/-- The store that takes the node behind `prev`, or the first node, off a list. -/
def bypass (s : BuddyAllocator) (order : ℕ) (prev : Option ℕ) (link : ℕ) : BuddyAllocator :=
  match prev with
  | some prev => s.setNext prev link
  | none => s.setHead order link

/-- The walk finds a listed target behind the nodes it has passed, and reports an
unlisted one. -/
lemma unlinkFrom_eq (s : BuddyAllocator) (target order : ℕ) (suf : List ℕ) (pre : List ℕ)
    (current fuel : ℕ) (hsuf : Chain 0 s.next current suf) (hfuel : suf.length < fuel) :
    (target ∉ suf ∧
      unlinkFrom s target order fuel pre.getLast? current = some (false, s)) ∨
    (∃ mid post, suf = mid ++ target :: post ∧
      unlinkFrom s target order fuel pre.getLast? current =
        some (true, bypass s order (pre ++ mid).getLast? (s.next target))) := by
  induction suf generalizing pre current fuel with
  | nil =>
    obtain ⟨fuel, rfl⟩ : ∃ k, fuel = k + 1 := ⟨fuel - 1, by simp at hfuel; omega⟩
    left
    rw [show current = 0 from hsuf]
    simp [unlinkFrom]
  | cons x suf ih =>
    obtain ⟨fuel, rfl⟩ : ∃ k, fuel = k + 1 := ⟨fuel - 1, by simp at hfuel; omega⟩
    obtain ⟨rfl, hne, htail⟩ := hsuf
    simp only [unlinkFrom, if_neg hne]
    by_cases hx : current = target
    · subst hx
      refine .inr ⟨[], suf, rfl, ?_⟩
      simp only [if_true, append_nil]
      cases pre.getLast? <;> rfl
    · rw [if_neg hx]
      have hlast : some current = (pre ++ [current]).getLast? := by simp
      rw [hlast]
      rcases ih (pre ++ [current]) _ fuel htail (by simp at hfuel; omega) with
        ⟨hmem, heq⟩ | ⟨mid, post, rfl, heq⟩
      · exact .inl ⟨by simp [hmem, Ne.symm hx], heq⟩
      · refine .inr ⟨current :: mid, post, rfl, ?_⟩
        rw [heq, append_assoc]
        rfl

namespace Inv

variable {s : BuddyAllocator} {stop : ℕ} {lists : ℕ → List ℕ} {held : List Block}

/-- `remove_from_free_list` ends, and a block it finds is in hand afterwards. -/
lemma removeFromFreeList (h : Inv s stop lists held) {order : ℕ} (ho : order ≤ maxOrder)
    (target : ℕ) :
    s.removeFromFreeList target order = some (false, s) ∨
    ∃ s' rest, s.removeFromFreeList target order = some (true, s') ∧ Frame s s' ∧
      Inv s' stop (update lists order rest) (⟨target, order⟩ :: held) := by
  have hchain := h.chain order ho
  have hlen := h.length_list_le ho
  rcases unlinkFrom_eq s target order (lists order) [] (s.freeLists order) (s.totalPages + 1)
    hchain (by omega) with ⟨-, heq⟩ | ⟨mid, post, hlist, heq⟩
  · exact .inl heq
  right
  refine ⟨_, mid ++ post, heq, ?_⟩
  rw [nil_append]
  have hperm : (lists order).Perm (target :: (mid ++ post)) := by
    rw [hlist]
    exact perm_middle
  have hmem : ∀ y ∈ lists order, y < 2 ^ 64 := fun y hy =>
    h.ptr_lt (mem_append_left held (mem_freeBlocks ho hy))
  have hnodup := h.nodup_list ho
  rcases eq_nil_or_concat' mid with rfl | ⟨pre, prev, rfl⟩
  · refine ⟨⟨rfl, rfl, rfl, rfl⟩, h.takeOff ho hperm ⟨rfl, rfl, rfl, rfl⟩ ?_⟩
    intro o ho'
    simp only [bypass, getLast?_nil, freeLists_setHead, nil_append]
    by_cases hoo : o = order
    · subst hoo
      rw [update_self, update_self]
      rw [hlist] at hchain
      exact hchain.2.2
    · rw [update_of_ne hoo, update_of_ne hoo]
      exact h.chain o ho'
  · have hprev : prev ∈ lists order := by
      rw [hlist]
      simp
    rw [getLast?_concat]
    refine ⟨⟨rfl, rfl, rfl, rfl⟩, h.takeOff ho hperm ⟨rfl, rfl, rfl, rfl⟩ ?_⟩
    intro o ho'
    simp only [bypass, freeLists_setNext]
    by_cases hoo : o = order
    · subst hoo
      rw [update_self]
      rw [hlist] at hchain hnodup hmem
      simp only [append_assoc, singleton_append] at hchain hnodup hmem ⊢
      have hother : ∀ y, y ∈ pre ∨ y ∈ post →
          (s.setNext prev (s.next target)).next y = s.next y := by
        intro y hy
        rw [next_setNext (hmem prev (by simp)) (hmem y (by simp; tauto)), if_neg]
        rintro rfl
        grind
      refine hchain.unlink ?_ (fun y hy => hother y (.inl hy)) (fun y hy => hother y (.inr hy))
      rw [next_setNext (hmem prev (by simp)) (hmem prev (by simp)), if_pos rfl]
    · rw [update_of_ne hoo]
      refine (h.chain o ho').congr fun y hy => ?_
      have hy' := h.ptr_lt (mem_append_left held (mem_freeBlocks ho' hy))
      rw [next_setNext (hmem prev hprev) hy', if_neg]
      rintro rfl
      exact h.notMem_of_ne ho ho' (Ne.symm hoo) hprev hy

end Inv
end Kevlar.Buddy
