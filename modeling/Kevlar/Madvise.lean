import Kevlar.FaultWritable
import Kevlar.Munmap

/-!
# `madvise` with MADV_DONTNEED

The call unmaps its range page by page, so that the next access to an anonymous page
faults in a zeroed one. `unmap_user_page` finds nothing below a 2 MB leaf, and its walk
takes the low 48 bits of an address. A page is read through its translation, or else by the
fault handler, which runs alone on the state of the call.
-/
namespace Kevlar
open Function List Concurrent

/-- The pages whose entries the loop clears; the address 0 is skipped. -/
def dontneedPages (addr len : ℕ) : List ℕ :=
  ((cursors addr (wadd addr (alignUp len pageSize))).filter (· ≠ 0)).map (· / pageSize % 2 ^ 36)

namespace Space

def unmapPages (s : Space) (pages : List ℕ) : Space :=
  pages.foldl (fun s page => (s.unmapUserPage page).2) s

/-- The leaf entry for a page, present or not, with the frame of the page. -/
def leafEntry (s : Space) (page : ℕ) : Option Entry :=
  match s (page / 512) with
  | .table pt => some (pt (page % 512))
  | .huge e => some ⟨e.frame + page % 512, e.attrs⟩
  | .empty => none

/-- Nothing is mapped at the page: there is no table, or the entry is zero. -/
def Vacant (s : Space) (page : ℕ) : Prop := s (page / 512) = .empty ∨ s.HasPte page 0

end Space

/-- `sys_madvise`, which always returns `Ok(0)`. -/
def sysMadvise (st : MunmapState) (addr len : ℕ) (advice : ℤ) : MunmapState :=
  if advice = 4 then
    if !isAligned addr pageSize || len = 0 then st
    else { st with space := st.space.unmapPages (dontneedPages addr len) }
  else st

namespace MunmapState

/-- The frames are filled with zeros. -/
def zero (st : MunmapState) (frames : List Frame) : MunmapState :=
  { st with pages := fun f => if f ∈ frames then fun _ => 0 else st.pages f }

/-- The operations of a fault handler that runs alone. The allocator clears what it gives out;
other answers about frames may be anything. -/
def faultSem (st : MunmapState) : (o : MmOp) → o.Ans → MunmapState → Prop
  | .allocPage, x, st' => st' = st.zero (Option.toList x)
  | .allocHugePage, x, st' => st' = st.zero ((Option.toList x).flatMap (range' · 512))
  | .allocPageBatch _, x, st' => st' = st.zero x
  | .readFile .., _, st' => ∃ pages, st' = { st with pages := pages }
  | .findVmaCached vaddr, x, st' => st' = { st with vm := (st.vm.findVmaCached vaddr).2 } ∧
      x = (st.vm.findVmaCached vaddr).1
  | .tryGrowStack vaddr, x, st' => ∃ vm, st.vm.tryGrowStack vaddr = some (x, vm) ∧
      st' = { st with vm := vm }
  | .isGhostForked, x, st' => x = st.vm.isGhostForked ∧ st' = st
  | .table o, x, st' => ∃ words space, o.run words st.space = some (x, space) ∧
      st' = { st with space := space }
  | .kernelPanic, _, _ => False
  | _, _, st' => st' = st

/-- The page is translated to a frame of zeros. -/
def Zeroed (page : ℕ) (st : MunmapState) : Prop :=
  ∃ e, st.space.translate page = some e ∧ ∀ i, st.pages e.frame i = 0

/-- Every run of the program goes on to its end, which meets the condition. -/
abbrev Ends {α : Type} (p : FaultProg α) (Q : α → MunmapState → Prop) (st : MunmapState) : Prop :=
  wpAlways faultSem (fun st o => ∃ x st', faultSem st o x st') p Q st

/-- The handler has mapped a frame of zeros, unless there is no memory. -/
def Refilled (page : ℕ) (out : FaultOutcome) (st : MunmapState) : Prop :=
  out = .killed ∨ out = .returned ∧ st.Zeroed page

/-- A read of the page finds zeros, by its translation or by that of the fault handler. -/
def ReadsZero (files : FileId → FileInfo) (st : MunmapState) (page : ℕ) : Prop :=
  if (st.space.translate page).isSome then st.Zeroed page
  else Ends (Fault.handlePageFault files (some (page * pageSize)) ⟨false, false⟩)
    (Refilled page) st

/-- The area that a fault on the page finds is private and anonymous and can be accessed. -/
def PrivateAnonymous (st : MunmapState) (page : ℕ) : Prop :=
  ∃ v, (st.vm.findVmaCached (page * pageSize)).1 = some v ∧ v.areaType = .anonymous ∧
    v.isShared = false ∧ v.prot ≠ .none

/-- What MADV_DONTNEED promises for a page. -/
def Discards (files : FileId → FileInfo) (st st' : MunmapState) (addr len page : ℕ) : Prop :=
  if addr ≤ page * pageSize ∧ page * pageSize < addr + alignUp len pageSize then
    st.PrivateAnonymous page → st'.ReadsZero files page
  else st'.space.leafEntry page = st.space.leafEntry page ∧
    ∀ e, st.space.leafEntry page = some e → st'.pages e.frame = st.pages e.frame

end MunmapState

/-! ## Unmapping -/

namespace Space

lemma unmapUserPage_at (s : Space) (q page : ℕ) :
    (s.unmapUserPage q).2.isHugeMapped page = s.isHugeMapped page ∧
      (s.unmapUserPage q).2.leafEntry page =
        if page = q ∧ s.isHugeMapped page = none then
          (s.leafEntry page).map fun e => if e.frame = 0 then e else 0
        else s.leafEntry page := by
  unfold unmapUserPage
  split
  · rename_i pt hs
    by_cases h0 : (pt (q % 512)).frame = 0
    · rw [if_pos h0]
      refine ⟨rfl, ?_⟩
      split_ifs with h
      · simp [leafEntry, h.1, hs, h0]
      · rfl
    · rw [if_neg h0]
      by_cases hr : page / 512 = q / 512
      · have hpage : page = q ↔ page % 512 = q % 512 := by omega
        by_cases hj : page % 512 = q % 512 <;>
          simp [isHugeMapped, leafEntry, setPte, PdeView.hugeEntry, hr, hs, hpage, hj, h0]
      · have hpage : page ≠ q := fun h => hr (h ▸ rfl)
        simp [isHugeMapped, leafEntry, setPte, hr, hpage]
  · rename_i hs
    refine ⟨rfl, ?_⟩
    split_ifs with h
    · obtain ⟨rfl, hnone⟩ := h
      cases hpde : s (page / 512) with
      | table pt => exact absurd hpde (hs pt)
      | huge e => simp [isHugeMapped, hpde, PdeView.hugeEntry] at hnone
      | empty => simp [leafEntry, hpde]
    · rfl

/-- The loop clears the 4 KB entries of its pages and no others. -/
lemma unmapPages_at (s : Space) (pages : List ℕ) (page : ℕ) :
    (s.unmapPages pages).isHugeMapped page = s.isHugeMapped page ∧
      (s.unmapPages pages).leafEntry page =
        if page ∈ pages ∧ s.isHugeMapped page = none then
          (s.leafEntry page).map fun e => if e.frame = 0 then e else 0
        else s.leafEntry page := by
  induction pages generalizing s with
  | nil => exact ⟨rfl, by simp [unmapPages]⟩
  | cons q pages ih =>
    obtain ⟨hhuge, hleaf⟩ := s.unmapUserPage_at q page
    obtain ⟨hhuge', hleaf'⟩ := ih (s.unmapUserPage q).2
    refine ⟨hhuge'.trans hhuge, hleaf'.trans ?_⟩
    rw [hhuge, hleaf]
    by_cases hn : s.isHugeMapped page = none
    · by_cases hq : page = q
      · have hagain : ∀ e : Entry, (if (if e.frame = 0 then e else 0).frame = 0 then
            (if e.frame = 0 then e else 0) else 0) = if e.frame = 0 then e else 0 := by
          intro e
          by_cases h0 : e.frame = 0 <;> simp [h0]
        subst hq
        simp [hn, Function.comp_def, hagain]
      · simp [hn, hq]
    · simp [hn]

variable {s : Space} {page : ℕ}

lemma vacant_of_leafEntry (hhuge : s.isHugeMapped page = none)
    (h : ∀ e, s.leafEntry page = some e → e = 0) : s.Vacant page := by
  cases hr : s (page / 512) with
  | empty => exact .inl hr
  | huge e => simp [isHugeMapped, hr, PdeView.hugeEntry] at hhuge
  | table pt => exact .inr ⟨pt, hr, h _ (by simp [leafEntry, hr])⟩

namespace Vacant

lemma translate (h : s.Vacant page) : s.translate page = none := by
  obtain h | h := h
  · exact translate_of_empty h
  · exact h.translate

lemma isHugeMapped (h : s.Vacant page) : s.isHugeMapped page = none := by
  obtain h | ⟨pt, h, -⟩ := h <;> simp [Space.isHugeMapped, h, PdeView.hugeEntry]

lemma tryMap (h : s.Vacant page) (paddr : Frame) (prot : MMapProt) :
    (s.tryMapUserPageWithProt page paddr prot).1 = true := by
  obtain h | ⟨pt, h, hz⟩ := h
  · simp [tryMapUserPageWithProt, touch, h, PdeView.touched]
  · simp [tryMapUserPageWithProt, touch, h, PdeView.touched, hz]

end Vacant

lemma vacant_unmapPages {pages : List ℕ} (hs : s.LeavesOk) (hhuge : s.isHugeMapped page = none)
    (h : page ∈ pages) : (s.unmapPages pages).Vacant page := by
  obtain ⟨hhuge', hleaf⟩ := s.unmapPages_at pages page
  refine vacant_of_leafEntry (hhuge'.trans hhuge) fun e he => ?_
  rw [hleaf, if_pos ⟨h, hhuge⟩, Option.map_eq_some_iff] at he
  obtain ⟨e', he', rfl⟩ := he
  split_ifs with h0
  · unfold leafEntry at he'
    split at he'
    · next pt hr =>
      cases he'
      exact hs.pte _ _ _ hr h0
    · next e'' hr => simp [isHugeMapped, hr, PdeView.hugeEntry] at hhuge
    · cases he'
  · rfl

end Space

namespace Vm

lemma mem_of_findVmaCached {vm : Vm} {vaddr : ℕ} {v : VmArea}
    (h : (vm.findVmaCached vaddr).1 = some v) : v ∈ vm.vmAreas ∧ v.contains vaddr = true := by
  unfold findVmaCached at h
  split at h
  · next vma hlast =>
    cases h
    obtain ⟨hlast, hcontains⟩ := Option.filter_eq_some_iff.mp hlast
    obtain ⟨i, -, hi⟩ := Option.bind_eq_some_iff.mp hlast
    exact ⟨mem_of_getElem? hi, hcontains⟩
  · obtain ⟨i, hfind, hi⟩ := Option.bind_eq_some_iff.mp h
    obtain ⟨hlt, hcontains, -⟩ := findIdx?_eq_some_iff_getElem.mp hfind
    rw [getElem?_eq_getElem hlt] at hi
    cases hi
    exact ⟨getElem_mem hlt, hcontains⟩

end Vm

/-! ## The fault of a read -/

namespace MunmapState

section Fault

variable {β : Type} {st : MunmapState} {page aligned : ℕ} {v : VmArea} {paddr : Frame}
  {reason : FaultReason} {Q : Unit → MunmapState → Prop}

lemma ends_op {o : MmOp} {k : o.Ans → FaultProg β} {R : β → MunmapState → Prop}
    (hgo : ∃ x st', faultSem st o x st') (h : ∀ x st', faultSem st o x st' → Ends (k x) R st') :
    Ends (Fault.op o >>= k) R st :=
  ⟨hgo, h⟩

/-- An operation that leaves the state. -/
lemma ends_same {o : MmOp} {k : o.Ans → FaultProg β} {R : β → MunmapState → Prop}
    (ho : ∀ x st', faultSem st o x st' ↔ st' = st) (x₀ : o.Ans) (h : ∀ x, Ends (k x) R st) :
    Ends (Fault.op o >>= k) R st := by
  refine ends_op ⟨x₀, st, (ho x₀ st).mpr rfl⟩ fun x st' hx => ?_
  rw [(ho x st').mp hx]
  exact h x

lemma ends_table {o : TableOp} {k : o.Ans → FaultProg β} {R : β → MunmapState → Prop}
    (hgo : ∃ words x space, o.run words st.space = some (x, space))
    (h : ∀ words x space, o.run words st.space = some (x, space) →
      Ends (k x) R { st with space := space }) :
    Ends (Fault.op (.table o) >>= k) R st := by
  obtain ⟨words, x, space, hrun⟩ := hgo
  refine ends_op ⟨x, _, words, space, hrun, rfl⟩ ?_
  rintro x _ ⟨words, space, hrun, rfl⟩
  exact h words x space hrun

lemma ends_finish (h : st.Zeroed page) :
    Ends (Fault.finish .returned) (Refilled page) st :=
  ends_same (fun _ _ => Iff.rfl) () fun _ => .inr ⟨rfl, h⟩

lemma ends_pageRefInitAll (pages : List Frame) (h : Q () st) :
    Ends (Fault.pageRefInitAll pages) Q st := by
  induction pages with
  | nil => exact h
  | cons f fs ih => exact ends_same (fun _ _ => Iff.rfl) () fun _ => ih

lemma ends_freeUnmapped (mapped : List ℕ) (pages : List Frame) (h : Q () st) :
    ∀ i, Ends (Fault.freeUnmapped mapped i pages) Q st := by
  induction pages with
  | nil => exact fun _ => h
  | cons f fs ih =>
    intro i
    unfold Fault.freeUnmapped
    split
    · exact ih (i + 1)
    · refine ends_same (fun _ _ => Iff.rfl) true fun last => ?_
      cases last with
      | true => exact ends_same (fun _ _ => Iff.rfl) () fun _ => ih (i + 1)
      | false => exact ih (i + 1)

/-- What the allocator clears stays cleared. -/
lemma pages_zero (frames : List Frame) {f : Frame} (h : ∀ i, st.pages f i = 0) (i : ℕ) :
    (st.zero frames).pages f i = 0 := by
  unfold zero
  dsimp only
  split_ifs
  · rfl
  · exact h i

lemma ends_faultAround {e : Entry} (hpte : st.space.HasPte (aligned / pageSize) e)
    (hpresent : e.attrs.present = true) (hzero : ∀ i, st.pages e.frame i = 0) :
    Ends (Fault.faultAround v aligned) (Refilled (aligned / pageSize)) st := by
  have hend : ∀ st' : MunmapState, st'.space.HasPte (aligned / pageSize) e →
      (∀ i, st'.pages e.frame i = 0) → st'.Zeroed (aligned / pageSize) := fun st' hpte hzero =>
    ⟨e, by rw [hpte.translate, if_pos hpresent], hzero⟩
  unfold Fault.faultAround
  split
  · refine ends_op ⟨[], _, rfl⟩ ?_
    rintro pages _ rfl
    refine wpAlways_bind (ends_pageRefInitAll pages ?_)
    refine ends_table ⟨fun _ _ => 0, _, _, rfl⟩ fun words mapped space hrun => ?_
    obtain rfl := congrArg Prod.snd (Option.some.inj hrun)
    refine wpAlways_bind (ends_freeUnmapped _ pages (ends_finish (hend _ ?_ ?_)) 0)
    · exact hpte.batchFrom pages (Nat.lt_succ_self _)
    · exact pages_zero pages hzero
  · exact ends_finish (hend st hpte hzero)

lemma ends_mapDemandPage (hvacant : st.space.Vacant (aligned / pageSize))
    (hzero : ∀ i, st.pages paddr i = 0) :
    Ends (Fault.mapDemandPage v aligned reason ⟨paddr, none, false, false⟩)
      (Refilled (aligned / pageSize)) st := by
  refine wpAlways_bind (ends_table ⟨fun _ _ => 0, _, _, rfl⟩ fun _ huge space hrun => ?_)
  cases hrun
  rw [hvacant.isHugeMapped, if_neg (by simp)]
  refine ends_table ⟨fun _ _ => 0, _, _, rfl⟩ fun _ mapped space hrun => ?_
  have hmap := hvacant.tryMap paddr v.prot
  have hpte := Space.hasPte_of_tryMap hmap
  rw [Option.some.inj hrun] at hmap hpte
  obtain rfl : mapped = true := hmap
  exact ends_same (fun _ _ => Iff.rfl) () fun _ => ends_faultAround hpte rfl hzero

/-- An anonymous area gets a cleared 2 MB leaf or a cleared 4 KB page. -/
lemma ends_mapFilled (hpage : aligned / pageSize = page) (hprot : v.prot ≠ .none)
    (hstart : 0 < v.start) (hvacant : st.space.Vacant page) (hzero : ∀ i, st.pages paddr i = 0) :
    Ends (Fault.mapFilled v aligned reason ⟨paddr, none, false, false⟩) (Refilled page) st := by
  subst hpage
  unfold Fault.mapFilled
  rw [if_neg hprot]
  dsimp only
  split
  · next hspan =>
    rw [if_neg (by simp at hspan; omega)]
    refine ends_table ⟨fun _ _ => 0, _, _, rfl⟩ fun _ empty space hrun => ?_
    cases hrun
    split
    · refine ends_op ⟨none, _, rfl⟩ ?_
      rintro huge _ rfl
      cases huge with
      | none => exact ends_mapDemandPage hvacant (pages_zero _ hzero)
      | some huge =>
        refine ends_same (fun _ _ => Iff.rfl) () fun _ => ?_
        refine ends_table ⟨fun _ _ => 0, _, _, rfl⟩ fun _ _ space hrun => ?_
        obtain rfl := congrArg Prod.snd (Option.some.inj hrun)
        have hleaf : st.space.mapHugeUserPage (alignDown aligned hugePageSize / pageSize) huge
            v.prot (aligned / pageSize / 512) = .huge ⟨huge, .hugeOfProt v.prot⟩ := by
          rw [Space.mapHugeUserPage, Fault.region_hugeBase, update_self]
        have hlt : aligned / pageSize % 512 < 512 := Nat.mod_lt _ (by decide)
        refine ends_same (fun _ _ => Iff.rfl) () fun _ => ends_finish ?_
        exact ⟨_, Space.translate_of_huge hleaf, fun i => by simp [zero, hlt]⟩
    · exact ends_mapDemandPage hvacant hzero
  · exact ends_mapDemandPage hvacant hzero

/-- The fault of a read where nothing is mapped. -/
lemma readsZero_of_vacant (files : FileId → FileInfo) (hvacant : st.space.Vacant page)
    (hstart : ∀ v ∈ st.vm.vmAreas, 0 < v.start) (hanon : st.PrivateAnonymous page) :
    st.ReadsZero files page := by
  obtain ⟨v, hv, htype, -, hprot⟩ := hanon
  obtain ⟨hmem, hcontains⟩ := Vm.mem_of_findVmaCached hv
  have hpos := hstart v hmem
  have haligned : alignDown (page * pageSize) pageSize = page * pageSize := by simp [alignDown]
  have hpage : page * pageSize / pageSize = page := Nat.mul_div_cancel page (by decide)
  rw [ReadsZero, if_neg (by simp [hvacant.translate])]
  unfold Fault.handlePageFault
  dsimp only
  rw [haligned, if_neg (by simp [VmArea.contains] at hcontains; omega)]
  refine ends_op ⟨none, _, rfl⟩ ?_
  rintro alloc _ rfl
  cases alloc with
  | none => exact .inl rfl
  | some paddr =>
    refine ends_same (fun _ _ => Iff.rfl) () fun _ => ends_op ⟨_, _, rfl, rfl⟩ ?_
    rintro _ _ ⟨rfl, rfl⟩
    simp only [zero, hv]
    simp only [Fault.faultInArea, Fault.demandFault, htype]
    exact ends_mapFilled hpage hprot hpos hvacant fun i => by simp

end Fault

end MunmapState

lemma mem_dontneedPages {k len page : ℕ}
    (hrange : k * pageSize + alignUp len pageSize ≤ 2 ^ 48) :
    page ∈ dontneedPages (k * pageSize) len ↔ page ≠ 0 ∧ k * pageSize ≤ page * pageSize ∧
      page * pageSize < k * pageSize + alignUp len pageSize := by
  simp only [dontneedPages, mem_map, mem_filter, mem_cursors, wadd, decide_eq_true_eq]
  unfold pageSize at *
  constructor
  · rintro ⟨c, ⟨⟨hmod, hle, hlt⟩, hne⟩, rfl⟩
    omega
  · rintro ⟨hne, hle, hlt⟩
    exact ⟨page * 4096, by omega, by omega⟩

/-- The state of a process with an anonymous area of 2 MB, whose frames hold ones. -/
def onesAbove (pde : PdeView) : MunmapState where
  vm := { Vm.new 1 0 0 with vmAreas := [⟨0x200000, 0x200000, .anonymous, .rw, false, 0⟩] }
  space := fun r => if r = 1 then pde else .empty
  pages := fun _ _ => 1
  files := fun _ => []

end Kevlar
