import Kevlar.FaultHandler
import Kevlar.Mprotect

/-!
# What the fault handler makes writable

The handler holds the lock of its address space from the area lookup to its last
page-table operation. `localSem` is what it sees of the machine in that time: the
area list and the page table change by its own operations only, and everything
shared with other processors, from the allocator to the reference counts and the
page cache, may answer anything. The handler is executed symbolically in that
setting, and on every path that returns without a signal the translation of the
faulting page is writable only as far as the area allows. The one exception is
the copy of a private file page, which the handler maps writable on purpose.
-/
namespace Kevlar
open Space Prod Function Option Concurrent

namespace Space

variable {s : Space} {page : ℕ}

lemma setPte_self (s : Space) (page : ℕ) (pt : ℕ → Entry) (e : Entry) :
    s.setPte page pt e (page / 512) = .table (update pt (page % 512) e) :=
  update_self ..

lemma LeavesOk.split (hs : s.LeavesOk) (page : ℕ) : (s.splitHugePage page).2.LeavesOk := by
  unfold splitHugePage
  cases hr : s (page / 512) with
  | empty | table pt => exact hs
  | huge e =>
    have hleaf := hs.huge _ e hr
    change LeavesOk (update s (page / 512) (.table (splitTable e)))
    refine ⟨fun r pt j hpt hj => ?_, fun r e' he' => ?_⟩
    · by_cases hrp : r = page / 512
      · subst hrp
        rw [update_self, PdeView.table.injEq] at hpt
        subst hpt
        simp only [splitTable] at hj ⊢
        by_cases hj512 : j < 512
        · rw [if_pos hj512] at hj
          exact absurd (Nat.eq_zero_of_add_eq_zero_right hj) hleaf.frame_ne
        · exact if_neg hj512
      · rw [update_of_ne hrp] at hpt
        exact hs.pte r pt j hpt hj
    · by_cases hrp : r = page / 512
      · subst hrp
        simp at he'
      · rw [update_of_ne hrp] at he'
        exact hs.huge r e' he'

/-- After the split the page is under a table or under nothing. -/
lemma splitHugePage_ne_huge (s : Space) (page : ℕ) (e : Entry) :
    (s.splitHugePage page).2 (page / 512) ≠ .huge e := by
  unfold splitHugePage
  cases hr : s (page / 512) with
  | empty | table pt => simp [hr]
  | huge e => simp

lemma splitHugePage_of_none (h : s.isHugeMapped page = none) : (s.splitHugePage page).2 = s := by
  unfold isHugeMapped PdeView.hugeEntry at h
  unfold splitHugePage
  cases hr : s (page / 512) with
  | empty | table pt => rfl
  | huge e => simp [hr] at h

/-- The leaf entry of a page. -/
def HasPte (s : Space) (page : ℕ) (e : Entry) : Prop :=
  ∃ pt, s (page / 512) = .table pt ∧ pt (page % 512) = e

variable {e : Entry} {paddr : Frame} {prot : MMapProt}

lemma HasPte.translate (h : s.HasPte page e) :
    s.translate page = if e.attrs.present then some e else none := by
  obtain ⟨pt, hpt, rfl⟩ := h
  exact translate_of_table hpt

lemma hasPte_setPte (s : Space) (page : ℕ) (pt : ℕ → Entry) (e : Entry) :
    (s.setPte page pt e).HasPte page e :=
  ⟨_, setPte_self s page pt e, update_self ..⟩

lemma hasPte_of_mapPage {s' : Space} {attrs : PageAttrs}
    (h : s.mapPage page paddr attrs = some s') : s'.HasPte page ⟨paddr, attrs⟩ := by
  unfold mapPage at h
  split at h
  · rw [some.injEq] at h
    subst h
    exact hasPte_setPte ..
  · simp at h

lemma hasPte_of_tryMap (h : (s.tryMapUserPageWithProt page paddr prot).1 = true) :
    (s.tryMapUserPageWithProt page paddr prot).2.HasPte page ⟨paddr, .ofProt prot⟩ := by
  unfold tryMapUserPageWithProt at h ⊢
  cases hr : s.touch (page / 512) (page / 512) with
  | empty | huge e => simp [hr] at h
  | table pt =>
    simp only [hr] at h ⊢
    by_cases hz : pt (page % 512) = 0
    · rw [if_pos hz]
      exact hasPte_setPte ..
    · simp [if_neg hz] at h

/-- A page already mapped is left as it is. -/
lemma tryMap_false (h : (s.tryMapUserPageWithProt page paddr prot).1 = false)
    (hn : ∀ e, s (page / 512) ≠ .huge e) : (s.tryMapUserPageWithProt page paddr prot).2 = s := by
  unfold tryMapUserPageWithProt at h ⊢
  cases hr : s (page / 512) with
  | empty => simp [touch, hr, PdeView.touched] at h
  | huge e => exact absurd hr (hn e)
  | table pt =>
    have ht : s.touch (page / 512) = s := touch_of_ne (by simp [hr])
    simp only [ht, hr] at h ⊢
    by_cases hz : pt (page % 512) = 0
    · simp [hz] at h
    · rw [if_neg hz]

/-- Mapping one page leaves the entries of the others. -/
lemma HasPte.tryMap_of_ne {page' : ℕ} (h : s.HasPte page e) (hne : page' ≠ page) :
    (s.tryMapUserPageWithProt page' paddr prot).2.HasPte page e := by
  obtain ⟨pt, hpt, rfl⟩ := h
  have htouch : s.touch (page' / 512) (page / 512) = .table pt := by
    by_cases hr : page / 512 = page' / 512
    · rw [← hr, touch_of_ne (by simp [hpt]), hpt]
    · rw [touch, update_of_ne hr, hpt]
  unfold tryMapUserPageWithProt
  cases hr : s.touch (page' / 512) (page' / 512) with
  | empty | huge e => exact ⟨pt, hpt, rfl⟩
  | table pt' =>
    simp only
    by_cases hz : pt' (page' % 512) = 0
    · rw [if_pos hz]
      by_cases hreg : page / 512 = page' / 512
      · rw [hreg, hr, PdeView.table.injEq] at htouch
        subst htouch
        refine ⟨_, hreg ▸ setPte_self s page' pt' _, update_of_ne ?_ _ _⟩
        omega
      · refine ⟨pt, ?_, rfl⟩
        change s.setPte page' pt' _ (page / 512) = _
        rw [setPte, update_of_ne hreg, hpt]
    · rw [if_neg hz]
      exact ⟨pt, htouch, rfl⟩

lemma HasPte.batchFrom {words : ℕ → ℕ → Entry} (paddrs : List Frame) :
    ∀ {i : ℕ} {s : Space} {first : ℕ}, s.HasPte page e → page < first →
    (s.batchFrom words prot i first paddrs).2.HasPte page e := by
  induction paddrs with
  | nil => exact fun h _ => h
  | cons paddr paddrs ih =>
    intro i s first h hlt
    refine ih ?_ (Nat.lt_succ_of_lt hlt)
    unfold batchStep
    split
    · rename_i e' hr
      refine HasPte.tryMap_of_ne ?_ hlt.ne'
      obtain ⟨pt, hpt, he⟩ := h
      have hreg : page / 512 ≠ first / 512 := by
        intro heq
        simp [heq, hr] at hpt
      exact ⟨pt, by rw [update_of_ne hreg, hpt], he⟩
    · exact h.tryMap_of_ne hlt.ne'

end Space

namespace Vm

lemma findVmaCached_again (vm : Vm) (vaddr : ℕ) :
    ((vm.findVmaCached vaddr).2.findVmaCached vaddr).1 = (vm.findVmaCached vaddr).1 := by
  cases hlast : (vm.lastFaultVmaIdx.bind (vm.vmAreas[·]?)).filter (·.contains vaddr) with
  | some vma => simp only [findVmaCached, hlast]
  | none =>
    cases hfind : vm.vmAreas.findIdx? (·.contains vaddr) with
    | none => simp [findVmaCached, hlast, hfind]
    | some i =>
      obtain ⟨hi, hcontains, -⟩ := List.findIdx?_eq_some_iff_getElem.mp hfind
      have hagain : (some vm.vmAreas[i]).filter (·.contains vaddr) = some vm.vmAreas[i] := by
        rw [filter_some, if_pos hcontains]
      simp only [findVmaCached, hlast, hfind, bind_some, List.getElem?_eq_getElem hi, hagain]

end Vm

namespace Fault

/-- What one handler sees while others run: the lock gives it some well-formed
address space, its own operations act on the area list and the page table, and
the shared parts of the memory manager may answer anything. -/
def localSem (s : Vm × Space) : (o : MmOp) → o.Ans → Vm × Space → Prop
  | .lockVm, _, s' => s'.2.LeavesOk
  | .findVmaCached vaddr, x, s' => (x, s'.1) = s.1.findVmaCached vaddr ∧ s'.2 = s.2
  | .tryGrowStack vaddr, x, s' => s.1.tryGrowStack vaddr = some (x, s'.1) ∧ s'.2 = s.2
  | .isGhostForked, x, s' => x = s.1.isGhostForked ∧ s' = s
  | .table o, x, s' => (∃ words, o.run words s.2 = some (x, s'.2)) ∧ s'.1 = s.1
  | .kernelPanic, _, _ => False
  | _, _, s' => s' = s

/-- The area lets the handler map a page writable: it has `PROT_WRITE`, or the
fault is a write to a private mapping that is not anonymous. -/
def MayWrite (vma : VmArea) (reason : FaultReason) : Prop :=
  vma.prot.write = true ∨
    (reason.causedByWrite = true ∧ vma.isShared = false ∧ vma.areaType.isAnonymous = false)

/-- A page is translated writable only where that is allowed. -/
def WritableOnly (allowed : Prop) (s : Space) (page : ℕ) : Prop :=
  ∀ e, s.translate page = some e → e.attrs.writable = true → allowed

/-- The handler has left the area list as it found it and, unless it sends a
signal, the page writable only where the area allows. -/
def Ends (vm : Vm) (vma : VmArea) (reason : FaultReason) (page : ℕ) (out : FaultOutcome)
    (s : Vm × Space) : Prop :=
  s.1 = vm ∧ (out = .returned → WritableOnly (MayWrite vma reason) s.2 page)

section

variable {β : Type} {s : Vm × Space} {vm : Vm} {sp : Space} {vma : VmArea}
  {reason : FaultReason} {page aligned : ℕ} {paddr : Frame}

lemma wp_op {o : MmOp} {k : o.Ans → FaultProg β} {Q : β → Vm × Space → Prop}
    (h : ∀ x s', localSem s o x s' → wp localSem (k x) Q s') :
    wp localSem (op o >>= k) Q s := h

/-- An operation on the shared parts. -/
lemma wp_shared {o : MmOp} {k : o.Ans → FaultProg β} {Q : β → Vm × Space → Prop}
    (ho : ∀ x s', localSem s o x s' → s' = s) (h : ∀ x, wp localSem (k x) Q s) :
    wp localSem (op o >>= k) Q s := by
  refine wp_op fun x s' hs => ?_
  rw [ho x s' hs]
  exact h x

lemma wp_table {o : TableOp} {k : o.Ans → FaultProg β} {Q : β → Vm × Space → Prop}
    (h : ∀ x sp' words, o.run words sp = some (x, sp') → wp localSem (k x) Q (vm, sp')) :
    wp localSem (op (.table o) >>= k) Q (vm, sp) := by
  refine wp_op fun x s' hs => ?_
  obtain ⟨⟨words, hrun⟩, hvm⟩ := hs
  obtain ⟨vm', sp'⟩ := s'
  obtain rfl : vm' = vm := hvm
  exact h x sp' words hrun

lemma wp_finish {out : FaultOutcome}
    (h : out = .returned → WritableOnly (MayWrite vma reason) sp page) :
    wp localSem (finish out) (Ends vm vma reason page) (vm, sp) :=
  wp_shared (fun _ _ hs => hs) fun _ => ⟨rfl, h⟩

lemma wp_finish_free (h : MayWrite vma reason) (out : FaultOutcome) :
    wp localSem (finish out) (Ends vm vma reason page) (vm, sp) :=
  wp_finish fun _ _ _ _ => h

variable {Q : Unit → Vm × Space → Prop}

lemma wp_mapUserPageWithProt {prot : MMapProt} (h : ∀ sp', Q () (vm, sp')) :
    wp localSem (mapUserPageWithProt page paddr prot) Q (vm, sp) :=
  wp_shared (fun _ _ hs => hs) fun _ => wp_table fun _ sp' _ _ => h sp'

/-- Once the area allows writing, only the area list matters. -/
lemma wp_copyOnWrite (h : MayWrite vma reason) (old : Frame) (prot : MMapProt)
    (isGhost : Bool) :
    wp localSem (copyOnWrite page old prot isGhost) (Ends vm vma reason page) (vm, sp) := by
  cases isGhost with
  | true =>
    refine wp_shared (fun _ _ hs => hs) fun new => ?_
    cases new with
    | none => exact wp_finish_free h _
    | some new =>
      refine wp_shared (fun _ _ hs => hs) fun _ => ?_
      exact wp_bind (wp_mapUserPageWithProt fun sp' => wp_finish_free h _)
  | false =>
    refine wp_shared (fun _ _ hs => hs) fun _ => ?_
    refine wp_shared (fun _ _ hs => hs) fun new => ?_
    cases new with
    | none => exact wp_shared (fun _ _ hs => hs) fun _ => wp_finish_free h _
    | some new =>
      refine wp_shared (fun _ _ hs => hs) fun _ => ?_
      refine wp_shared (fun _ _ hs => hs) fun _ => ?_
      refine wp_shared (fun _ _ hs => hs) fun shouldFreeOld => ?_
      refine wp_bind (wp_mapUserPageWithProt fun sp' => ?_)
      cases shouldFreeOld with
      | true => exact wp_shared (fun _ _ hs => hs) fun _ => wp_finish_free h _
      | false => exact wp_finish_free h _

lemma wp_copyPrivateFilePage (h : MayWrite vma reason) (old : Frame) (prot : MMapProt) :
    wp localSem (copyPrivateFilePage page old prot) (Ends vm vma reason page) (vm, sp) := by
  refine wp_shared (fun _ _ hs => hs) fun new => ?_
  cases new with
  | none => exact wp_finish_free h _
  | some new =>
    refine wp_shared (fun _ _ hs => hs) fun _ => ?_
    refine wp_table fun _ sp' _ _ => ?_
    refine wp_bind (wp_mapUserPageWithProt fun sp' => ?_)
    refine wp_shared (fun _ _ hs => hs) fun shouldFreeOld => ?_
    cases shouldFreeOld with
    | true => exact wp_shared (fun _ _ hs => hs) fun _ => wp_finish_free h _
    | false => exact wp_finish_free h _

lemma wp_splitIfHuge (h : Q () (vm, (sp.splitHugePage page).2)) :
    wp localSem (splitIfHuge page) Q (vm, sp) := by
  refine wp_table fun huge sp' _ hrun => ?_
  cases hrun
  cases hh : sp.isHugeMapped page with
  | none =>
    rw [splitHugePage_of_none hh] at h
    exact h
  | some e =>
    refine wp_table fun x sp' _ hrun => ?_
    obtain rfl : (sp.splitHugePage page).2 = sp' := congrArg snd (some.inj hrun)
    exact h

/-- Renewing the flags of a 4 KB entry leaves it writable only if the area is. -/
lemma writableOnly_updatePageFlags (hs : sp.LeavesOk) (hn : ∀ e, sp (page / 512) ≠ .huge e)
    (prot : MMapProt) :
    WritableOnly (prot.write = true) (sp.updatePageFlags page prot).2 page := by
  intro e he hw
  unfold Space.updatePageFlags at he
  cases hr : sp (page / 512) with
  | empty =>
    simp only [hr] at he
    simp [translate_of_empty hr] at he
  | huge e => exact absurd hr (hn e)
  | table pt =>
    simp only [hr] at he
    by_cases hz : (pt (page % 512)).frame = 0
    · rw [if_pos hz, translate_of_table hr, hs.pte _ pt _ hr hz] at he
      simp [PageAttrs.empty] at he
    · rw [if_neg hz, (hasPte_setPte sp page pt _).translate] at he
      by_cases hp : prot = .none
      · simp [PageTable.updatedAttrs, hp, PageAttrs.empty] at he
      · simp only [PageTable.updatedAttrs, if_neg hp] at he
        obtain rfl := some.inj ((if_pos rfl).symm.trans he)
        exact hw

lemma WritableOnly.mono {a b : Prop} (h : WritableOnly a sp page) (hab : a → b) :
    WritableOnly b sp page := fun e he hw => hab (h e he hw)

lemma writableOnly_of_pte {e : Entry} {a : Prop} (h : sp.HasPte page e)
    (ha : e.attrs.writable = true → a) : WritableOnly a sp page := by
  intro e' he' hw
  rw [h.translate] at he'
  split at he'
  · cases he'
    exact ha hw
  · simp at he'

lemma wp_update (hs : sp.LeavesOk) (hn : ∀ e, sp (page / 512) ≠ .huge e) :
    wp localSem (updatePageFlags page vma.prot >>= fun _ => finish .returned)
      (Ends vm vma reason page) (vm, sp) := by
  refine wp_table fun x sp' _ hrun => ?_
  obtain rfl : (sp.updatePageFlags page vma.prot).2 = sp' := congrArg snd (some.inj hrun)
  exact wp_finish fun _ => (writableOnly_updatePageFlags hs hn _).mono .inl

lemma wp_permissionTail (hs : sp.LeavesOk) (hn : ∀ e, sp (page / 512) ≠ .huge e) :
    wp localSem (permissionTail vma page reason) (Ends vm vma reason page) (vm, sp) := by
  unfold permissionTail
  by_cases hw : (reason.causedByWrite && !vma.prot.write) = true
  · rw [if_pos hw]
    by_cases hp : (!vma.isShared && !vma.areaType.isAnonymous) = true
    · rw [if_pos hp]
      refine wp_table fun x sp' _ hrun => ?_
      cases hrun
      have hmay : MayWrite vma reason := by
        simp only [Bool.and_eq_true, Bool.not_eq_true'] at hw hp
        exact .inr ⟨hw.1, hp⟩
      cases sp.lookupPaddr page with
      | none => exact wp_finish_free hmay _
      | some old => exact wp_copyPrivateFilePage hmay old _
    · rw [if_neg hp]
      exact wp_finish (by simp)
  · rw [if_neg hw]
    exact wp_update hs hn

/-- A fault on a present page. -/
lemma wp_presentFault (hs : sp.LeavesOk) :
    wp localSem (presentFault vma page paddr reason) (Ends vm vma reason page) (vm, sp) := by
  refine wp_shared (fun _ _ hs => hs) fun _ => ?_
  refine wp_bind (wp_splitIfHuge ?_)
  have hs' := hs.split page
  have hn := sp.splitHugePage_ne_huge page
  generalize (sp.splitHugePage page).2 = sp' at hs' hn
  by_cases hnone : vma.prot = .none
  · rw [if_pos hnone]
    exact wp_finish (by simp)
  rw [if_neg hnone]
  by_cases hw : (reason.causedByWrite && vma.prot.write) = true
  · rw [if_pos hw]
    have hmay : MayWrite vma reason := .inl (by simp_all)
    refine wp_table fun x sp'' _ hrun => ?_
    cases hrun
    cases sp'.lookupPaddr page with
    | none => exact wp_permissionTail hs' hn
    | some old =>
      by_cases hshared : vma.isShared = true
      · simp only [if_pos hshared]
        exact wp_update hs' hn
      · simp only [if_neg hshared]
        refine wp_op fun isGhost s' hs => ?_
        obtain ⟨-, rfl⟩ := hs
        refine wp_shared (fun _ _ hs => hs) fun (refcount : ℕ) => ?_
        by_cases hcopy : (decide (1 < refcount) || isGhost) = true
        · rw [if_pos hcopy]
          exact wp_copyOnWrite hmay old _ _
        · rw [if_neg hcopy]
          exact wp_update hs' hn
  · rw [if_neg hw]
    exact wp_permissionTail hs' hn

lemma wp_pageRefInitAll (pages : List Frame) (h : Q () s) :
    wp localSem (pageRefInitAll pages) Q s := by
  induction pages with
  | nil => exact h
  | cons f fs ih => exact wp_shared (fun _ _ hs => hs) fun _ => ih

lemma wp_freeUnmapped (mapped : List ℕ) (pages : List Frame) (h : Q () s) :
    ∀ i, wp localSem (freeUnmapped mapped i pages) Q s := by
  induction pages with
  | nil => exact fun _ => h
  | cons f fs ih =>
    intro i
    unfold freeUnmapped
    by_cases hi : i ∈ mapped
    · rw [if_pos hi]
      exact ih (i + 1)
    · rw [if_neg hi]
      refine wp_shared (fun _ _ hs => hs) fun last => ?_
      cases last with
      | true => exact wp_shared (fun _ _ hs => hs) fun _ => ih (i + 1)
      | false => exact ih (i + 1)

/-- The pages behind the faulting one do not touch its entry. -/
lemma wp_faultAround {e : Entry} (hpte : sp.HasPte (aligned / pageSize) e)
    (ha : e.attrs.writable = true → MayWrite vma reason) :
    wp localSem (faultAround vma aligned) (Ends vm vma reason (aligned / pageSize)) (vm, sp) := by
  unfold faultAround
  split
  · refine wp_shared (fun _ _ hs => hs) fun (pages : List Frame) => ?_
    refine wp_bind (wp_pageRefInitAll pages ?_)
    refine wp_table fun mapped sp' words hrun => ?_
    obtain rfl : (sp.batchFrom words vma.prot 0 (aligned / pageSize + 1) pages).2 = sp' :=
      congrArg snd (some.inj hrun)
    refine wp_bind (wp_freeUnmapped mapped pages ?_ 0)
    exact wp_finish fun _ =>
      writableOnly_of_pte (hpte.batchFrom pages (Nat.lt_succ_self _)) ha
  · exact wp_finish fun _ => writableOnly_of_pte hpte ha

lemma wp_mapDemandPage (hs : sp.LeavesOk) (fill : Filled) :
    wp localSem (mapDemandPage vma aligned reason fill)
      (Ends vm vma reason (aligned / pageSize)) (vm, sp) := by
  refine wp_bind (wp_splitIfHuge ?_)
  have hs' := hs.split (aligned / pageSize)
  have hn := sp.splitHugePage_ne_huge (aligned / pageSize)
  generalize (sp.splitHugePage (aligned / pageSize)).2 = sp' at hs' hn
  refine wp_table fun (mapped : Bool) sp'' _ hrun => ?_
  have hmap := some.inj hrun
  cases mapped with
  | false =>
    have hsame := tryMap_false (congrArg fst hmap) hn
    rw [hmap] at hsame
    obtain rfl : sp'' = sp' := hsame
    exact wp_shared (fun _ _ hs => hs) fun _ => wp_permissionTail hs' hn
  | true =>
    have hpte := hasPte_of_tryMap (congrArg fst hmap)
    rw [hmap] at hpte
    have hend : wp localSem (faultAround vma aligned)
        (Ends vm vma reason (aligned / pageSize)) (vm, sp'') := wp_faultAround hpte .inl
    simp only [Bool.not_true, Bool.false_eq_true, if_false]
    split
    · exact hend
    · refine wp_shared (fun _ _ hs => hs) fun _ => ?_
      split
      · split
        · exact hend
        · refine wp_shared (fun _ _ hs => hs) fun _ => ?_
          exact wp_shared (fun _ _ hs => hs) fun _ => hend
      · exact hend

lemma region_hugeBase (aligned : ℕ) :
    alignDown aligned hugePageSize / pageSize / 512 = aligned / pageSize / 512 := by
  unfold alignDown hugePageSize pageSize
  omega

lemma wp_mapFilled (hs : sp.LeavesOk) (fill : Filled) :
    wp localSem (mapFilled vma aligned reason fill)
      (Ends vm vma reason (aligned / pageSize)) (vm, sp) := by
  unfold mapFilled
  split
  · exact wp_shared (fun _ _ hs => hs) fun _ => wp_finish (by simp)
  dsimp only
  split
  · split
    · exact fun _ _ hs => hs.elim
    refine wp_table fun empty sp' _ hrun => ?_
    cases hrun
    split
    · refine wp_shared (fun _ _ hs => hs) fun huge => ?_
      cases huge with
      | none => exact wp_mapDemandPage hs fill
      | some huge =>
        refine wp_shared (fun _ _ hs => hs) fun _ => ?_
        refine wp_table fun _ sp' _ hrun => ?_
        obtain rfl := (mk.inj (some.inj hrun)).2
        refine wp_shared (fun _ _ hs => hs) fun _ => wp_finish fun _ e he hw => ?_
        have hleaf : sp.mapHugeUserPage (alignDown aligned hugePageSize / pageSize) huge
            vma.prot (aligned / pageSize / 512) = .huge ⟨huge, .hugeOfProt vma.prot⟩ := by
          rw [Space.mapHugeUserPage, region_hugeBase, update_self]
        rw [Space.translate_of_huge hleaf] at he
        cases he
        exact .inl hw
    · exact wp_mapDemandPage hs fill
  · exact wp_mapDemandPage hs fill

lemma wp_readInto (hs : sp.LeavesOk) (file : FileId) (offset len : ℕ) (fill : Filled) :
    wp localSem (readInto vma aligned reason file offset len fill)
      (Ends vm vma reason (aligned / pageSize)) (vm, sp) := by
  unfold readInto
  split
  · refine wp_shared (fun _ _ hs => hs) fun ok => ?_
    cases ok with
    | true => exact wp_mapFilled hs fill
    | false => exact fun _ _ hs => hs.elim
  · exact wp_mapFilled hs fill

variable {files : FileId → FileInfo}

lemma wp_fileFault (hs : sp.LeavesOk) (file : FileId) (offset fileSize : ℕ) :
    wp localSem (fileFault files vma aligned paddr reason file offset fileSize)
      (Ends vm vma reason (aligned / pageSize)) (vm, sp) := by
  unfold fileFault
  dsimp only
  split
  · refine wp_shared (fun _ _ hs => hs) fun cached => ?_
    cases cached with
    | some cached =>
      refine wp_shared (fun _ _ hs => hs) fun _ => ?_
      exact wp_shared (fun _ _ hs => hs) fun _ => wp_mapFilled hs _
    | none =>
      refine wp_shared (fun _ _ hs => hs) fun enabled => ?_
      split
      · refine wp_shared (fun _ _ hs => hs) fun _ => ?_
        refine wp_shared (fun _ _ hs => hs) fun _ => ?_
        exact wp_shared (fun _ _ hs => hs) fun _ => wp_mapFilled hs _
      · exact wp_readInto hs ..
  · exact wp_readInto hs ..

/-- A fault on a page that is not present. -/
lemma wp_demandFault (hs : sp.LeavesOk) :
    wp localSem (demandFault files vma aligned paddr reason)
      (Ends vm vma reason (aligned / pageSize)) (vm, sp) := by
  unfold demandFault
  split
  · exact wp_mapFilled hs _
  · refine wp_shared (fun _ _ hs => hs) fun _ => ?_
    refine wp_table fun _ sp' _ hrun => ?_
    obtain ⟨sp'', hmap, heq⟩ := map_eq_some_iff.mp hrun
    obtain rfl := (mk.inj heq).2
    exact wp_finish fun _ => writableOnly_of_pte (hasPte_of_mapPage hmap) .inl
  · exact wp_fileFault hs ..

lemma wp_faultInArea (hs : sp.LeavesOk) :
    wp localSem (faultInArea files aligned paddr reason vma)
      (Ends vm vma reason (aligned / pageSize)) (vm, sp) := by
  unfold faultInArea
  split
  · exact wp_presentFault hs
  · exact wp_demandFault hs

/-- Every way to end without a signal found an area of the fault address. -/
lemma wp_handlePageFault (unaligned : Option ℕ) (s : Vm × Space) :
    wp localSem (handlePageFault files unaligned reason)
      (fun out s' => out = .returned → ∃ vaddr vma, unaligned = some vaddr ∧
        (s'.1.findVmaCached vaddr).1 = some vma ∧
        WritableOnly (MayWrite vma reason) s'.2 (vaddr / pageSize)) s := by
  unfold handlePageFault
  cases unaligned with
  | none => exact fun hret => nomatch hret
  | some vaddr =>
    dsimp only
    split
    · exact fun hret => nomatch hret
    refine wp_shared (fun _ _ hs => hs) fun paddr => ?_
    cases paddr with
    | none => exact fun hret => nomatch hret
    | some paddr =>
      have harea : ∀ (vm : Vm) (sp : Space) (vma : VmArea), sp.LeavesOk →
          (vm.findVmaCached vaddr).1 = some vma →
          wp localSem (faultInArea files (alignDown vaddr pageSize) paddr reason vma)
            (fun out s' => out = .returned → ∃ v vma, some vaddr = some v ∧
              (s'.1.findVmaCached v).1 = some vma ∧
              WritableOnly (MayWrite vma reason) s'.2 (v / pageSize))
            ((vm.findVmaCached vaddr).2, sp) := by
        intro vm sp vma hs hvma
        refine wp_mono (wp_faultInArea hs) ?_
        rintro out ⟨vm', sp'⟩ ⟨hvm, hend⟩ hret
        obtain rfl : vm' = (vm.findVmaCached vaddr).2 := hvm
        have hpage : alignDown vaddr pageSize / pageSize = vaddr / pageSize := by
          unfold alignDown pageSize
          omega
        rw [hpage] at hend
        exact ⟨vaddr, vma, rfl, (vm.findVmaCached_again vaddr).trans hvma, hend hret⟩
      have hnone : ∀ s, wp localSem (noArea paddr)
          (fun out s' => out = .returned → ∃ v vma, some vaddr = some v ∧
            (s'.1.findVmaCached v).1 = some vma ∧
            WritableOnly (MayWrite vma reason) s'.2 (v / pageSize)) s :=
        fun s => wp_shared (fun _ _ hs => hs) fun _ =>
          wp_shared (fun _ _ hs => hs) fun _ hret => nomatch hret
      refine wp_op fun _ s₁ (hs₁ : s₁.2.LeavesOk) => ?_
      refine wp_op fun found s₂ ⟨hfound, hsp₂⟩ => ?_
      obtain ⟨vm₂, sp₂⟩ := s₂
      obtain rfl : sp₂ = s₁.2 := hsp₂
      obtain ⟨hf, rfl⟩ := mk.inj hfound
      cases found with
      | some vma => exact harea s₁.1 s₁.2 vma hs₁ hf.symm
      | none =>
        refine wp_op fun grown s₃ ⟨_, hsp₃⟩ => ?_
        obtain ⟨vm₃, sp₃⟩ := s₃
        obtain rfl : sp₃ = s₁.2 := hsp₃
        cases grown with
        | false => exact hnone _
        | true =>
          refine wp_op fun found s₄ ⟨hfound, hsp₄⟩ => ?_
          obtain ⟨vm₄, sp₄⟩ := s₄
          obtain rfl : sp₄ = s₁.2 := hsp₄
          obtain ⟨hf, rfl⟩ := mk.inj hfound
          cases found with
          | some vma => exact harea vm₃ s₁.2 vma hs₁ hf.symm
          | none => exact hnone _

end

/-- One page of a private read-only file mapping, mapped read-only on frame 5. -/
def readOnlyFile : Vm × Space :=
  ({ Vm.new 1 0 0 with
      vmAreas := [⟨pageSize, pageSize, .file 1 0 pageSize, ⟨true, false, false⟩, false, 0⟩] },
    fun r => if r = 0 then
      .table fun j => if j = 1 then ⟨5, .ofProt ⟨true, false, false⟩⟩ else 0
    else .empty)

lemma readOnlyFile_leavesOk : readOnlyFile.2.LeavesOk := by
  refine ⟨fun r pt j hpt hj => ?_, fun r e he => ?_⟩
  · simp only [readOnlyFile] at hpt
    split at hpt
    · obtain rfl := PdeView.table.inj hpt
      dsimp only at hj ⊢
      split at hj
      · simp at hj
      · rename_i hj1
        exact if_neg hj1
    · simp at hpt
  · simp only [readOnlyFile] at he
    split at he <;> simp at he

end Fault

end Kevlar
