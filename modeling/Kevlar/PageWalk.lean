import Kevlar.PageTree

/-!
# The page table operations on the abstract address space

Every walk of the kernel rewrites memory, but inside a well-formed tree all a
walk does to the address space is to leave an empty table where it allocated.
Each page table operation then acts on the view of one region, and `Space` has
the same operation on abstract address spaces.
-/
namespace Kevlar
open Finset PageAttrs Radix Space Machine Function Option

variable {X : Finset ℕ} {mc mc' : Machine} {root t : Frame} {d q r : ℕ} {e : Entry}

namespace PdeView

/-- An allocating walk leaves an empty table where there was nothing. -/
def touched : PdeView → PdeView
  | empty => table 0
  | v => v

end PdeView

def Space.touch (s : Space) (r : ℕ) : Space := update s r (s r).touched

lemma Space.touch_of_ne {s : Space} (h : s r ≠ .empty) : s.touch r = s := by
  have : (s r).touched = s r := by
    cases hs : s r with
    | empty => exact absurd hs h
    | table pt | huge e => rfl
  rw [touch, this, update_eq_self]

namespace PageTable

/-- One turn of a walk inside the tree, at an entry that is no 2 MB leaf. -/
lemma descend_spec (T : Tree X mc root) (hq : InTree X d q)
    (ht : tableAt X mc root d (q / 512) = some t)
    (hnh : d = 2 → hugeAt X mc root q = none) {allocate : Bool} {res : Option Frame}
    (h : descend mc t (q % 512) allocate = some (res, mc')) :
    Grows X root mc mc' ∧ res = tableAt X mc' root (d + 1) q ∧
      (allocate = true → res.isSome) ∧
      view X mc' root =
        if d = 2 ∧ allocate = true then (view X mc root).touch q else view X mc root := by
  have hslot := T.slot d q t hq ht
  have hchild : tableAt X mc root (d + 1) q = childTable X d q (mc.mem t (q % 512)) := node_succ ht
  have hnothuge : ¬(d = 2 ∧ (mc.mem t (q % 512)).IsHugeLeaf) := by
    rintro ⟨rfl, hl⟩
    have := hnh rfl
    simp [hugeAt, ht, Entry.isHugePagePde, hl.huge, hl.present] at this
  simp only [descend] at h
  rcases hslot with h0 | hlink | hhuge
  · have hmissing : tableAt X mc root (d + 1) q = none := by
      rw [hchild, h0, childTable_zero]
    rw [if_pos (by rw [h0]; rfl)] at h
    cases allocate with
    | false =>
      obtain ⟨rfl, rfl⟩ := h
      refine ⟨Grows.refl T, hmissing.symm, ?_, ?_⟩
      · intro hcon
        cases hcon
      · rw [if_neg (by simp)]
    | true =>
      cases hfree : mc.free with
      | nil => simp [allocPages, hfree] at h
      | cons c fs =>
        simp only [allocPages, hfree] at h
        cases h
        have htc : t ≠ c := by
          rintro rfl
          exact T.free_apart t (by simp [hfree]) ⟨d, q / 512, ht⟩
        have hzero : ((⟨update mc.mem c 0, fs⟩ : Machine).write t (q % 512)
            ⟨c, .intermediate⟩).mem c = 0 := by
          rw [write_mem_ne _ _ _ htc.symm]
          exact update_self ..
        have L : Linked X root mc
            ((⟨update mc.mem c 0, fs⟩ : Machine).write t (q % 512) ⟨c, .intermediate⟩)
            d q t c := by
          refine ⟨hq, ht, hmissing, by simp [hfree], by simp [hfree], ?_, fun _ => hzero, ?_⟩
          · rw [write_mem, if_pos ⟨rfl, rfl⟩]
          · intro f i hfc hslot
            rw [write_mem, if_neg hslot]
            simp [hfc]
        refine ⟨L.grows T, ?_, fun _ => rfl, ?_⟩
        · rw [L.tableAt_eq T, if_pos ⟨rfl, rfl⟩]
        · rw [L.view_eq T, hzero]
          by_cases h2 : d = 2
          · rw [if_pos h2, if_pos ⟨h2, rfl⟩, touch]
            subst h2
            rw [view_empty (hnh rfl) hmissing]
            rfl
          · rw [if_neg h2, if_neg (fun hcon => h2 hcon.1)]
  · have hexists : tableAt X mc root (d + 1) q = some (mc.mem t (q % 512)).frame := by
      rw [hchild, childTable_link hq hlink]
    have hview : (if d = 2 ∧ allocate = true then (view X mc root).touch q else view X mc root)
        = view X mc root := by
      split_ifs with h2
      · apply touch_of_ne
        obtain ⟨rfl, -⟩ := h2
        simp [view_table hexists]
      · rfl
    rw [if_neg hlink.frame_ne, some.injEq, Prod.mk.injEq] at h
    obtain ⟨rfl, rfl⟩ := h
    rw [hview]
    split_ifs with heq
    · exact ⟨Grows.refl T, hexists.symm, fun _ => rfl, rfl⟩
    · have hnew := intermediate_isLink hlink.frame_ne
      have hsame : childTable X d q ⟨(mc.mem t (q % 512)).frame, .intermediate⟩ =
          childTable X d q (mc.mem t (q % 512)) := by
        rw [childTable_link hq hnew, childTable_link hq hlink]
      refine ⟨T.grows_write ht hsame fun _ => ⟨hq, .inr (.inl hnew)⟩, ?_, fun _ => rfl, ?_⟩
      · rw [T.tableAt_write ht hsame, hexists]
      · exact T.view_write_link hq ht hlink hnew rfl
  · exact absurd hhuge hnothuge

lemma descend_false_eq_some (mc : Machine) (t : Frame) (i : ℕ) :
    ∃ res mc', descend mc t i false = some (res, mc') := by
  unfold descend
  by_cases h : (mc.mem t i).frame = 0
  · exact ⟨none, mc, by simp [h]⟩
  · exact ⟨_, _, if_neg h⟩

/-- A walk that does not allocate never panics. -/
lemma walk_false_eq_some (vaddr : ℕ) (levels : List ℕ) (mc : Machine) (t : Frame) :
    ∃ res mc', walk vaddr false levels mc t = some (res, mc') := by
  induction levels generalizing mc t with
  | nil => exact ⟨some t, mc, rfl⟩
  | cons level levels ih =>
    obtain ⟨res, mc', h⟩ := descend_false_eq_some mc t (nthLevelTableIndex vaddr level)
    cases res with
    | none => exact ⟨none, mc', by simp [walk, h]⟩
    | some t' =>
      obtain ⟨res', mc'', h'⟩ := ih mc' t'
      exact ⟨res', mc'', by simp [walk, h, h']⟩

/-- The number of the 2 MB region of an address. -/
abbrev region (vaddr : ℕ) : ℕ := vaddr / pageSize / 512

section index

variable (vaddr : ℕ)

lemma index_four : nthLevelTableIndex vaddr 4 = region vaddr / 512 / 512 % 512 := by
  simp only [nthLevelTableIndex, region, pageSize, Nat.div_div_eq_div_mul]
  norm_num

lemma index_three : nthLevelTableIndex vaddr 3 = region vaddr / 512 % 512 := by
  simp only [nthLevelTableIndex, region, pageSize, Nat.div_div_eq_div_mul]
  norm_num

lemma index_two : nthLevelTableIndex vaddr 2 = region vaddr % 512 := by
  simp only [nthLevelTableIndex, region, pageSize, Nat.div_div_eq_div_mul]
  norm_num

lemma index_one : nthLevelTableIndex vaddr 1 = vaddr / pageSize % 512 := by
  simp only [nthLevelTableIndex, pageSize]
  norm_num

end index

section walks

variable {vaddr : ℕ} {allocate : Bool}

section

variable (T : Tree X mc root) (hv : vaddr < 2 ^ 47)
include T hv

/-- The walk to the page directory, which it may create but leaves empty. -/
lemma walk_to_pd {res : Option Frame} (h : walk vaddr allocate [4, 3] mc root = some (res, mc')) :
    Grows X root mc mc' ∧ res = tableAt X mc' root 2 (region vaddr / 512) ∧
      (allocate = true → res.isSome) ∧ view X mc' root = view X mc root := by
  have hrange : region vaddr / 512 / 512 < 256 := by
    unfold region pageSize
    omega
  have hroot : tableAt X mc root 0 (region vaddr / 512 / 512 / 512) = some root := by
    rw [Nat.div_eq_of_lt (by omega)]
    rfl
  have hin₀ : InTree X 0 (region vaddr / 512 / 512) := ⟨by omega, fun _ => hrange, by omega⟩
  have hin₁ : InTree X 1 (region vaddr / 512) := ⟨by omega, by omega, by omega⟩
  simp only [walk, index_four, index_three] at h
  cases h₀ : descend mc root (region vaddr / 512 / 512 % 512) allocate with
  | none => simp [h₀] at h
  | some out =>
    obtain ⟨res₀, mc₀⟩ := out
    obtain ⟨hg₀, hres₀, hsome₀, hview₀⟩ := descend_spec T hin₀ hroot (by omega) h₀
    cases res₀ with
    | none =>
      simp only [h₀] at h
      cases h
      refine ⟨hg₀, ?_, hsome₀, hview₀⟩
      exact (node_succ_none hres₀.symm).symm
    | some t₁ =>
      simp only [h₀] at h
      cases h₁ : descend mc₀ t₁ (region vaddr / 512 % 512) allocate with
      | none => simp [h₁] at h
      | some out =>
        obtain ⟨res₁, mc₁⟩ := out
        obtain ⟨hg₁, hres₁, hsome₁, hview₁⟩ := descend_spec hg₀.tree hin₁ hres₀.symm (by omega) h₁
        rw [if_neg (by omega), hview₀] at hview₁
        have hout : res₁ = res ∧ mc₁ = mc' := by
          cases res₁ <;> simpa [h₁] using h
        obtain ⟨rfl, rfl⟩ := hout
        exact ⟨hg₀.trans hg₁, hres₁, hsome₁, hview₁⟩

lemma traverseToPd_spec {res : Option (Frame × ℕ)}
    (h : traverseToPd mc root vaddr allocate = some (res, mc')) :
    Grows X root mc mc' ∧ view X mc' root = view X mc root ∧
      res = (tableAt X mc' root 2 (region vaddr / 512)).map (·, region vaddr % 512) ∧
      (allocate = true → res.isSome) := by
  unfold traverseToPd at h
  cases hw : walk vaddr allocate [4, 3] mc root with
  | none => simp [hw] at h
  | some out =>
    obtain ⟨pd, mc₁⟩ := out
    obtain ⟨hg, hpd, hsome, hview⟩ := walk_to_pd T hv hw
    cases pd with
    | none =>
      simp only [hw] at h
      cases h
      exact ⟨hg, hview, by rw [← hpd]; rfl, fun ha => absurd (hsome ha) (by simp)⟩
    | some pd =>
      simp only [hw, index_two] at h
      cases h
      exact ⟨hg, hview, by rw [← hpd]; rfl, fun _ => rfl⟩

lemma traverseToPd_false : ∃ mc', traverseToPd mc root vaddr false =
        some ((tableAt X mc' root 2 (region vaddr / 512)).map (·, region vaddr % 512), mc') ∧
      Grows X root mc mc' ∧ view X mc' root = view X mc root := by
  obtain ⟨res, mc₁, hw⟩ := walk_false_eq_some vaddr [4, 3] mc root
  have hsome : ∃ res', traverseToPd mc root vaddr false = some (res', mc₁) := by
    cases res with
    | none => exact ⟨none, by simp [traverseToPd, hw]⟩
    | some pd => exact ⟨_, by simp [traverseToPd, hw]; rfl⟩
  obtain ⟨res', hres'⟩ := hsome
  obtain ⟨hg, hview, rfl, -⟩ := traverseToPd_spec T hv hres'
  exact ⟨mc₁, hres', hg, hview⟩

end

lemma walk_append (levels levels' : List ℕ) (mc : Machine) (table : Frame) :
    walk vaddr allocate (levels ++ levels') mc table =
      match walk vaddr allocate levels mc table with
      | none => none
      | some (none, mc') => some (none, mc')
      | some (some table', mc') => walk vaddr allocate levels' mc' table' := by
  induction levels generalizing mc table with
  | nil => rfl
  | cons level levels ih =>
    simp only [List.cons_append, walk]
    cases hdesc : descend mc table (nthLevelTableIndex vaddr level) allocate with
    | none => rfl
    | some out =>
      obtain ⟨res, mc₁⟩ := out
      cases res with
      | none => rfl
      | some table' => exact ih mc₁ table'

lemma inTree_region (hX : region vaddr ∉ X) : InTree X 2 (region vaddr) :=
  ⟨by omega, by omega, fun _ => hX⟩

/-- The walk to the leaf table entry. Under a 2 MB leaf there is no table, and
the result is `none` like for a missing table. -/
lemma traverse_spec (T : Tree X mc root) (hv : vaddr < 2 ^ 47) (hX : region vaddr ∉ X)
    {res : Option (Frame × ℕ)} (h : traverse mc root vaddr allocate = some (res, mc')) :
    Grows X root mc mc' ∧
      view X mc' root =
        (if allocate = true then (view X mc root).touch (region vaddr) else view X mc root) ∧
      res = (tableAt X mc' root 3 (region vaddr)).map (·, vaddr / pageSize % 512) := by
  unfold traverse at h
  cases hw : walk vaddr allocate [4, 3] mc root with
  | none => simp [hw] at h
  | some out =>
    obtain ⟨pd, mc₁⟩ := out
    obtain ⟨hg, hpd, hsome, hview⟩ := walk_to_pd T hv hw
    cases pd with
    | none =>
      simp only [hw, some.injEq, Prod.mk.injEq] at h
      obtain ⟨rfl, rfl⟩ := h
      have ha : ¬allocate = true := fun ha => absurd (hsome ha) (by simp)
      refine ⟨hg, by rw [if_neg ha, hview], ?_⟩
      rw [show tableAt X mc₁ root 3 (region vaddr) = none from node_succ_none hpd.symm]
      rfl
    | some pd =>
      have hslot := hg.tree.slot 2 _ pd (inTree_region hX) hpd.symm
      simp only [hw, index_two, index_one] at h
      by_cases hhuge : (mc₁.mem pd (region vaddr % 512)).IsHugeLeaf
      · have hgone : tableAt X mc₁ root 3 (region vaddr) = none :=
          (node_succ hpd.symm).trans (childTable_huge hhuge)
        have hleaf : view X mc root (region vaddr) =
            .huge (mc₁.mem pd (region vaddr % 512)) := by
          rw [← hview]
          apply view_huge
          simp [hugeAt, ← hpd, (isHugePagePde_iff hslot).mpr hhuge]
        rw [if_pos ⟨hhuge.frame_ne, hhuge.huge⟩, some.injEq, Prod.mk.injEq] at h
        obtain ⟨rfl, rfl⟩ := h
        refine ⟨hg, ?_, by rw [hgone]; rfl⟩
        rw [touch_of_ne (by simp [hleaf]), hview]
        split_ifs <;> rfl
      · have hnot : ¬((mc₁.mem pd (region vaddr % 512)).frame ≠ 0 ∧
            (mc₁.mem pd (region vaddr % 512)).attrs.hugePage = true) := by
          rintro ⟨hne, hps⟩
          rcases hslot with h0 | hl | hl
          · exact hne (by rw [h0]; rfl)
          · simp [hl.permissive.not_huge] at hps
          · exact hhuge hl.2
        have hnone : hugeAt X mc₁ root (region vaddr) = none := by
          have hfalse : ¬(mc₁.mem pd (region vaddr % 512)).isHugePagePde = true :=
            fun hcon => hhuge ((isHugePagePde_iff hslot).mp hcon)
          simp [hugeAt, ← hpd, hfalse]
        rw [if_neg hnot] at h
        cases hdesc : descend mc₁ pd (region vaddr % 512) allocate with
        | none => simp [hdesc] at h
        | some out =>
          obtain ⟨pt, mc₂⟩ := out
          obtain ⟨hg₂, hpt, -, hview₂⟩ :=
            descend_spec hg.tree (inTree_region hX) hpd.symm (fun _ => hnone) hdesc
          have hout : pt.map (·, vaddr / pageSize % 512) = res ∧ mc₂ = mc' := by
            cases pt <;> simpa [hdesc] using h
          obtain ⟨rfl, rfl⟩ := hout
          refine ⟨hg.trans hg₂, ?_, by rw [hpt]⟩
          rw [hview₂, hview]
          simp

lemma traverse_false_eq_some (mc : Machine) (root vaddr : ℕ) :
    ∃ res mc', traverse mc root vaddr false = some (res, mc') := by
  obtain ⟨pd, mc₁, hw⟩ := walk_false_eq_some vaddr [4, 3] mc root
  cases pd with
  | none => exact ⟨none, mc₁, by simp [traverse, hw]⟩
  | some pd =>
    obtain ⟨pt, mc₂, hd⟩ := descend_false_eq_some mc₁ pd (nthLevelTableIndex vaddr 2)
    simp only [traverse, hw, hd]
    split_ifs
    · exact ⟨_, _, rfl⟩
    · cases pt with
      | none | some pt => exact ⟨_, _, rfl⟩

end walks

end PageTable

lemma exists_table_of_view {pt : ℕ → Entry} (h : view X mc root r = .table pt) :
    ∃ f, tableAt X mc root 3 r = some f ∧ mc.mem f = pt := by
  cases hf : tableAt X mc root 3 r with
  | some f =>
    rw [view_table hf] at h
    exact ⟨f, rfl, PdeView.table.inj h⟩
  | none =>
    cases hh : hugeAt X mc root r with
    | some e =>
      rw [view_huge hh] at h
      cases h
    | none =>
      rw [view_empty hh hf] at h
      cases h

namespace PdeView

def hugeEntry : PdeView → Option Entry
  | huge e => some e
  | _ => none

end PdeView

lemma hugeEntry_view (X : Finset ℕ) (mc : Machine) (root : Frame) (r : ℕ) :
    (view X mc root r).hugeEntry = hugeAt X mc root r := by
  cases hh : hugeAt X mc root r with
  | some e => rw [view_huge hh]; rfl
  | none =>
    cases hf : tableAt X mc root 3 r with
    | some f => rw [view_table hf]; rfl
    | none => rw [view_empty hh hf]; rfl

/-- The tables below the root that a translation reads. -/
def walkFrames (mem : Frame → ℕ → Entry) (pml4 : Frame) (page : ℕ) : List Frame :=
  let e4 := mem pml4 (page / 512 / 512 / 512 % 512)
  let e3 := mem e4.frame (page / 512 / 512 % 512)
  let e2 := mem e3.frame (page / 512 % 512)
  [e4.frame, e3.frame, e2.frame]

/-- A well-formed address space: the tables of the user half form a tree, leaf
entries without a frame are zero, and neither the tables of the kernel half
nor the data of 2 MB leaves are tables of the user half or free frames. -/
structure WellFormed (mc : Machine) (pml4 : Frame) : Prop where
  tree : Tree ∅ mc pml4
  pte : ∀ r pt j, view ∅ mc pml4 r = .table pt → (pt j).frame = 0 → pt j = 0
  kernel : ∀ page, 2 ^ 35 ≤ page → page < 2 ^ 36 → ∀ f ∈ walkFrames mc.mem pml4 page,
    ¬(IsTable ∅ mc pml4 f ∨ f ∈ mc.free)
  hugeData : ∀ r e, hugeAt ∅ mc pml4 r = some e →
    ¬(IsTable ∅ mc pml4 e.frame ∨ e.frame ∈ mc.free)

variable {page : ℕ}

/-- The kernel half is translated as before if its entries in the root and the
data frames are. -/
lemma translate_kernel {pml4 : Frame} (hlo : 2 ^ 35 ≤ page) (hhi : page < 2 ^ 36)
    (hk : ∀ f ∈ walkFrames mc.mem pml4 page, ¬(IsTable ∅ mc pml4 f ∨ f ∈ mc.free))
    (hupper : ∀ i, 256 ≤ i → mc'.mem pml4 i = mc.mem pml4 i)
    (hdata : ∀ f, ¬(IsTable ∅ mc pml4 f ∨ f ∈ mc.free) → mc'.mem f = mc.mem f) :
    translate mc'.mem pml4 page = translate mc.mem pml4 page := by
  simp only [walkFrames, List.mem_cons, List.not_mem_nil, or_false, forall_eq_or_imp,
    forall_eq] at hk
  obtain ⟨h4, h3, h2⟩ := hk
  simp only [translate, hupper (page / 512 / 512 / 512 % 512) (by omega), hdata _ h4,
    hdata _ h3, hdata _ h2]

/-- The last two levels of a translation. -/
def translateFromPd (mem : Frame → ℕ → Entry) (pd : Frame) (page : ℕ) : Option Entry :=
  let e2 := mem pd (page / 512 % 512)
  let e1 := mem e2.frame (page % 512)
  if e2.attrs.present then
    if e2.attrs.hugePage then some ⟨e2.frame + page % 512, e2.attrs.clearHuge⟩
    else if e1.attrs.present then some ⟨e1.frame, e2.attrs.restrict e1.attrs⟩
    else none
  else none

/-- The upper levels of the tree restrict nothing. -/
lemma translate_eq_bind (T : Tree X mc root) (hp : page < 2 ^ 35) :
    translate mc.mem root page =
      (tableAt X mc root 2 (page / 512 / 512)).bind fun pd => translateFromPd mc.mem pd page := by
  have hroot : tableAt X mc root 0 (page / 512 / 512 / 512 / 512) = some root := by
    rw [Nat.div_eq_of_lt (by omega)]
    rfl
  have hin₀ : InTree X 0 (page / 512 / 512 / 512) := ⟨by omega, by omega, by omega⟩
  have hin₁ : InTree X 1 (page / 512 / 512) := ⟨by omega, by omega, by omega⟩
  have h₁ := node_succ hroot
  rcases T.slot 0 _ _ hin₀ hroot with h4 | h4 | h4
  · rw [h4, childTable_zero] at h₁
    rw [show tableAt X mc root 2 _ = none from node_succ_none h₁]
    simp [translate, h4, empty]
  · rw [childTable_link hin₀ h4] at h₁
    have h₂ := node_succ h₁
    rcases T.slot 1 _ _ hin₁ h₁ with h3 | h3 | h3
    · rw [h3, childTable_zero] at h₂
      rw [show tableAt X mc root 2 _ = none from h₂]
      simp [translate, h3, empty]
    · rw [childTable_link hin₁ h3] at h₂
      rw [show tableAt X mc root 2 _ = _ from h₂, bind_some]
      simp only [translate, translateFromPd, h4.permissive.restrict, h3.permissive.restrict,
        h4.permissive.present, h3.permissive.present, Bool.true_and]
    · exact absurd h3.1 (by omega)
  · exact absurd h4.1 (by omega)

/-- The MMU's translation only depends on the view. -/
lemma translate_eq_view (T : Tree X mc root) (hp : page < 2 ^ 35) (hX : page / 512 ∉ X) :
    translate mc.mem root page = (view X mc root).translate page := by
  have hin₂ : InTree X 2 (page / 512) := ⟨by omega, by omega, fun _ => hX⟩
  cases hpd : tableAt X mc root 2 (page / 512 / 512) with
  | none =>
    have hh : hugeAt X mc root (page / 512) = none := by simp [hugeAt, hpd]
    rw [translate_eq_bind T hp, hpd, bind_none,
      translate_of_empty (view_empty hh (node_succ_none hpd))]
  | some pd =>
    have h₃ : tableAt X mc root 3 (page / 512) = _ := node_succ hpd
    rw [translate_eq_bind T hp, hpd, bind_some, translateFromPd]
    rcases T.slot 2 _ _ hin₂ hpd with h2 | h2 | h2
    · have hh : hugeAt X mc root (page / 512) = none := by
        simp [hugeAt, hpd, h2, Entry.isHugePagePde, empty]
      rw [h2, childTable_zero] at h₃
      rw [translate_of_empty (view_empty hh h₃), h2]
      simp [empty]
    · rw [childTable_link hin₂ h2] at h₃
      rw [translate_of_table (view_table h₃), h2.permissive.restrict]
      simp [h2.permissive.present, h2.permissive.not_huge]
    · have hh : hugeAt X mc root (page / 512) = some (mc.mem pd (page / 512 % 512)) := by
        simp [hugeAt, hpd, (isHugePagePde_iff (.inr (.inr h2))).mpr h2.2]
      rw [translate_of_huge (view_huge hh)]
      simp [h2.2.present, h2.2.huge]

namespace Space

open PageTable (updatedAttrs)

/-- The entries of a table that replaces a 2 MB leaf. -/
def splitTable (e : Entry) : ℕ → Entry := fun j =>
  if j < 512 then ⟨e.frame + j, e.attrs.clearHuge⟩ else 0

def setPte (s : Space) (page : ℕ) (pt : ℕ → Entry) (e : Entry) : Space :=
  update s (page / 512) (.table (update pt (page % 512) e))

def isHugeMapped (s : Space) (page : ℕ) : Option Entry := (s (page / 512)).hugeEntry

def isPdeEmpty (s : Space) (page : ℕ) : Bool :=
  match s (page / 512) with
  | .empty => true
  | _ => false

def splitHugePage (s : Space) (page : ℕ) : Option Frame × Space :=
  match s (page / 512) with
  | .huge e => (some e.frame, update s (page / 512) (.table (splitTable e)))
  | _ => (none, s)

def updateHugePageFlags (s : Space) (page : ℕ) (prot : MMapProt) : Bool × Space :=
  match s (page / 512) with
  | .huge e => (true, update s (page / 512)
      (.huge ⟨e.frame, .hugeOfProt prot⟩))
  | _ => (false, s)

def updatePageFlags (s : Space) (page : ℕ) (prot : MMapProt) : Bool × Space :=
  match s (page / 512) with
  | .table pt =>
    if (pt (page % 512)).frame = 0 then (false, s)
    else (true, s.setPte page pt ⟨(pt (page % 512)).frame, updatedAttrs prot⟩)
  | _ => (false, s)

/-- `none` is the panic of `map_page` under a 2 MB leaf. -/
def mapPage (s : Space) (page : ℕ) (paddr : Frame) (attrs : PageAttrs) : Option Space :=
  match s.touch (page / 512) (page / 512) with
  | .table pt => some (s.setPte page pt ⟨paddr, attrs⟩)
  | _ => none

def tryMapUserPageWithProt (s : Space) (page : ℕ) (paddr : Frame) (prot : MMapProt) :
    Bool × Space :=
  match s.touch (page / 512) (page / 512) with
  | .table pt =>
    if pt (page % 512) = 0 then (true, s.setPte page pt ⟨paddr, .ofProt prot⟩)
    else (false, s.touch (page / 512))
  | _ => (false, s)

def unmapUserPage (s : Space) (page : ℕ) : Option Frame × Space :=
  match s (page / 512) with
  | .table pt =>
    if (pt (page % 512)).frame = 0 then (none, s)
    else (some (pt (page % 512)).frame, s.setPte page pt 0)
  | _ => (none, s)

def mapHugeUserPage (s : Space) (page : ℕ) (paddr : Frame) (prot : MMapProt) : Space :=
  update s (page / 512) (.huge ⟨paddr, .hugeOfProt prot⟩)

/-- The frame of a page, present or parked. -/
def lookupPaddr (s : Space) (page : ℕ) : Option Frame :=
  match s (page / 512) with
  | .table pt => if (pt (page % 512)).frame ≠ 0 then some (pt (page % 512)).frame else none
  | .huge e => some (e.frame + page % 512)
  | .empty => none

end Space

/-- A step of the machine that acts as an operation on abstract address
spaces and returns the same result. -/
structure Acts {α : Type} (X : Finset ℕ) (root : Frame) (mc : Machine) (abstract : α × Space)
    (result : α) (mc' : Machine) : Prop where
  grows : Grows X root mc mc'
  result_eq : result = abstract.1
  view_eq : view X mc' root = abstract.2

namespace PageTable

variable {vaddr : ℕ}

variable {mc₁ : Machine} {prot : MMapProt} {done : Bool} {res : Option Frame} {paddr : Frame}

section

variable (T : Tree X mc root) (hv : vaddr < 2 ^ 47) (hX : region vaddr ∉ X)
include T hv hX

/-- A walk that allocates nothing ends in the table of the region, where it can write, or
there is none. -/
lemma traverse_false_cases : ∃ mc₁, Grows X root mc mc₁ ∧ view X mc₁ root = view X mc root ∧
    ((traverse mc root vaddr false = some (none, mc₁) ∧
        ∀ pt, view X mc root (region vaddr) ≠ .table pt) ∨
      ∃ pt, traverse mc root vaddr false = some (some (pt, vaddr / pageSize % 512), mc₁) ∧
        view X mc root (region vaddr) = .table (mc₁.mem pt) ∧
        ∀ e, Grows X root mc (mc₁.write pt (vaddr / pageSize % 512) e) ∧
          view X (mc₁.write pt (vaddr / pageSize % 512) e) root =
            (view X mc root).setPte (vaddr / pageSize) (mc₁.mem pt) e) := by
  obtain ⟨slot, mc₁, htr⟩ := traverse_false_eq_some mc root vaddr
  obtain ⟨hg, hview, hres⟩ := traverse_spec T hv hX htr
  have hview : view X mc₁ root = view X mc root := by simpa using hview
  refine ⟨mc₁, hg, hview, ?_⟩
  cases hpt : tableAt X mc₁ root 3 (region vaddr) with
  | none =>
    rw [hres, hpt] at htr
    refine .inl ⟨htr, fun pt h => ?_⟩
    rw [← hview] at h
    obtain ⟨f, hf, -⟩ := exists_table_of_view h
    simp [hf] at hpt
  | some pt =>
    rw [hres, hpt] at htr
    refine .inr ⟨pt, htr, by rw [← hview, view_table hpt], fun e => ?_⟩
    refine ⟨hg.trans (hg.tree.grows_write_pte hpt e), ?_⟩
    rw [(hg.tree.view_write_pte hpt e).2, hview]
    rfl

lemma updatePageFlags_acts (h : updatePageFlags mc root vaddr prot = some (done, mc')) :
    Acts X root mc ((view X mc root).updatePageFlags (vaddr / pageSize) prot) done mc' := by
  obtain ⟨mc₁, hg, hview, ⟨htr, hno⟩ | ⟨pt, htr, htab, hwrite⟩⟩ := traverse_false_cases T hv hX
  · simp only [updatePageFlags, htr] at h
    cases h
    unfold Space.updatePageFlags
    split
    · exact absurd ‹_› (hno _)
    · exact ⟨hg, rfl, hview⟩
  · simp only [updatePageFlags, htr] at h
    simp only [Space.updatePageFlags, htab]
    split_ifs at h ⊢ with h0
    · cases h
      exact ⟨hg, rfl, hview⟩
    · cases h
      exact ⟨(hwrite _).1, rfl, (hwrite _).2⟩

lemma unmapUserPage_acts (h : unmapUserPage mc root vaddr = some (res, mc')) :
    Acts X root mc ((view X mc root).unmapUserPage (vaddr / pageSize)) res mc' := by
  obtain ⟨mc₁, hg, hview, ⟨htr, hno⟩ | ⟨pt, htr, htab, hwrite⟩⟩ := traverse_false_cases T hv hX
  · simp only [unmapUserPage, htr] at h
    cases h
    unfold Space.unmapUserPage
    split
    · exact absurd ‹_› (hno _)
    · exact ⟨hg, rfl, hview⟩
  · simp only [unmapUserPage, htr] at h
    simp only [Space.unmapUserPage, htab]
    split_ifs at h ⊢ with h0
    · cases h
      exact ⟨hg, rfl, hview⟩
    · cases h
      exact ⟨(hwrite _).1, rfl, (hwrite _).2⟩

/-- The walk of an allocating leaf operation ends in the table of the touched
view, where it can write, or at a 2 MB leaf. -/
lemma view_of_traverse_true {pt : Frame} {i : ℕ}
    (h : traverse mc root vaddr true = some (some (pt, i), mc₁)) :
    Grows X root mc mc₁ ∧ view X mc₁ root = (view X mc root).touch (region vaddr) ∧
      (view X mc root).touch (region vaddr) (region vaddr) = .table (mc₁.mem pt) ∧
      i = vaddr / pageSize % 512 ∧ ∀ e, Grows X root mc (mc₁.write pt i e) ∧
        view X (mc₁.write pt i e) root =
          (view X mc root).setPte (vaddr / pageSize) (mc₁.mem pt) e := by
  obtain ⟨hg, hview, hres⟩ := traverse_spec T hv hX h
  rw [if_pos rfl] at hview
  obtain ⟨f, hf, hslot⟩ := map_eq_some_iff.mp hres.symm
  cases hslot
  refine ⟨hg, hview, by rw [← hview, view_table hf], rfl, fun e => ?_⟩
  refine ⟨hg.trans (hg.tree.grows_write_pte hf e), ?_⟩
  rw [(hg.tree.view_write_pte hf e).2, hview]
  simp [touch, setPte, region]

lemma huge_of_traverse_true (h : traverse mc root vaddr true = some (none, mc₁)) :
    Grows X root mc mc₁ ∧ view X mc₁ root = (view X mc root).touch (region vaddr) ∧
      ∃ e, view X mc root (region vaddr) = .huge e := by
  obtain ⟨hg, hview, hres⟩ := traverse_spec T hv hX h
  rw [if_pos rfl] at hview
  refine ⟨hg, hview, ?_⟩
  have hno : ∀ pt, (view X mc root (region vaddr)).touched ≠ .table pt := by
    intro pt hpt
    have hpt' : view X mc₁ root (region vaddr) = .table pt := by
      rw [hview, touch, update_self, hpt]
    obtain ⟨f, hf, -⟩ := exists_table_of_view hpt'
    simp [hf] at hres
  cases hvw : view X mc root (region vaddr) with
  | empty => exact absurd (by rw [hvw]; rfl) (hno 0)
  | table pt => exact absurd (by rw [hvw]; rfl) (hno pt)
  | huge e => exact ⟨e, rfl⟩

lemma mapPage_acts {attrs : PageAttrs} (h : mapPage mc root vaddr paddr attrs = some mc') :
    ∃ s, (view X mc root).mapPage (vaddr / pageSize) paddr attrs = some s ∧
      Acts X root mc ((), s) () mc' := by
  unfold mapPage at h
  split at h
  · rename_i pt i mc₁ htr
    cases h
    obtain ⟨-, -, htab, -, hwrite⟩ := view_of_traverse_true T hv hX htr
    refine ⟨_, ?_, (hwrite _).1, rfl, (hwrite _).2⟩
    simp only [Space.mapPage, htab]
    rfl
  · cases h

lemma tryMapUserPageWithProt_acts
    (h : tryMapUserPageWithProt mc root vaddr paddr prot = some (done, mc')) :
    Acts X root mc ((view X mc root).tryMapUserPageWithProt (vaddr / pageSize) paddr prot)
      done mc' := by
  unfold tryMapUserPageWithProt at h
  cases htr : traverse mc root vaddr true with
  | none => simp [htr] at h
  | some out =>
    obtain ⟨slot, mc₁⟩ := out
    cases slot with
    | none =>
      obtain ⟨hg, hview, e, he⟩ := huge_of_traverse_true T hv hX htr
      have htouch : (view X mc root).touch (region vaddr) = view X mc root :=
        touch_of_ne (by rw [he]; nofun)
      simp only [htr] at h
      cases h
      simp only [Space.tryMapUserPageWithProt, htouch, he]
      exact ⟨hg, rfl, by rw [hview, htouch]⟩
    | some slot =>
      obtain ⟨pt, i⟩ := slot
      obtain ⟨hg, hview, htab, rfl, hwrite⟩ := view_of_traverse_true T hv hX htr
      simp only [htr, compareExchangeZero, some.injEq] at h
      simp only [Space.tryMapUserPageWithProt, htab]
      split_ifs at h ⊢ with h0
      · cases h
        exact ⟨(hwrite _).1, rfl, (hwrite _).2⟩
      · cases h
        exact ⟨hg, rfl, hview⟩

end

/-- A page directory entry, read back from the view of its region. -/
lemma view_of_pde (T : Tree X mc root) (hX : r ∉ X) {pd : Frame}
    (hpd : tableAt X mc root 2 (r / 512) = some pd) :
    (if (mc.mem pd (r % 512)).isHugePagePde then
        (mc.mem pd (r % 512)).IsHugeLeaf ∧ view X mc root r = .huge (mc.mem pd (r % 512))
      else (view X mc root r).hugeEntry = none) ∧
    (mc.mem pd (r % 512) = 0 ↔ view X mc root r = .empty) := by
  have hin : InTree X 2 r := ⟨by omega, by omega, fun _ => hX⟩
  have hslot := T.slot 2 r pd hin hpd
  have hnext : tableAt X mc root 3 r = _ := node_succ hpd
  rcases hslot with h0 | hl | hh
  · have hno : hugeAt X mc root r = none := by
      simp [hugeAt, hpd, h0, Entry.isHugePagePde, empty]
    rw [h0, childTable_zero] at hnext
    rw [h0, if_neg (by simp [Entry.isHugePagePde, empty]), view_empty hno hnext]
    exact ⟨rfl, by simp⟩
  · rw [childTable_link hin hl] at hnext
    rw [if_neg (by simp [Entry.isHugePagePde, hl.permissive.not_huge]), view_table hnext]
    refine ⟨rfl, ?_⟩
    simp only [reduceCtorEq, iff_false]
    intro h0
    exact hl.frame_ne (by rw [h0]; rfl)
  · have hpde := (isHugePagePde_iff (.inr (.inr hh))).mpr hh.2
    have hview : view X mc root r = .huge (mc.mem pd (r % 512)) :=
      view_huge (by simp [hugeAt, hpd, hpde])
    rw [if_pos hpde, hview]
    refine ⟨⟨hh.2, rfl⟩, ?_⟩
    simp only [reduceCtorEq, iff_false]
    intro h0
    exact hh.2.frame_ne (by rw [h0]; rfl)

lemma view_of_no_pd (hpd : tableAt X mc root 2 (r / 512) = none) :
    view X mc root r = .empty :=
  view_empty (by simp [hugeAt, hpd]) (node_succ_none hpd)

section

variable (T : Tree X mc root) (hv : vaddr < 2 ^ 47) (hX : region vaddr ∉ X)
include T hv hX

lemma isHugeMapped_acts {res : Option Entry} (h : isHugeMapped mc root vaddr = some (res, mc')) :
    Acts X root mc ((view X mc root).isHugeMapped (vaddr / pageSize), view X mc root)
      res mc' := by
  obtain ⟨mc₁, htr, hg, hview⟩ := traverseToPd_false T hv
  cases hpd : tableAt X mc₁ root 2 (region vaddr / 512) with
  | none =>
    simp only [isHugeMapped, htr, hpd, map_none] at h
    cases h
    refine ⟨hg, ?_, hview⟩
    simp only [Space.isHugeMapped, ← hview, view_of_no_pd hpd]
    rfl
  | some pd =>
    have hpde := (view_of_pde hg.tree hX hpd).1
    simp only [isHugeMapped, htr, hpd, map_some] at h
    cases h
    refine ⟨hg, ?_, hview⟩
    simp only [Space.isHugeMapped, ← hview]
    split_ifs at hpde ⊢ with hh
    · rw [hpde.2]
      rfl
    · exact hpde.symm

lemma isPdeEmpty_acts {res : Bool} (h : isPdeEmpty mc root vaddr = some (res, mc')) :
    Acts X root mc ((view X mc root).isPdeEmpty (vaddr / pageSize), view X mc root)
      res mc' := by
  obtain ⟨mc₁, htr, hg, hview⟩ := traverseToPd_false T hv
  cases hpd : tableAt X mc₁ root 2 (region vaddr / 512) with
  | none =>
    simp only [isPdeEmpty, htr, hpd, map_none, some.injEq, Prod.mk.injEq] at h
    obtain ⟨rfl, rfl⟩ := h
    refine ⟨hg, ?_, hview⟩
    simp only [Space.isPdeEmpty, ← hview, view_of_no_pd hpd]
  | some pd =>
    have hpde := (view_of_pde hg.tree hX hpd).2
    simp only [isPdeEmpty, htr, hpd, map_some, some.injEq, Prod.mk.injEq] at h
    obtain ⟨rfl, rfl⟩ := h
    refine ⟨hg, ?_, hview⟩
    simp only [Space.isPdeEmpty, ← hview]
    cases hvw : view X mc₁ root (region vaddr) with
    | empty => exact decide_eq_true (hpde.mpr hvw)
    | table pt | huge e => exact decide_eq_false fun h0 => by simp [hpde.mp h0] at hvw

lemma updateHugePageFlags_acts (h : updateHugePageFlags mc root vaddr prot = some (done, mc')) :
    Acts X root mc ((view X mc root).updateHugePageFlags (vaddr / pageSize) prot) done mc' := by
  obtain ⟨mc₁, htr, hg, hview⟩ := traverseToPd_false T hv
  rw [← hview]
  cases hpd : tableAt X mc₁ root 2 (region vaddr / 512) with
  | none =>
    simp only [updateHugePageFlags, htr, hpd, map_none] at h
    cases h
    simp only [Space.updateHugePageFlags, view_of_no_pd hpd]
    exact ⟨hg, rfl, rfl⟩
  | some pd =>
    have hpde := (view_of_pde hg.tree hX hpd).1
    simp only [updateHugePageFlags, htr, hpd, map_some] at h
    split_ifs at h hpde with hh
    · cases h
      have hleaf : Entry.IsHugeLeaf
          ⟨(mc₁.mem pd (region vaddr % 512)).frame, .hugeOfProt prot⟩ :=
        ⟨rfl, rfl, hpde.1.frame_ne, hpde.1.aligned⟩
      have hnone : tableAt X mc₁ root 3 (region vaddr) = none :=
        (node_succ hpd).trans (childTable_huge hpde.1)
      simp only [Space.updateHugePageFlags, hpde.2]
      refine ⟨hg.trans (hg.tree.grows_write_pde hpd hnone hleaf hX), rfl, ?_⟩
      exact (hg.tree.view_write_pde hpd hnone hleaf).2
    · cases h
      unfold Space.updateHugePageFlags
      split
      · rename_i e he
        rw [he] at hpde
        cases hpde
      · exact ⟨hg, rfl, rfl⟩

lemma splitHugePage_acts (h : splitHugePage mc root vaddr = some (res, mc')) :
    Acts X root mc ((view X mc root).splitHugePage (vaddr / pageSize)) res mc' := by
  obtain ⟨mc₁, htr, hg, hview⟩ := traverseToPd_false T hv
  rw [← hview]
  cases hpd : tableAt X mc₁ root 2 (region vaddr / 512) with
  | none =>
    simp only [splitHugePage, htr, hpd, map_none] at h
    cases h
    simp only [Space.splitHugePage, view_of_no_pd hpd]
    exact ⟨hg, rfl, rfl⟩
  | some pd =>
    have hpde := (view_of_pde hg.tree hX hpd).1
    simp only [splitHugePage, htr, hpd, map_some] at h
    split_ifs at h hpde with hh
    · cases hfree : mc₁.free with
      | nil => simp [allocPages, hfree] at h
      | cons c fs =>
        simp only [allocPages, hfree] at h
        cases h
        have hpc : pd ≠ c := by
          rintro rfl
          exact hg.tree.free_apart pd (by simp [hfree]) ⟨2, _, hpd⟩
        have hmissing : tableAt X mc₁ root 3 (region vaddr) = none :=
          (node_succ hpd).trans (childTable_huge hpde.1)
        generalize hmc₂ : write _ pd (region vaddr % 512) _ = mc₂
        have hmem : ∀ f i, ¬(f = pd ∧ i = region vaddr % 512) → mc₂.mem f i =
            if f = c then splitTable (mc₁.mem pd (region vaddr % 512)) i
            else mc₁.mem f i := by
          intro f i hfi
          rw [← hmc₂, write_mem, if_neg hfi]
          by_cases hf : f = c
          · simp [hf, splitTable]
          · simp [hf]
        have L : Linked X root mc₁ mc₂ 2 (region vaddr) pd c := by
          refine ⟨inTree_region hX, hpd, hmissing, by simp [hfree], ?_, ?_, by omega, ?_⟩
          · simp [← hmc₂, hfree]
          · rw [← hmc₂, write_mem, if_pos ⟨rfl, rfl⟩]
          · intro f i hfc hfi
            rw [hmem f i hfi, if_neg hfc]
        have htable : mc₂.mem c = splitTable (mc₁.mem pd (region vaddr % 512)) := by
          funext i
          rw [hmem c i (fun hcon => hpc hcon.1.symm), if_pos rfl]
        simp only [Space.splitHugePage, hpde.2]
        refine ⟨hg.trans (L.grows hg.tree), rfl, ?_⟩
        rw [L.view_eq hg.tree, if_pos rfl, htable]
    · cases h
      unfold Space.splitHugePage
      split
      · rename_i e he
        rw [he] at hpde
        cases hpde
      · exact ⟨hg, rfl, rfl⟩

/-- Mapping a 2 MB leaf over a region without a table. -/
lemma mapHugeUserPage_acts (hne : paddr ≠ 0) (haligned : paddr % 512 = 0)
    (hfree : view X mc root (region vaddr) = .empty)
    (h : mapHugeUserPage mc root vaddr paddr prot = some mc') :
    Acts X root mc ((), (view X mc root).mapHugeUserPage (vaddr / pageSize) paddr prot)
      () mc' := by
  unfold mapHugeUserPage at h
  split at h
  · rename_i pd i mc₁ htr
    cases h
    obtain ⟨hg, hview, hslot, -⟩ := traverseToPd_spec T hv htr
    obtain ⟨f, hf, hpair⟩ := map_eq_some_iff.mp hslot.symm
    cases hpair
    have hnone : tableAt X mc₁ root 3 (region vaddr) = none := by
      cases hpt : tableAt X mc₁ root 3 (region vaddr) with
      | none => rfl
      | some pt =>
        rw [← hview, view_table hpt] at hfree
        cases hfree
    have hleaf : Entry.IsHugeLeaf ⟨paddr, .hugeOfProt prot⟩ := ⟨rfl, rfl, hne, haligned⟩
    refine ⟨hg.trans (hg.tree.grows_write_pde hf hnone hleaf hX), rfl, ?_⟩
    rw [(hg.tree.view_write_pde hf hnone hleaf).2, hview]
    rfl
  · cases h

end

/-- An empty address space with root 1 and four frames left. -/
def freshMachine : Machine := ⟨fun _ _ => 0, [2, 3, 4, 5]⟩

/-- The same with one writable 2 MB leaf on the frames from 512 on. -/
def oneHugeLeaf : Machine :=
  (mapHugeUserPage freshMachine 1 0x200000 512 .rw).getD freshMachine

lemma oneHugeLeaf_eq :
    mapHugeUserPage freshMachine 1 0x200000 512 .rw = some oneHugeLeaf := rfl

lemma oneHugeLeaf_view : WellFormed oneHugeLeaf 1 ∧
    view ∅ oneHugeLeaf 1 = update (fun _ => .empty) 1 (.huge ⟨512, .hugeOfProt .rw⟩) := by
  obtain ⟨T, hview⟩ := tree_of_empty_root ∅ freshMachine 1 (fun _ _ => rfl) (by decide)
    (by decide) (by decide)
  have hA := mapHugeUserPage_acts T (by norm_num) (notMem_empty _) (by norm_num)
    (by norm_num) (by rw [hview]) oneHugeLeaf_eq
  have hleaf : view ∅ oneHugeLeaf 1 =
      update (fun _ => .empty) 1 (.huge ⟨512, .hugeOfProt .rw⟩) := by
    rw [hA.view_eq, hview]
    rfl
  have hused : ∀ f : ℕ, IsTable ∅ oneHugeLeaf 1 f ∨ f ∈ oneHugeLeaf.free → 1 ≤ f ∧ f ≤ 5 := by
    intro f hf
    rcases hA.grows.taken f hf with ⟨d, q, hq⟩ | hf
    · have hroot : f = 1 := by
        cases d with
        | zero =>
          by_cases h0 : q = 0
          · subst h0
            exact (some.inj hq).symm
          · rw [show node 512 _ _ _ 0 q = none from if_neg h0] at hq
            cases hq
        | succ d =>
          obtain ⟨s, -, hchild⟩ := exists_parent hq
          cases hchild
      omega
    · simp only [freshMachine, List.mem_cons, List.not_mem_nil, or_false] at hf
      rcases hf with rfl | rfl | rfl | rfl <;> norm_num
  refine ⟨⟨hA.grows.tree, ?_, ?_, ?_⟩, hleaf⟩
  · intro r pt j hr
    rw [hleaf, update_apply] at hr
    split_ifs at hr
  · intro page hlo hhi f hf hcon
    have hzero : oneHugeLeaf.mem 1 (page / 512 / 512 / 512 % 512) = 0 := hA.grows.upper _ (by omega)
    have hnull : oneHugeLeaf.mem 0 = 0 :=
      hA.grows.data 0 fun h0 => absurd (hused 0 (by
        rcases h0 with ⟨d, q, hq⟩ | h0
        · exact .inl ⟨d, q, hA.grows.tables d q 0 hq⟩
        · exact absurd h0 (by decide))) (by omega)
    have hf : f = 0 := by simpa [walkFrames, hzero, hnull] using hf
    exact absurd (hused 0 (hf ▸ hcon)) (by omega)
  · intro r e he hcon
    rw [← hugeEntry_view, hleaf] at he
    have hframe : e.frame = 512 := by
      by_cases h1 : r = 1
      · rw [h1, update_self] at he
        rw [← some.inj he]
      · rw [update_of_ne h1] at he
        cases he
    exact absurd (hused 512 (hframe ▸ hcon)) (by omega)

lemma lookupPaddr_acts (T : Tree X mc root) (hv : vaddr < 2 ^ 47) (hX : region vaddr ∉ X)
    (h : lookupPaddr mc root vaddr = some (res, mc')) :
    Acts X root mc ((view X mc root).lookupPaddr (vaddr / pageSize), view X mc root)
      res mc' := by
  have hoffset : vaddr % hugePageSize / pageSize = vaddr / pageSize % 512 := by
    unfold hugePageSize pageSize
    omega
  have hviaHuge : ∀ {mc₁ mc₂ pde}, Grows X root mc mc₁ → view X mc₁ root = view X mc root →
      (∀ pt, view X mc root (region vaddr) = .table pt →
        (pt (vaddr / pageSize % 512)).frame = 0) →
      isHugeMapped mc₁ root vaddr = some (pde, mc₂) →
      Acts X root mc ((view X mc root).lookupPaddr (vaddr / pageSize), view X mc root)
        (pde.map fun e => e.frame + vaddr % hugePageSize / pageSize) mc₂ := by
    intro mc₁ mc₂ pde hg hview htable hm
    obtain ⟨hg', hpde, hview'⟩ := isHugeMapped_acts hg.tree hv hX hm
    refine ⟨hg.trans hg', ?_, by rw [hview', hview]⟩
    simp only [Space.isHugeMapped, hview] at hpde
    simp only [hpde, hoffset, Space.lookupPaddr]
    cases hvw : view X mc root (region vaddr) with
    | empty | huge e => rfl
    | table pt =>
      simp only [htable pt hvw]
      rfl
  obtain ⟨mc₁, hg, hview, ⟨htr, hno⟩ | ⟨pt, htr, htab, -⟩⟩ := traverse_false_cases T hv hX
  · simp only [lookupPaddr, htr] at h
    split at h
    · cases h
    · next hm =>
      cases h
      exact hviaHuge hg hview (fun pt hpt => absurd hpt (hno pt)) hm
  · simp only [lookupPaddr, htr] at h
    split_ifs at h with h0
    · cases h
      refine ⟨hg, ?_, hview⟩
      simp only [Space.lookupPaddr, htab]
      exact (if_pos h0).symm
    · split at h
      · cases h
      · next hm =>
        cases h
        refine hviaHuge hg hview (fun pt' hpt' => ?_) hm
        rw [htab] at hpt'
        rw [← PdeView.table.inj hpt']
        exact not_not.mp h0

/-- Splitting a 2 MB leaf leaves none and changes no translation, of the region or elsewhere:
the new table holds the pages of the leaf with its flags, and the entry that
links it restricts nothing. -/
theorem splitHugePage_translate {e : Entry} (T : Tree ∅ mc root) (hv : vaddr < 2 ^ 47)
    (hkernel : ∀ page, 2 ^ 35 ≤ page → page < 2 ^ 36 → ∀ f ∈ walkFrames mc.mem root page,
      ¬(IsTable ∅ mc root f ∨ f ∈ mc.free))
    (hleaf : hugeAt ∅ mc root (region vaddr) = some e)
    (h : splitHugePage mc root vaddr = some (res, mc')) :
    res = some e.frame ∧ hugeAt ∅ mc' root (region vaddr) = none ∧
      (∀ page < 2 ^ 36, translate mc'.mem root page = translate mc.mem root page) ∧
      (∀ page < 2 ^ 35, page / 512 = region vaddr →
        translate mc'.mem root page = some ⟨e.frame + page % 512, e.attrs.clearHuge⟩) ∧
      ∀ vaddr' < 2 ^ 47, ∀ res₁ mc₁ res₂ mc₂, lookupPaddr mc root vaddr' = some (res₁, mc₁) →
        lookupPaddr mc' root vaddr' = some (res₂, mc₂) → res₂ = res₁ := by
  have hA := splitHugePage_acts T hv (notMem_empty _) h
  have hview := view_huge hleaf
  obtain ⟨hpresent, -, hne, -⟩ := T.isHugeLeaf (notMem_empty _) hleaf
  have hsplit : (view ∅ mc root).splitHugePage (vaddr / pageSize) =
      (some e.frame, update (view ∅ mc root) (region vaddr) (.table (Space.splitTable e))) := by
    simp only [Space.splitHugePage, show vaddr / pageSize / 512 = region vaddr from rfl, hview]
  rw [hsplit] at hA
  obtain ⟨hgrows, rfl, hview' : view ∅ mc' root = update _ _ _⟩ := hA
  have htable : ∀ page, page / 512 = region vaddr →
      view ∅ mc' root (page / 512) = .table (Space.splitTable e) := by
    intro page hpage
    rw [hview', hpage, update_self]
  have hother : ∀ page, page / 512 ≠ region vaddr →
      view ∅ mc' root (page / 512) = view ∅ mc root (page / 512) := by
    intro page hpage
    rw [hview', update_of_ne hpage]
  have hpte : ∀ page, Space.splitTable e (page % 512) =
      ⟨e.frame + page % 512, e.attrs.clearHuge⟩ :=
    fun page => if_pos (Nat.mod_lt _ (by norm_num))
  have hpages : ∀ page < 2 ^ 35, page / 512 = region vaddr →
      translate mc'.mem root page = some ⟨e.frame + page % 512, e.attrs.clearHuge⟩ := by
    intro page hlt hpage
    rw [translate_eq_view hgrows.tree hlt (notMem_empty _),
      translate_of_table (htable page hpage), hpte]
    exact if_pos hpresent
  refine ⟨rfl, ?_, fun page hhi => ?_, hpages, ?_⟩
  · rw [← hugeEntry_view, hview', update_self]
    rfl
  · by_cases hlt : page < 2 ^ 35
    · by_cases hpage : page / 512 = region vaddr
      · rw [hpages page hlt hpage, translate_eq_view T hlt (notMem_empty _)]
        exact (translate_of_huge (hpage ▸ hview)).symm
      · rw [translate_eq_view hgrows.tree hlt (notMem_empty _),
          translate_eq_view T hlt (notMem_empty _)]
        simp only [Space.translate, hother page hpage]
    · exact translate_kernel (by omega) hhi (hkernel page (by omega) hhi) hgrows.upper hgrows.data
  · intro vaddr' hv' res₁ mc₁ res₂ mc₂ h₁ h₂
    rw [(lookupPaddr_acts T hv' (notMem_empty _) h₁).result_eq,
      (lookupPaddr_acts hgrows.tree hv' (notMem_empty _) h₂).result_eq]
    simp only [Space.lookupPaddr]
    by_cases hpage : vaddr' / pageSize / 512 = region vaddr
    · rw [htable _ hpage, hpage, hview]
      simp [hpte, hne]
    · rw [hother _ hpage]

theorem splitHugePage_translate_oneHugeLeaf :
    ∃ mc', splitHugePage oneHugeLeaf 1 0x200000 = some (some 512, mc') ∧
      translate mc'.mem 1 513 = translate oneHugeLeaf.mem 1 513 := by
  obtain ⟨hw, hview⟩ := oneHugeLeaf_view
  have hleaf : hugeAt ∅ oneHugeLeaf 1 (region 0x200000) = some ⟨512, .hugeOfProt .rw⟩ := by
    rw [← hugeEntry_view, hview]
    rfl
  refine ⟨_, rfl, ?_⟩
  exact (splitHugePage_translate hw.tree (by norm_num) hw.kernel hleaf rfl).2.2.1 513 (by norm_num)

end PageTable

end Kevlar
