import Kevlar.PageWalk

/-!
# Changing the protection of a range

The loop of `sys_mprotect` moves a cursor over the range, in steps of 2 MB
where it stands at the start of a 2 MB leaf that lies in the range and in steps
of 4 KB elsewhere. Below it is compared with a closed form of the address space
it leaves. TLB flushes are not modelled; they do not change the tables.
-/
namespace Kevlar
open PageTable Space Function Finset

namespace PageTable

def mprotectPage (mc : Machine) (pml4 : Frame) (cursor : ℕ) (prot : MMapProt) :
    Option (ℕ × Machine) :=
  (updatePageFlags mc pml4 cursor prot).map fun r => (wadd cursor pageSize, r.2)

/-- One turn of the loop: the new cursor and the machine. -/
def mprotectStep (mc : Machine) (pml4 : Frame) (cursor endValue : ℕ) (prot : MMapProt) :
    Option (ℕ × Machine) :=
  if cursor = 0 then none
  else if isAligned cursor hugePageSize then
    match isHugeMapped mc pml4 cursor with
    | none => none
    | some (none, mc') => mprotectPage mc' pml4 cursor prot
    | some (some _, mc') =>
      if wadd cursor hugePageSize ≤ endValue then
        (updateHugePageFlags mc' pml4 cursor prot).map fun r => (wadd cursor hugePageSize, r.2)
      else
        match splitHugePage mc' pml4 cursor with
        | none => none
        | some (_, mc'') => mprotectPage mc'' pml4 cursor prot
  else mprotectPage mc pml4 cursor prot

/-- Every turn moves the cursor by a page at least, so the number of pages in
the range bounds the number of turns. -/
def mprotectLoop (pml4 : Frame) (endValue : ℕ) (prot : MMapProt) :
    ℕ → ℕ → Machine → Option Machine
  | 0, _, mc => some mc
  | fuel + 1, cursor, mc =>
    if cursor < endValue then
      match mprotectStep mc pml4 cursor endValue prot with
      | none => none
      | some (cursor', mc') => mprotectLoop pml4 endValue prot fuel cursor' mc'
    else some mc

end PageTable

/-- `sys_mprotect`; the outer `none` is a kernel panic. -/
def sysMprotect (vm : Vm) (mc : Machine) (addr len : ℕ) (prot : MMapProt) :
    Option (Except Errno Unit × Vm × Machine) :=
  if isAligned addr pageSize = false then some (.error .EINVAL, vm, mc)
  else if len = 0 then some (.ok (), vm, mc)
  else
    let aligned := alignUp len pageSize
    match vm.updateProtRange addr aligned prot with
    | (.error e, vm') => some (.error e, vm', mc)
    | (.ok _, vm') =>
      let endValue := wadd addr aligned
      (PageTable.mprotectLoop vm.pml4 endValue prot ((endValue - addr) / pageSize) addr mc).map
        fun mc' => (.ok (), vm', mc')

namespace Space

/-- The turn of the loop on abstract address spaces, with the cursor and the
end of the range as page numbers. -/
def mprotectStep (s : Space) (cur stop : ℕ) (prot : MMapProt) : ℕ × Space :=
  if cur % 512 = 0 ∧ (s.isHugeMapped cur).isSome then
    if cur + 512 ≤ stop then (cur + 512, (s.updateHugePageFlags cur prot).2)
    else (cur + 1, ((s.splitHugePage cur).2.updatePageFlags cur prot).2)
  else (cur + 1, (s.updatePageFlags cur prot).2)

/-- The entries of region `r` after the pages of `[first, cur)` were updated. -/
def protectTable (prot : MMapProt) (first cur r : ℕ) (pt : ℕ → Entry) : ℕ → Entry := fun j =>
  if j < 512 ∧ first ≤ r * 512 + j ∧ r * 512 + j < cur ∧ (pt j).frame ≠ 0 then
    ⟨(pt j).frame, PageTable.updatedAttrs prot⟩
  else pt j

/-- The address space when the loop over the pages `[first, stop)` stands at
`cur`. A 2 MB leaf that starts before `first` is left as it is. -/
def protectedTo (s : Space) (first cur stop : ℕ) (prot : MMapProt) : Space := fun r =>
  match s r with
  | .empty => .empty
  | .table pt => .table (protectTable prot first cur r pt)
  | .huge e =>
    if first ≤ r * 512 ∧ r * 512 < cur then
      if (r + 1) * 512 ≤ stop then .huge ⟨e.frame, .hugeOfProt prot⟩
      else .table (protectTable prot first cur r (splitTable e))
    else .huge e

section

variable {prot : MMapProt} {first cur stop r : ℕ} {pt : ℕ → Entry} {e : Entry} {s : Space}

lemma protectTable_empty (h : cur ≤ first ∨ cur ≤ r * 512) :
    protectTable prot first cur r pt = pt := by
  funext j
  rw [protectTable, if_neg (by omega)]

lemma protectTable_succ_of_ne {j : ℕ} (hj : j ≠ cur % 512) :
    protectTable prot first (cur + 1) (cur / 512) pt j =
      protectTable prot first cur (cur / 512) pt j := by
  unfold protectTable
  split_ifs with h h' h'
  · rfl
  · exact absurd ⟨h.1, h.2.1, by omega, h.2.2.2⟩ h'
  · exact absurd ⟨h'.1, h'.2.1, by omega, h'.2.2.2⟩ h
  · rfl

lemma protectTable_at_cur :
    protectTable prot first cur (cur / 512) pt (cur % 512) = pt (cur % 512) := by
  rw [protectTable, if_neg (by omega)]

/-- One more page is one `update_page_flags` in its own region. -/
lemma updatePageFlags_protectTable (hfirst : first ≤ cur)
    (hs : s (cur / 512) = .table (protectTable prot first cur (cur / 512) pt)) :
    (s.updatePageFlags cur prot).2 =
      update s (cur / 512)
        (.table (protectTable prot first (cur + 1) (cur / 512) pt)) := by
  simp only [updatePageFlags, hs, protectTable_at_cur]
  split_ifs with hzero
  · have hsame : protectTable prot first (cur + 1) (cur / 512) pt =
        protectTable prot first cur (cur / 512) pt := by
      funext j
      by_cases hj : j = cur % 512
      · subst hj
        simp [protectTable, hzero]
      · exact protectTable_succ_of_ne hj
    rw [hsame, ← hs, update_eq_self]
  · have hstep : protectTable prot first (cur + 1) (cur / 512) pt =
        update (protectTable prot first cur (cur / 512) pt) (cur % 512)
          ⟨(pt (cur % 512)).frame, updatedAttrs prot⟩ := by
      funext j
      by_cases hj : j = cur % 512
      · subst hj
        rw [update_self, protectTable, if_pos ⟨by omega, by omega, by omega, hzero⟩]
      · rw [update_of_ne hj]
        exact protectTable_succ_of_ne hj
    rw [hstep]
    rfl

variable {cur' p : ℕ}

section

variable (hle : cur ≤ cur') (hr : ∀ c, cur ≤ c → c < cur' → c / 512 ≠ r)
include hle hr

lemma protectTable_other :
    protectTable prot first cur' r pt = protectTable prot first cur r pt := by
  funext j
  unfold protectTable
  split_ifs with h h' h'
  · rfl
  · by_cases hc : cur ≤ r * 512 + j
    · exact absurd (by omega) (hr _ hc h.2.2.1)
    · exact absurd ⟨h.1, h.2.1, by omega, h.2.2.2⟩ h'
  · exact absurd ⟨h'.1, h'.2.1, by omega, h'.2.2.2⟩ h
  · rfl

/-- Moving the cursor does not touch the regions it does not pass through. -/
lemma protectedTo_other :
    s.protectedTo first cur' stop prot r = s.protectedTo first cur stop prot r := by
  have hstart : r * 512 < cur' ↔ r * 512 < cur := by
    constructor
    · intro h
      by_contra hcon
      exact absurd (by omega) (hr (r * 512) (by omega) h)
    · omega
  unfold protectedTo
  cases s r with
  | empty => rfl
  | table pt => simp only [protectTable_other hle hr]
  | huge e => simp only [protectTable_other hle hr, hstart]

end

lemma protectedTo_eq_update {v : PdeView} (hle : cur ≤ cur')
    (hin : ∀ c, cur ≤ c → c < cur' → c / 512 = cur / 512)
    (hv : s.protectedTo first cur' stop prot (cur / 512) = v) :
    s.protectedTo first cur' stop prot =
      update (s.protectedTo first cur stop prot) (cur / 512) v := by
  funext r
  by_cases hr : r = cur / 512
  · rw [hr, update_self, hv]
  · rw [update_of_ne hr]
    refine protectedTo_other hle fun c h h' heq => hr ?_
    rw [← heq, hin c h h']

lemma protectedTo_start : s.protectedTo first first stop prot = s := by
  funext r
  unfold protectedTo
  cases hs : s r with
  | empty => rfl
  | table pt => simp only [protectTable_empty (.inl le_rfl)]
  | huge e => simp only [if_neg (show ¬(first ≤ r * 512 ∧ r * 512 < first) by omega)]

/-- What a protection allows of a translation; `PROT_NONE` allows none. -/
def GrantsOnly (prot : MMapProt) (t : Option Entry) : Prop :=
  ∀ e, t = some e → (e.attrs.writable = true → prot.write = true) ∧
    (e.attrs.noExecute = false → prot.exec = true) ∧ prot ≠ .none

lemma grantsOnly_none : GrantsOnly prot none := fun _ h => absurd h (by simp)

lemma grantsOnly_congr {e e' : Entry} (hw : e.attrs.writable = e'.attrs.writable)
    (hx : e.attrs.noExecute = e'.attrs.noExecute) :
    GrantsOnly prot (some e) ↔ GrantsOnly prot (some e') := by
  simp [GrantsOnly, hw, hx]

lemma grantsOnly_ofProt (f : Frame) :
    GrantsOnly prot (some ⟨f, .ofProt prot⟩) ↔ prot ≠ .none := by
  simp [GrantsOnly, PageAttrs.ofProt]

/-- An entry without a frame is the zero entry, and a 2 MB leaf is proper. -/
structure LeavesOk (s : Space) : Prop where
  pte : ∀ r pt j, s r = .table pt → (pt j).frame = 0 → pt j = 0
  huge : ∀ r e, s r = .huge e → e.IsHugeLeaf

/-- The translation left by the loop outside the range. -/
lemma translate_outside (hs : s.LeavesOk) (hp : ¬(first ≤ p ∧ p < stop)) :
    (s.protectedTo first stop stop prot).translate p = s.translate p := by
  have hsame : ∀ pt, protectTable prot first stop (p / 512) pt (p % 512) = pt (p % 512) := by
    intro pt
    rw [protectTable, if_neg (by omega)]
  cases hr : s (p / 512) with
  | empty =>
    rw [translate_of_empty hr, translate_of_empty]
    simp only [protectedTo, hr]
  | table pt =>
    have hF : s.protectedTo first stop stop prot (p / 512) =
        .table (protectTable prot first stop (p / 512) pt) := by
      simp only [protectedTo, hr]
    rw [translate_of_table hr, translate_of_table hF, hsame]
  | huge e =>
    by_cases hin : first ≤ p / 512 * 512 ∧ p / 512 * 512 < stop
    · have hF : s.protectedTo first stop stop prot (p / 512) =
          .table (protectTable prot first stop (p / 512) (splitTable e)) := by
        simp only [protectedTo, hr]
        rw [if_pos hin, if_neg (by omega)]
      have hentry : splitTable e (p % 512) = ⟨e.frame + p % 512, e.attrs.clearHuge⟩ :=
        if_pos (Nat.mod_lt p (by omega))
      have hpresent : e.attrs.clearHuge.present = true := (hs.huge _ e hr).present
      rw [translate_of_huge hr, translate_of_table hF, hsame, hentry, if_pos hpresent]
    · rw [translate_of_huge hr, translate_of_huge]
      simp only [protectedTo, hr]
      rw [if_neg hin]

/-- The entry of a page in the range complies after the update. -/
lemma grantsOnly_protectTable (hp : first ≤ p ∧ p < stop)
    (hpt : (pt (p % 512)).frame = 0 → pt (p % 512) = 0) :
    GrantsOnly prot
      (if (protectTable prot first stop (p / 512) pt (p % 512)).attrs.present = true then
        some (protectTable prot first stop (p / 512) pt (p % 512)) else none) := by
  by_cases hz : (pt (p % 512)).frame = 0
  · have hentry : protectTable prot first stop (p / 512) pt (p % 512) = 0 := by
      rw [protectTable, if_neg (fun h => h.2.2.2 hz)]
      exact hpt hz
    rw [hentry]
    exact grantsOnly_none
  · have hentry : protectTable prot first stop (p / 512) pt (p % 512) =
        ⟨(pt (p % 512)).frame, updatedAttrs prot⟩ :=
      if_pos ⟨Nat.mod_lt p (by omega), by omega, by omega, hz⟩
    rw [hentry]
    by_cases hnone : prot = .none
    · rw [if_neg (by simp [updatedAttrs, hnone, PageAttrs.empty])]
      exact grantsOnly_none
    · simp only [updatedAttrs, if_neg hnone]
      exact (grantsOnly_ofProt _).mpr hnone

/-- The translation left by the loop inside the range complies, except under a
2 MB leaf that starts before the range or is made `PROT_NONE` as a whole. -/
lemma grantsOnly_inside (hs : s.LeavesOk) (hp : first ≤ p ∧ p < stop) :
    GrantsOnly prot ((s.protectedTo first stop stop prot).translate p) ↔
      ∀ e, s (p / 512) = .huge e →
        (p / 512 * 512 < first → GrantsOnly prot (some e)) ∧
        (first ≤ p / 512 * 512 → (p / 512 + 1) * 512 ≤ stop → prot ≠ .none) := by
  cases hr : s (p / 512) with
  | empty =>
    have hF : s.protectedTo first stop stop prot (p / 512) = .empty := by
      simp only [protectedTo, hr]
    rw [translate_of_empty hF]
    simp [grantsOnly_none]
  | table pt =>
    have hF : s.protectedTo first stop stop prot (p / 512) =
        .table (protectTable prot first stop (p / 512) pt) := by
      simp only [protectedTo, hr]
    rw [translate_of_table hF]
    simp only [reduceCtorEq, false_imp_iff, implies_true, iff_true]
    exact grantsOnly_protectTable hp fun hz => hs.pte _ pt _ hr hz
  | huge e =>
    have hone : ∀ P : Entry → Prop, (∀ e', PdeView.huge e = .huge e' → P e') ↔ P e := by
      intro P
      simp
    rw [hone]
    by_cases hin : first ≤ p / 512 * 512
    · by_cases hwhole : (p / 512 + 1) * 512 ≤ stop
      · have hF : s.protectedTo first stop stop prot (p / 512) =
            .huge ⟨e.frame, .hugeOfProt prot⟩ := by
          simp only [protectedTo, hr]
          rw [if_pos ⟨hin, by omega⟩, if_pos hwhole]
        rw [translate_of_huge hF]
        simp only [hin, hwhole, true_imp_iff, not_lt.mpr hin, false_imp_iff, true_and]
        exact grantsOnly_ofProt _
      · have hF : s.protectedTo first stop stop prot (p / 512) =
            .table (protectTable prot first stop (p / 512) (splitTable e)) := by
          simp only [protectedTo, hr]
          rw [if_pos ⟨hin, by omega⟩, if_neg hwhole]
        rw [translate_of_table hF]
        simp only [hwhole, false_imp_iff, imp_true_iff, not_lt.mpr hin, and_true, iff_true]
        apply grantsOnly_protectTable hp
        have hne := (hs.huge _ e hr).frame_ne
        intro hz
        rw [splitTable, if_pos (Nat.mod_lt p (by omega))] at hz
        exact absurd (Nat.eq_zero_of_add_eq_zero_right hz) hne
    · have hF : s.protectedTo first stop stop prot (p / 512) = .huge e := by
        simp only [protectedTo, hr]
        rw [if_neg (fun h => hin h.1)]
      rw [translate_of_huge hF]
      simp only [hin, false_imp_iff, and_true, not_le.mp hin, true_imp_iff]
      exact grantsOnly_congr rfl rfl

/-- The cursor never stands inside a 2 MB leaf that the loop updates as a
whole: those are passed in one step. -/
def Outside (s : Space) (first cur stop : ℕ) : Prop :=
  ∀ e, s (cur / 512) = .huge e → cur % 512 ≠ 0 → first ≤ cur / 512 * 512 →
    stop < (cur / 512 + 1) * 512

/-- One turn of the loop takes the closed form at the cursor to the closed
form at the next cursor. -/
lemma mprotectStep_protectedTo (prot : MMapProt) (hfirst : first ≤ cur) (hcur : cur < stop)
    (hout : s.Outside first cur stop) :
    ∃ cur', cur < cur' ∧ cur' ≤ stop ∧ s.Outside first cur' stop ∧
      (s.protectedTo first cur stop prot).mprotectStep cur stop prot =
        (cur', s.protectedTo first cur' stop prot) := by
  have hnext : ∀ c, cur ≤ c → c < cur + 1 → c / 512 = cur / 512 := by
    intro c h h'
    rw [show c = cur by omega]
  have hout' : (∀ e, s (cur / 512) = .huge e → cur % 512 = 0 → stop < cur + 512) →
      s.Outside first (cur + 1) stop := by
    intro hpart e he hmod hle
    have hdiv : (cur + 1) / 512 = cur / 512 := by omega
    rw [hdiv] at he hle ⊢
    by_cases h0 : cur % 512 = 0
    · have := hpart e he h0
      omega
    · exact hout e he h0 hle
  unfold mprotectStep isHugeMapped
  cases hs : s (cur / 512) with
  | empty =>
    have hr : ∀ c, s.protectedTo first c stop prot (cur / 512) = .empty := by
      intro c
      simp only [protectedTo, hs]
    refine ⟨cur + 1, by omega, by omega, hout' (by simp [hs]), ?_⟩
    rw [hr, if_neg (by simp [PdeView.hugeEntry])]
    simp only [updatePageFlags, hr, Prod.mk.injEq, true_and]
    rw [protectedTo_eq_update (by omega) hnext (hr (cur + 1)), ← hr cur, update_eq_self]
  | table pt =>
    have hr : ∀ c, s.protectedTo first c stop prot (cur / 512) =
        .table (protectTable prot first c (cur / 512) pt) := by
      intro c
      simp only [protectedTo, hs]
    refine ⟨cur + 1, by omega, by omega, hout' (by simp [hs]), ?_⟩
    rw [hr, if_neg (by simp [PdeView.hugeEntry])]
    rw [protectedTo_eq_update (by omega) hnext (hr (cur + 1)),
      updatePageFlags_protectTable hfirst (hr cur)]
  | huge e =>
    by_cases hinside : cur % 512 = 0
    · have hstart : cur / 512 * 512 = cur := by omega
      have hnow : s.protectedTo first cur stop prot (cur / 512) = .huge e := by
        simp only [protectedTo, hs, hstart]
        rw [if_neg (by omega)]
      rw [hnow, if_pos ⟨hinside, rfl⟩]
      by_cases hwhole : cur + 512 ≤ stop
      · have hdone : s.protectedTo first (cur + 512) stop prot (cur / 512) =
            .huge ⟨e.frame, .hugeOfProt prot⟩ := by
          simp only [protectedTo, hs, hstart]
          rw [if_pos (by omega), if_pos (by omega)]
        refine ⟨cur + 512, by omega, hwhole, fun _ _ h => absurd (by omega) h, ?_⟩
        rw [if_pos hwhole, protectedTo_eq_update (by omega) (by omega) hdone]
        simp only [updateHugePageFlags, hnow]
      · have hdone : s.protectedTo first (cur + 1) stop prot (cur / 512) =
            .table (protectTable prot first (cur + 1) (cur / 512) (splitTable e)) := by
          simp only [protectedTo, hs, hstart]
          rw [if_pos (by omega), if_neg (by omega)]
        have hsplit : ((s.protectedTo first cur stop prot).splitHugePage cur).2 =
            update (s.protectedTo first cur stop prot) (cur / 512)
              (.table (protectTable prot first cur (cur / 512) (splitTable e))) := by
          simp only [splitHugePage, hnow]
          rw [protectTable_empty (.inr (by omega))]
        refine ⟨cur + 1, by omega, by omega, hout' fun _ _ _ => by omega, ?_⟩
        rw [if_neg hwhole, protectedTo_eq_update (by omega) hnext hdone, hsplit,
          updatePageFlags_protectTable hfirst (update_self ..), update_idem]
    · rw [if_neg (by simp [hinside])]
      refine ⟨cur + 1, by omega, by omega, hout' fun _ _ h => absurd h hinside, ?_⟩
      by_cases hle : first ≤ cur / 512 * 512
      · have hpart := hout e hs hinside hle
        have hr : ∀ c, cur ≤ c → s.protectedTo first c stop prot (cur / 512) =
            .table (protectTable prot first c (cur / 512) (splitTable e)) := by
          intro c hc
          simp only [protectedTo, hs]
          rw [if_pos (by omega), if_neg (by omega)]
        rw [protectedTo_eq_update (by omega) hnext (hr (cur + 1) (by omega)),
          updatePageFlags_protectTable hfirst (hr cur le_rfl)]
      · have hr : ∀ c, s.protectedTo first c stop prot (cur / 512) = .huge e := by
          intro c
          simp only [protectedTo, hs]
          rw [if_neg (by omega)]
        simp only [updatePageFlags, hr, Prod.mk.injEq, true_and]
        rw [protectedTo_eq_update (by omega) hnext (hr (cur + 1)), ← hr cur, update_eq_self]

end

end Space

namespace PageTable

variable {mc mc' : Machine} {pml4 : Frame} {prot : MMapProt} {cur stop next : ℕ}

lemma mprotectPage_acts (T : Tree ∅ mc pml4) (hcur : cur * pageSize < 2 ^ 47)
    (h : mprotectPage mc pml4 (cur * pageSize) prot = some (next, mc')) :
    next = (cur + 1) * pageSize ∧ Grows ∅ pml4 mc mc' ∧
      view ∅ mc' pml4 = ((view ∅ mc pml4).updatePageFlags cur prot).2 := by
  obtain ⟨⟨done, mc₁⟩, hu, hout⟩ := Option.map_eq_some_iff.mp h
  obtain ⟨rfl, rfl⟩ := Prod.mk.inj hout
  have hA := updatePageFlags_acts T hcur (notMem_empty _) hu
  rw [Nat.mul_div_cancel cur pageSize_pos] at hA
  refine ⟨?_, hA.grows, hA.view_eq⟩
  have hlt : cur * pageSize + pageSize < 2 ^ 64 := by
    have hsize : pageSize < 2 ^ 47 := by norm_num [pageSize]
    omega
  rw [wadd_of_lt hlt]
  ring

/-- A turn of the loop on the machine is a turn on the view. -/
lemma mprotectStep_acts (T : Tree ∅ mc pml4) (hstop : stop * pageSize ≤ 2 ^ 47)
    (hcur : cur < stop)
    (h : mprotectStep mc pml4 (cur * pageSize) (stop * pageSize) prot = some (next, mc')) :
    next = ((view ∅ mc pml4).mprotectStep cur stop prot).1 * pageSize ∧
      Grows ∅ pml4 mc mc' ∧
      view ∅ mc' pml4 = ((view ∅ mc pml4).mprotectStep cur stop prot).2 := by
  have hv : cur * pageSize < 2 ^ 47 := by
    unfold pageSize at *
    omega
  have hpage : cur * pageSize / pageSize = cur := Nat.mul_div_cancel cur pageSize_pos
  have haligned : isAligned (cur * pageSize) hugePageSize = true ↔ cur % 512 = 0 := by
    rw [isAligned_iff]
    unfold hugePageSize pageSize
    omega
  unfold mprotectStep at h
  unfold Space.mprotectStep
  by_cases h0 : cur * pageSize = 0
  · rw [if_pos h0] at h
    cases h
  rw [if_neg h0] at h
  by_cases hal : isAligned (cur * pageSize) hugePageSize = true
  · have hmod := haligned.mp hal
    rw [if_pos hal] at h
    cases hm : isHugeMapped mc pml4 (cur * pageSize) with
    | none => simp [hm] at h
    | some out =>
      obtain ⟨pde, mc₁⟩ := out
      have hA := isHugeMapped_acts T hv (notMem_empty _) hm
      rw [hpage] at hA
      obtain ⟨hg, hpde, hview⟩ := hA
      change pde = (view ∅ mc pml4).isHugeMapped cur at hpde
      cases hcase : pde with
      | none =>
        simp only [hm, hcase] at h
        rw [if_neg (by simp [← hpde, hcase])]
        obtain ⟨hnext, hg', hview'⟩ := mprotectPage_acts hg.tree hv h
        exact ⟨hnext, hg.trans hg', by rw [hview', hview]⟩
      | some e =>
        simp only [hm, hcase] at h
        rw [if_pos ⟨hmod, by simp [← hpde, hcase]⟩]
        have hlt : cur * pageSize + hugePageSize < 2 ^ 64 := by
          have hsize : hugePageSize < 2 ^ 47 := by norm_num [hugePageSize, pageSize]
          omega
        have hadd : wadd (cur * pageSize) hugePageSize = (cur + 512) * pageSize := by
          rw [wadd_of_lt hlt, hugePageSize]
          ring
        have hwhole : (cur + 512) * pageSize ≤ stop * pageSize ↔ cur + 512 ≤ stop :=
          Nat.mul_le_mul_right_iff pageSize_pos
        rw [hadd] at h
        by_cases hw : cur + 512 ≤ stop
        · rw [if_pos (hwhole.mpr hw)] at h
          rw [if_pos hw]
          obtain ⟨⟨done, mc₂⟩, hu, hout⟩ := Option.map_eq_some_iff.mp h
          cases hout
          have hA := updateHugePageFlags_acts hg.tree hv (notMem_empty _) hu
          rw [hpage, hview] at hA
          exact ⟨rfl, hg.trans hA.grows, hA.view_eq⟩
        · rw [if_neg (fun hcon => hw (hwhole.mp hcon))] at h
          rw [if_neg hw]
          cases hsp : splitHugePage mc₁ pml4 (cur * pageSize) with
          | none => simp [hsp] at h
          | some out =>
            obtain ⟨base, mc₂⟩ := out
            have hA := splitHugePage_acts hg.tree hv (notMem_empty _) hsp
            rw [hpage, hview] at hA
            simp only [hsp] at h
            obtain ⟨hnext, hg', hview'⟩ := mprotectPage_acts hA.grows.tree hv h
            exact ⟨hnext, (hg.trans hA.grows).trans hg', by rw [hview', hA.view_eq]⟩
  · rw [if_neg hal] at h
    rw [if_neg (fun hcon => hal (haligned.mpr hcon.1))]
    exact mprotectPage_acts T hv h

/-- The loop leaves the closed form at the end of the range. -/
lemma mprotectLoop_view {s : Space} {first fuel : ℕ} (hstop : stop * pageSize ≤ 2 ^ 47)
    (T : Tree ∅ mc pml4) (hview : view ∅ mc pml4 = s.protectedTo first cur stop prot)
    (hfirst : first ≤ cur) (hcur : cur ≤ stop) (hout : s.Outside first cur stop)
    (hfuel : stop ≤ cur + fuel)
    (h : mprotectLoop pml4 (stop * pageSize) prot fuel (cur * pageSize) mc = some mc') :
    Grows ∅ pml4 mc mc' ∧ view ∅ mc' pml4 = s.protectedTo first stop stop prot := by
  induction fuel generalizing cur mc with
  | zero =>
    have hend : cur = stop := by omega
    cases h
    exact ⟨Grows.refl T, by rw [hview, hend]⟩
  | succ fuel ih =>
    rw [mprotectLoop] at h
    by_cases hlt : cur < stop
    · rw [if_pos (Nat.mul_lt_mul_of_pos_right hlt pageSize_pos)] at h
      cases hstep : mprotectStep mc pml4 (cur * pageSize) (stop * pageSize) prot with
      | none => simp [hstep] at h
      | some out =>
        obtain ⟨next, mc₁⟩ := out
        obtain ⟨hnext, hg, hview₁⟩ := mprotectStep_acts T hstop hlt hstep
        obtain ⟨cur', hlt', hle', hout', heq⟩ := mprotectStep_protectedTo prot hfirst hlt hout
        rw [hview, heq] at hnext hview₁
        simp only [hstep, hnext] at h
        obtain ⟨hg', hfinal⟩ := ih hg.tree hview₁ (by omega) hle' hout' (by omega) h
        exact ⟨hg.trans hg', hfinal⟩
    · have hend : cur = stop := by omega
      rw [if_neg (by rw [hend]; omega)] at h
      cases h
      exact ⟨Grows.refl T, by rw [hview, hend]⟩

end PageTable

section

variable {vm vm' : Vm} {mc mc' : Machine} {addr len : ℕ} {prot : MMapProt}

lemma alignUp_mod (len : ℕ) : alignUp len pageSize % pageSize = 0 := alignDown_mod _ _

/-- What a successful call did to the address space. -/
lemma sysMprotect_view (T : Tree ∅ mc vm.pml4) (hv : addr + alignUp len pageSize ≤ 2 ^ 47)
    (h : sysMprotect vm mc addr len prot = some (.ok (), vm', mc')) :
    addr % pageSize = 0 ∧ Grows ∅ vm.pml4 mc mc' ∧
      view ∅ mc' vm.pml4 = (view ∅ mc vm.pml4).protectedTo (addr / pageSize)
        ((addr + alignUp len pageSize) / pageSize)
        ((addr + alignUp len pageSize) / pageSize) prot := by
  unfold sysMprotect at h
  by_cases hal : isAligned addr pageSize = false
  · rw [if_pos hal] at h
    exact absurd (congrArg (Option.map Prod.fst) h) (by simp)
  rw [if_neg hal] at h
  have hmod : addr % pageSize = 0 := (isAligned_iff _ _).mp (by simpa using hal)
  refine ⟨hmod, ?_⟩
  by_cases hlen : len = 0
  · rw [if_pos hlen, Option.some.injEq, Prod.mk.injEq, Prod.mk.injEq] at h
    obtain ⟨-, -, rfl⟩ := h
    have hzero : alignUp len pageSize = 0 := by
      rw [hlen]
      decide
    rw [hzero, add_zero, protectedTo_start]
    exact ⟨Grows.refl T, rfl⟩
  rw [if_neg hlen] at h
  cases hu : vm.updateProtRange addr (alignUp len pageSize) prot with
  | mk result vm₁ =>
    cases result with
    | error e =>
      simp only [hu] at h
      exact absurd (congrArg (Option.map Prod.fst) h) (by simp)
    | ok u =>
      simp only [hu] at h
      obtain ⟨mc₁, hloop, hout⟩ := Option.map_eq_some_iff.mp h
      obtain ⟨-, hout⟩ := Prod.mk.inj hout
      obtain ⟨-, rfl⟩ := Prod.mk.inj hout
      have hlenmod := alignUp_mod len
      generalize alignUp len pageSize = n at hv hloop hlenmod ⊢
      have hend : wadd addr n = (addr + n) / pageSize * pageSize := by
        rw [wadd_of_lt (lt_of_le_of_lt hv (by norm_num))]
        unfold pageSize at *
        omega
      have hstart : addr = addr / pageSize * pageSize := by
        unfold pageSize at *
        omega
      have hle : addr / pageSize ≤ (addr + n) / pageSize := Nat.div_le_div_right (by omega)
      have hfuel : (addr + n) / pageSize ≤
          addr / pageSize + (wadd addr n - addr) / pageSize := by
        unfold pageSize at *
        omega
      rw [hend] at hloop hfuel
      rw [show mprotectLoop vm.pml4 _ prot _ addr mc =
        mprotectLoop vm.pml4 _ prot _ (addr / pageSize * pageSize) mc by
          rw [← hstart]] at hloop
      refine mprotectLoop_view ?_ T protectedTo_start.symm le_rfl hle ?_ hfuel hloop
      · unfold pageSize at *
        omega
      · intro e _ hne hle'
        omega

lemma WellFormed.leavesOk {pml4 : Frame} (hw : WellFormed mc pml4) :
    (view ∅ mc pml4).LeavesOk := by
  refine ⟨hw.pte, fun r e he => ?_⟩
  apply hw.tree.isHugeLeaf (notMem_empty r)
  rw [← hugeEntry_view, he]
  rfl

/-- After a successful `sys_mprotect` on a range of the user half, the range
grants no more than `prot` and nothing else changed exactly if the range does
not start inside a 2 MB leaf that grants more, and, for `PROT_NONE`, contains
no whole 2 MB leaf. -/
theorem sysMprotect_exact (hw : WellFormed mc vm.pml4)
    (hv : addr + alignUp len pageSize ≤ 2 ^ 47)
    (h : sysMprotect vm mc addr len prot = some (.ok (), vm', mc')) :
    ((∀ page, addr ≤ page * pageSize → page * pageSize < addr + alignUp len pageSize →
        Space.GrantsOnly prot (translate mc'.mem vm.pml4 page)) ∧
      (∀ page < 2 ^ 36,
        ¬(addr ≤ page * pageSize ∧ page * pageSize < addr + alignUp len pageSize) →
        translate mc'.mem vm.pml4 page = translate mc.mem vm.pml4 page)) ↔
    ((∀ e, hugeAt ∅ mc vm.pml4 (PageTable.region addr) = some e → addr % hugePageSize ≠ 0 →
        0 < alignUp len pageSize → Space.GrantsOnly prot (some e)) ∧
      (prot = .none → ∀ r, addr ≤ r * hugePageSize →
        (r + 1) * hugePageSize ≤ addr + alignUp len pageSize →
        hugeAt ∅ mc vm.pml4 r = none)) := by
  obtain ⟨hmod, hg, hview⟩ := sysMprotect_view hw.tree hv h
  have hlenmod := alignUp_mod len
  have hs := hw.leavesOk
  generalize alignUp len pageSize = n at hv hview hlenmod ⊢
  rw [show pageSize = 4096 from rfl] at hmod hlenmod hview
  rw [show pageSize = 4096 from rfl, show hugePageSize = 2097152 from rfl]
  have hrange : ∀ page, (addr ≤ page * 4096 ∧ page * 4096 < addr + n) ↔
      (addr / 4096 ≤ page ∧ page < (addr + n) / 4096) := by
    intro page
    omega
  have hfirst : ∀ r, addr ≤ r * 2097152 ↔ addr / 4096 ≤ r * 512 := by
    intro r
    omega
  have hlast : ∀ r, (r + 1) * 2097152 ≤ addr + n ↔ (r + 1) * 512 ≤ (addr + n) / 4096 := by
    intro r
    rw [Nat.le_div_iff_mul_le (by norm_num), Nat.mul_assoc]
  have hafter : ∀ page < 2 ^ 35, translate mc'.mem vm.pml4 page =
      ((view ∅ mc vm.pml4).protectedTo (addr / 4096) ((addr + n) / 4096)
        ((addr + n) / 4096) prot).translate page := by
    intro page hpage
    rw [translate_eq_view hg.tree hpage (notMem_empty _), hview]
  have hhuge : ∀ r e, hugeAt ∅ mc vm.pml4 r = some e ↔ view ∅ mc vm.pml4 r = .huge e := by
    intro r e
    rw [← hugeEntry_view]
    cases view ∅ mc vm.pml4 r <;> simp [PdeView.hugeEntry]
  constructor
  · rintro ⟨hin, -⟩
    have hgrants : ∀ page, addr / 4096 ≤ page ∧ page < (addr + n) / 4096 → _ := fun page hp =>
      (grantsOnly_inside hs hp).mp (by
        rw [← hafter page (by omega)]
        exact hin page ((hrange page).mpr hp).1 ((hrange page).mpr hp).2)
    refine ⟨?_, ?_⟩
    · intro e he hstart hn
      exact (hgrants (addr / 4096) (by omega) e ((hhuge _ e).mp he)).1 (by omega)
    · rintro hnone r hle hge
      by_contra hsome
      obtain ⟨e, he⟩ := Option.ne_none_iff_exists'.mp hsome
      rw [hfirst] at hle
      rw [hlast] at hge
      have hdiv : r * 512 / 512 = r := by omega
      have hg := hgrants (r * 512) (by omega) e (by rw [hdiv]; exact (hhuge r e).mp he)
      rw [hdiv] at hg
      exact hg.2 hle hge hnone
  · rintro ⟨hstart, hwhole⟩
    refine ⟨?_, ?_⟩
    · intro page hle hlt
      have hp := (hrange page).mp ⟨hle, hlt⟩
      rw [hafter page (by omega)]
      refine (grantsOnly_inside hs hp).mpr fun e he => ⟨?_, ?_⟩
      · intro hbefore
        refine hstart e ((hhuge _ e).mpr ?_) (by omega) (by omega)
        have hregion : addr / 4096 / 512 = page / 512 := by omega
        change view ∅ mc vm.pml4 (addr / 4096 / 512) = _
        rw [hregion]
        exact he
      · intro hbefore hend hnone
        have hgone := hwhole hnone (page / 512) ((hfirst _).mpr hbefore) ((hlast _).mpr hend)
        rw [(hhuge _ e).mpr he] at hgone
        cases hgone
    · intro page hpage hout
      by_cases hkernel : 2 ^ 35 ≤ page
      · exact translate_kernel hkernel hpage (hw.kernel page hkernel hpage) hg.upper hg.data
      have hpage : page < 2 ^ 35 := not_le.mp hkernel
      rw [hafter page hpage, translate_outside hs (fun hp => hout ((hrange page).mpr hp)),
        translate_eq_view hw.tree hpage (notMem_empty _)]

end

/-- One writable mapping over the 2 MB leaf of `PageTable.oneHugeLeaf`. -/
def oneMappingVm : Vm :=
  { Vm.new 1 0x9fffe0000 0x10000000 with
    vmAreas := [⟨0x200000, 0x200000, .anonymous, .rw, false, 0⟩] }

theorem sysMprotect_exact_partial_leaf :
    ∃ vm' mc', sysMprotect oneMappingVm PageTable.oneHugeLeaf 0x200000 0x1000 .none =
        some (.ok (), vm', mc') ∧
      (∀ page, 0x200000 ≤ page * pageSize →
        page * pageSize < 0x200000 + alignUp 0x1000 pageSize →
        Space.GrantsOnly .none (translate mc'.mem 1 page)) ∧
      (∀ page < 2 ^ 36,
        ¬(0x200000 ≤ page * pageSize ∧ page * pageSize < 0x200000 + alignUp 0x1000 pageSize) →
        translate mc'.mem 1 page = translate PageTable.oneHugeLeaf.mem 1 page) := by
  have hlen : alignUp 0x1000 pageSize = 0x1000 := by decide
  have hok : (sysMprotect oneMappingVm oneHugeLeaf 0x200000 0x1000 .none).map
      (fun o => o.1.toBool) = some true := by decide +kernel
  cases hcall : sysMprotect oneMappingVm oneHugeLeaf 0x200000 0x1000 .none with
  | none => simp [hcall] at hok
  | some out =>
    obtain ⟨result, vm', mc'⟩ := out
    cases result with
    | error e => simp [hcall, Except.toBool] at hok
    | ok u =>
      refine ⟨vm', mc', rfl, (sysMprotect_exact oneHugeLeaf_view.1 ?_ hcall).mpr ⟨?_, ?_⟩⟩
      · rw [hlen]
        norm_num
      · intro e _ hstart
        exact absurd (by decide) hstart
      · intro _ r hle hge
        rw [hlen] at hge
        unfold hugePageSize pageSize at hle hge
        omega

/-- A range that starts inside a 2 MB leaf: the call returns `Ok` and the page
it was to make inaccessible is still writable. -/
theorem sysMprotect_skips_inner_start :
    (sysMprotect oneMappingVm PageTable.oneHugeLeaf 0x201000 0x1000 .none).map
      (fun o => (o.1.toBool, translate o.2.2.mem 1 0x201)) =
        some (true, some ⟨513, .ofProt .rw⟩) := by
  decide +kernel

end Kevlar
