import Kevlar.DisjointRegions
import Kevlar.VmArea

/-!
# Range operations on the area list, address by address

The range loops are first reduced to a structural description: the result is a
permutation of the concatenated cuts of all areas. The cuts of one area are then
compared with the area pointwise. What an address sees of the area holding it is
its protection, its sharing flag and its backing position.
-/
namespace Kevlar
open List VmArea DisjointRegions

/-- The backing of one address: file position and number of file-backed bytes
from there on, or the device address. -/
inductive Backing
  | anonymous
  | file (file : FileId) (position remaining : ℕ)
  | device (position : ℕ)
  deriving Repr, DecidableEq

/-- Backing at distance `d` from the start of an area. -/
def VmAreaType.backingAt (d : ℕ) : VmAreaType → Backing
  | .anonymous => .anonymous
  | .file f offset fileSize => .file f (wadd offset d) (fileSize - d)
  | .deviceMemory physBase => .device (wadd physBase d)

lemma VmAreaType.backingAt_cloneWithShift (t : VmAreaType) {shift d : ℕ} (h : shift ≤ d) :
    (t.cloneWithShift shift).backingAt (d - shift) = t.backingAt d := by
  cases t with
  | anonymous => rfl
  | file f offset fileSize =>
    simp only [cloneWithShift, backingAt, wadd_wadd_sub _ _ _ h]
    congr 1
    omega
  | deviceMemory physBase => simp only [cloneWithShift, backingAt, wadd_wadd_sub _ _ _ h]

structure AddrAttrs where
  prot : MMapProt
  isShared : Bool
  backing : Backing
  deriving Repr, DecidableEq

def VmArea.attrsAt (v : VmArea) (a : ℕ) : AddrAttrs :=
  ⟨v.prot, v.isShared, v.areaType.backingAt (a - v.start)⟩

@[simp] lemma VmArea.contains_iff (v : VmArea) (a : ℕ) :
    v.contains a = true ↔ v.start ≤ a ∧ a < v.endAddr := by
  simp [contains]

lemma VmArea.endAddr_lt (v : VmArea) : v.endAddr < 2 ^ 64 := wadd_lt _ _

def Holds (v : VmArea) (a : ℕ) : Prop := v.contains a = true

/-- Pairwise disjoint as half-open intervals. -/
def DisjointAreas (areas : List VmArea) : Prop := DisjointOn Holds areas

namespace Vm

/-- The attributes that address `a` sees, one entry for each area holding it. -/
def seenAt (areas : List VmArea) (a : ℕ) : List AddrAttrs :=
  (areas.filter (·.contains a)).map (·.attrsAt a)

lemma disjointAreas_iff {areas : List VmArea} :
    DisjointAreas areas ↔ ∀ a, (seenAt areas a).length ≤ 1 := by
  simp only [seenAt, length_map]
  exact disjointOn_iff_length_filter_le_one (fun _ _ => .rfl)

lemma seenAt_eq_nil_iff {areas : List VmArea} {a : ℕ} :
    seenAt areas a = [] ↔ ∀ v ∈ areas, v.contains a = false := by
  simp [seenAt, filter_eq_nil_iff, -VmArea.contains_iff]

/-- In a disjoint list an address is held by one area only. -/
lemma filter_contains_eq_singleton {areas : List VmArea} (h : DisjointAreas areas)
    {v : VmArea} {a : ℕ} (hv : v ∈ areas) (ha : v.contains a = true) :
    areas.filter (·.contains a) = [v] := by
  have hmem : v ∈ areas.filter (·.contains a) := mem_filter.mpr ⟨hv, ha⟩
  have hlen := disjointAreas_iff.mp h a
  rw [seenAt, length_map] at hlen
  obtain ⟨w, hw⟩ := length_eq_one_iff.mp (le_antisymm hlen (length_pos_of_mem hmem))
  rw [hw, mem_singleton] at hmem
  rw [hw, hmem]

lemma seenAt_perm {l l' : List VmArea} (h : l.Perm l') (a : ℕ) :
    (seenAt l a).Perm (seenAt l' a) :=
  (h.filter _).map _

lemma seenAt_flatMap (l : List VmArea) (g : VmArea → List VmArea) (a : ℕ) :
    seenAt (l.flatMap g) a = l.flatMap fun v => seenAt (g v) a := by
  simp only [seenAt, filter_flatMap, map_flatMap]

lemma seenAt_eq_flatMap (l : List VmArea) (a : ℕ) :
    seenAt l a = l.flatMap fun v => seenAt [v] a := by
  simpa using seenAt_flatMap l (fun v => [v]) a

namespace Cut

def kept : Cut → List VmArea
  | keep v => [v]
  | split _ => []

def pieces : Cut → List VmArea
  | keep _ => []
  | split ps => ps

/-- All areas that stand for a cut area afterwards. -/
def areas (c : Cut) : List VmArea := c.kept ++ c.pieces

@[simp] lemma areas_keep (v : VmArea) : (keep v).areas = [v] := rfl
@[simp] lemma areas_split (ps : List VmArea) : (split ps).areas = ps := rfl

end Cut

/-- The index arithmetic of the loop visits every element of the original vector
exactly once: the elements before `i` are settled, those from `i` on untouched. -/
lemma cutLoop_eq (cut : VmArea → Except Errno Cut) (c : VmArea → Cut) (fuel : ℕ)
    (pre rest pieces : List VmArea) (hfuel : rest.length ≤ fuel)
    (hc : ∀ v ∈ rest, cut v = .ok (c v)) :
    cutLoop cut fuel (pre ++ rest) pre.length pieces =
      (.ok (), pre ++ rest.flatMap (fun v => (c v).kept) ++
        (pieces ++ rest.flatMap fun v => (c v).pieces)) := by
  induction fuel generalizing pre rest pieces with
  | zero =>
    have hnil : rest = [] := length_eq_zero_iff.mp (by omega)
    simp [cutLoop, hnil]
  | succ fuel ih =>
    cases rest with
    | nil => simp [cutLoop]
    | cons v rest =>
      have hget : (pre ++ v :: rest)[pre.length]? = some v := by simp
      have hv := hc v (by simp)
      have hrest : ∀ w ∈ rest, cut w = .ok (c w) := fun w hw => hc w (by simp [hw])
      have hlen : rest.length ≤ fuel := by
        rw [length_cons] at hfuel
        omega
      simp only [cutLoop, hget, hv, flatMap_cons]
      cases hcut : c v with
      | keep v' =>
        have hset : (pre ++ v :: rest).set pre.length v' = (pre ++ [v']) ++ rest := by simp
        have hnext : pre.length + 1 = (pre ++ [v']).length := by simp
        simp only [hset, hnext, ih (pre ++ [v']) rest pieces hlen hrest]
        simp [Cut.kept, Cut.pieces]
      | split ps =>
        have herase : (pre ++ v :: rest).eraseIdx pre.length = pre ++ rest := by
          rw [eraseIdx_append_of_length_le le_rfl, Nat.sub_self, eraseIdx_cons_zero]
        simp only [herase, ih pre rest (pieces ++ ps) hlen hrest]
        simp [Cut.kept, Cut.pieces]

/-- A cut is exact for `view` when every address sees through the resulting areas
what `view` makes of the attributes it saw through the area that was cut. -/
def CutExact (view : ℕ → AddrAttrs → Option AddrAttrs) (v : VmArea) (c : Cut) : Prop :=
  ∀ a, seenAt c.areas a = (seenAt [v] a).filterMap (view a)

/-- The loop inherits exactness from its iterations, for any area list. -/
lemma seenAt_cutLoop (cut : VmArea → Except Errno Cut)
    (view : ℕ → AddrAttrs → Option AddrAttrs) (areas : List VmArea)
    (hcut : ∀ v ∈ areas, ∃ c, cut v = .ok c ∧ CutExact view v c) :
    ∃ out, cutLoop cut areas.length areas 0 [] = (.ok (), out) ∧
      ∀ a, (seenAt out a).Perm ((seenAt areas a).filterMap (view a)) := by
  let c : VmArea → Cut := fun v =>
    match cut v with
    | .ok c => c
    | .error _ => .keep v
  have hc : ∀ v ∈ areas, cut v = .ok (c v) ∧ CutExact view v (c v) := by
    intro v hv
    obtain ⟨d, hd, hexact⟩ := hcut v hv
    have hcv : c v = d := by simp only [c, hd]
    rw [hcv]
    exact ⟨hd, hexact⟩
  refine ⟨_, cutLoop_eq cut c areas.length [] areas [] le_rfl (fun v hv => (hc v hv).1), ?_⟩
  intro a
  have hperm : (areas.flatMap (fun v => (c v).kept) ++ areas.flatMap fun v => (c v).pieces).Perm
      (areas.flatMap fun v => (c v).areas) := flatMap_append_perm areas _ _
  have hview : seenAt (areas.flatMap fun v => (c v).areas) a =
      (seenAt areas a).filterMap (view a) := by
    rw [seenAt_flatMap, seenAt_eq_flatMap areas, filterMap_flatMap]
    exact flatMap_congr fun v hv => (hc v hv).2 a
  simpa [hview] using seenAt_perm hperm a

/-- On a disjoint list the order of the pieces does not show. -/
lemma seenAt_eq_of_perm {l l' : List AddrAttrs} (h : l.Perm l') (hlen : l'.length ≤ 1) :
    l = l' := by
  rcases l' with _ | ⟨x, _ | ⟨y, l'⟩⟩
  · exact h.eq_nil
  · exact perm_singleton.mp h
  · simp at hlen

/-- What is seen through a single area. -/
lemma seenAt_singleton (v : VmArea) (a : ℕ) :
    seenAt [v] a = if v.start ≤ a ∧ a < v.endAddr then [v.attrsAt a] else [] := by
  by_cases h : v.start ≤ a ∧ a < v.endAddr
  · simp [seenAt, (v.contains_iff a).mpr h, h]
  · have hc : v.contains a = false := by
      rw [← Bool.not_eq_true, v.contains_iff]
      exact h
    simp [seenAt, hc, h]

lemma seenAt_append (l l' : List VmArea) (a : ℕ) :
    seenAt (l ++ l') a = seenAt l a ++ seenAt l' a := by
  simp only [seenAt, filter_append, map_append]

section

variable (v : VmArea)
include v

/-- A sub-interval `[s, e)` of an area, backed as the area is from `s` on. -/
lemma seenAt_subArea {s e a : ℕ} (hs : v.start ≤ s) (hse : s ≤ e) (he : e ≤ v.endAddr)
    (prot : MMapProt) :
    seenAt [⟨s, wsub e s, v.areaType.cloneWithShift (wsub s v.start), prot, v.isShared,
        v.allocId⟩] a =
      if s ≤ a ∧ a < e then [{ v.attrsAt a with prot := prot }] else [] := by
  have hlt := v.endAddr_lt
  have hend : wadd s (wsub e s) = e := by
    rw [wsub_of_le hse (by omega), wadd_of_lt (by omega)]
    omega
  rw [seenAt_singleton]
  simp only [endAddr, hend]
  by_cases h : s ≤ a ∧ a < e
  · have hshift : wsub s v.start = s - v.start := wsub_of_le hs (by omega)
    have hdist : a - s = (a - v.start) - (s - v.start) := by omega
    rw [if_pos h, if_pos h, hshift, attrsAt, attrsAt, hdist,
      VmAreaType.backingAt_cloneWithShift _ (by omega)]
  · rw [if_neg h, if_neg h]

lemma seenAt_leftPiece {start a : ℕ} (h : start < v.endAddr) :
    seenAt (leftPiece start v) a = if v.start ≤ a ∧ a < start then [v.attrsAt a] else [] := by
  have hlt := v.endAddr_lt
  by_cases hstart : v.start < start
  · have hend : wadd v.start (wsub start v.start) = start := by
      rw [wsub_of_le hstart.le (by omega), wadd_of_lt (by omega)]
      omega
    rw [leftPiece, if_pos hstart, seenAt_singleton]
    simp only [endAddr, attrsAt, hend]
  · rw [leftPiece, if_neg hstart, if_neg (by omega)]
    simp [seenAt]

lemma seenAt_rightPiece {stop : ℕ} (h : v.start < stop) :
    ∃ right, rightPiece stop v = .ok right ∧ ∀ a, seenAt right a =
      if stop ≤ a ∧ a < v.endAddr then [v.attrsAt a] else [] := by
  have hne : stop ≠ 0 := by omega
  by_cases hstop : stop < v.endAddr
  · refine ⟨_, by simp [rightPiece, hstop, newNonnull, hne]; rfl, ?_⟩
    intro a
    exact seenAt_subArea v h.le hstop.le le_rfl v.prot
  · refine ⟨[], by simp [rightPiece, hstop], ?_⟩
    intro a
    rw [if_neg (by omega)]
    rfl

lemma seenAt_midPiece {start stop : ℕ} (prot : MMapProt) (hstart : start ≠ 0)
    (h : max v.start start ≤ min v.endAddr stop) :
    ∃ mid, midPiece start stop prot v = .ok mid ∧ ∀ a, seenAt mid a =
      if max v.start start ≤ a ∧ a < min v.endAddr stop then [{ v.attrsAt a with prot := prot }]
      else [] := by
  have hne : max v.start start ≠ 0 := by omega
  refine ⟨_, by simp only [midPiece, newNonnull, if_neg hne]; rfl, ?_⟩
  intro a
  exact seenAt_subArea v (le_max_left _ _) h (min_le_left _ _) prot

/-- What a removal of `[start, stop)` makes of the attributes seen at `a`. -/
def removeView (start stop a : ℕ) (attrs : AddrAttrs) : Option AddrAttrs :=
  if start ≤ a ∧ a < stop then none else some attrs

/-- What a protection change on `[start, stop)` makes of the attributes seen at `a`. -/
def updateView (start stop : ℕ) (prot : MMapProt) (a : ℕ) (attrs : AddrAttrs) :
    Option AddrAttrs :=
  if start ≤ a ∧ a < stop then some { attrs with prot := prot } else some attrs

/-- The range of a loop is proper for an area when it does not wrap around, or
when the area is out of the wrapped range's reach. -/
def ProperCut (start stop : ℕ) (v : VmArea) : Prop :=
  start ≤ stop ∨ v.endAddr ≤ start ∨ stop ≤ v.start

lemma removeCut_exact {start stop : ℕ} (h : ProperCut start stop v) :
    ∃ c, removeCut start stop v = .ok c ∧ CutExact (removeView start stop) v c := by
  by_cases hout : v.endAddr ≤ start ∨ stop ≤ v.start
  · refine ⟨.keep v, by rw [removeCut, if_pos hout], ?_⟩
    intro a
    rw [Cut.areas_keep, seenAt_singleton]
    split_ifs with ha
    · simp only [removeView, filterMap_cons, filterMap_nil]
      rw [if_neg (by omega)]
    · rfl
  · have hle : start ≤ stop := h.resolve_right hout
    push Not at hout
    obtain ⟨right, hright, hseen⟩ := seenAt_rightPiece v hout.2
    refine ⟨.split (leftPiece start v ++ right), ?_, ?_⟩
    · rw [removeCut, if_neg (by omega), hright]
      rfl
    · intro a
      rw [Cut.areas_split, seenAt_append, seenAt_leftPiece v hout.1, hseen, seenAt_singleton]
      by_cases ha : v.start ≤ a ∧ a < v.endAddr
      · rw [if_pos ha]
        simp only [removeView, filterMap_cons, filterMap_nil]
        split_ifs <;> first | rfl | omega
      · rw [if_neg ha, if_neg (by omega), if_neg (by omega)]
        rfl

lemma updateProtCut_exact {start stop : ℕ} (prot : MMapProt) (hstart : start ≠ 0)
    (h : ProperCut start stop v) :
    ∃ c, updateProtCut start stop prot v = .ok c ∧ CutExact (updateView start stop prot) v c := by
  by_cases hout : v.endAddr ≤ start ∨ stop ≤ v.start
  · refine ⟨.keep v, by rw [updateProtCut, if_pos hout], ?_⟩
    intro a
    rw [Cut.areas_keep, seenAt_singleton]
    split_ifs with ha
    · simp only [updateView, filterMap_cons, filterMap_nil]
      rw [if_neg (by omega)]
    · rfl
  have hle : start ≤ stop := h.resolve_right hout
  push Not at hout
  by_cases hin : start ≤ v.start ∧ v.endAddr ≤ stop
  · refine ⟨.keep { v with prot := prot }, ?_, ?_⟩
    · rw [updateProtCut, if_neg (by omega), if_pos hin]
    · intro a
      have hend : ({ v with prot := prot } : VmArea).endAddr = v.endAddr := rfl
      rw [Cut.areas_keep, seenAt_singleton, seenAt_singleton, hend]
      by_cases ha : v.start ≤ a ∧ a < v.endAddr
      · rw [if_pos ha, if_pos ha]
        simp only [updateView, filterMap_cons, filterMap_nil]
        rw [if_pos (by omega)]
        rfl
      · rw [if_neg ha, if_neg ha]
        rfl
  · obtain ⟨right, hright, hrightSeen⟩ := seenAt_rightPiece v hout.2
    obtain ⟨mid, hmid, hmidSeen⟩ := seenAt_midPiece v prot hstart
      (show max v.start start ≤ min v.endAddr stop by omega)
    refine ⟨.split (leftPiece start v ++ mid ++ right), ?_, ?_⟩
    · rw [updateProtCut, if_neg (by omega), if_neg hin, hmid, hright]
      rfl
    · intro a
      rw [Cut.areas_split, seenAt_append, seenAt_append, seenAt_leftPiece v hout.1, hmidSeen,
        hrightSeen, seenAt_singleton]
      by_cases ha : v.start ≤ a ∧ a < v.endAddr
      · rw [if_pos ha]
        simp only [updateView, filterMap_cons, filterMap_nil]
        split_ifs <;> first | rfl | omega
      · rw [if_neg ha, if_neg (by omega), if_neg (by omega), if_neg (by omega)]
        rfl

end

/-- A removal whose range is proper for every area filters what each address sees. -/
lemma seenAt_removeVmaRange (vm : Vm) {start len : ℕ}
    (h : ∀ v ∈ vm.vmAreas, ProperCut start (wadd start len) v) :
    (vm.removeVmaRange start len).1 = .ok () ∧
      ∀ a, (seenAt (vm.removeVmaRange start len).2.vmAreas a).Perm
        ((seenAt vm.vmAreas a).filterMap (removeView start (wadd start len) a)) := by
  obtain ⟨out, hout, hseen⟩ := seenAt_cutLoop (removeCut start (wadd start len))
    (removeView start (wadd start len)) vm.vmAreas fun v hv => removeCut_exact v (h v hv)
  simp only [removeVmaRange, hout]
  exact ⟨trivial, hseen⟩

/-- The exact-match fast path replaces one area and touches no other. -/
lemma setProtExact_eq {start len : ℕ} {prot : MMapProt} {areas out : List VmArea}
    (hset : setProtExact start len prot areas = some out) :
    ∃ pre v post, areas = pre ++ v :: post ∧ v.start = start ∧ v.len = len ∧
      out = pre ++ { v with prot := prot } :: post := by
  induction areas generalizing out with
  | nil => simp [setProtExact] at hset
  | cons v areas ih =>
    unfold setProtExact at hset
    split_ifs at hset with hv
    · exact ⟨[], v, areas, rfl, hv.1, hv.2, (Option.some.inj hset).symm⟩
    · obtain ⟨out', hout', rfl⟩ := Option.map_eq_some_iff.mp hset
      obtain ⟨pre, w, post, rfl, hw, hwlen, rfl⟩ := ih hout'
      exact ⟨v :: pre, w, post, rfl, hw, hwlen, rfl⟩

/-- Removal is exact address by address. Inside the range nothing is mapped any
more. Outside it an address keeps exactly one area, which shows it the same
protection, sharing, kind and backing, and an address that was unmapped stays so. -/
theorem removeVmaRange_pointwise (vm : Vm) (start len : ℕ)
    (hdisj : DisjointAreas vm.vmAreas) (hfit : start + len < 2 ^ 64) :
    (vm.removeVmaRange start len).1 = .ok () ∧
    ∀ a,
      (start ≤ a ∧ a < start + len →
        ∀ v ∈ (vm.removeVmaRange start len).2.vmAreas, v.contains a = false) ∧
      (¬(start ≤ a ∧ a < start + len) →
        (∀ v ∈ vm.vmAreas, v.contains a = true →
          ∃ v', (vm.removeVmaRange start len).2.vmAreas.filter (·.contains a) = [v'] ∧
            v'.attrsAt a = v.attrsAt a) ∧
        ((∀ v ∈ vm.vmAreas, v.contains a = false) →
          ∀ v ∈ (vm.removeVmaRange start len).2.vmAreas, v.contains a = false)) := by
  have hstop : wadd start len = start + len := wadd_of_lt hfit
  have hproper : ∀ v ∈ vm.vmAreas, ProperCut start (wadd start len) v := by
    intro v _
    exact .inl (by omega)
  obtain ⟨hok, hseen⟩ := seenAt_removeVmaRange vm hproper
  rw [hstop] at hseen
  refine ⟨hok, ?_⟩
  intro a
  have hlen : ((seenAt vm.vmAreas a).filterMap (removeView start (start + len) a)).length ≤ 1 :=
    (length_filterMap_le _ _).trans (disjointAreas_iff.mp hdisj a)
  have hview := seenAt_eq_of_perm (hseen a) hlen
  refine ⟨?_, fun hout => ⟨?_, ?_⟩⟩
  · intro hin
    rw [← seenAt_eq_nil_iff, hview]
    simp [removeView, hin]
  · intro v hv hva
    have hold : vm.vmAreas.filter (·.contains a) = [v] :=
      filter_contains_eq_singleton hdisj hv hva
    have hnew : seenAt (vm.removeVmaRange start len).2.vmAreas a = [v.attrsAt a] := by
      rw [hview, seenAt, hold]
      simp [removeView, hout]
    obtain ⟨v', hv', hattrs⟩ := map_eq_singleton_iff.mp hnew
    exact ⟨v', hv', hattrs⟩
  · intro hnone
    have hold : seenAt vm.vmAreas a = [] := seenAt_eq_nil_iff.mpr hnone
    rw [← seenAt_eq_nil_iff, hview, hold]
    rfl

/-- Cutting the second page out of a five-page file mapping: the address behind
the cut keeps its file position and its count of file bytes. -/
theorem removeVmaRange_pointwise_file :
    ∃ v', (removeVmaRange { Vm.new 0 0x9fffe0000 0x10000000 with
        vmAreas := [⟨0x1000, 0x5000, .file 7 0x2000 0x2800, .rw, false, 0⟩] } 0x2000
        0x1000).2.vmAreas.filter (·.contains 0x3010) = [v'] ∧
      v'.attrsAt 0x3010 = ⟨.rw, false, .file 7 0x4010 0x7f0⟩ := by
  have hdisj : DisjointAreas [⟨0x1000, 0x5000, .file 7 0x2000 0x2800, .rw, false, 0⟩] :=
    pairwise_singleton _ _
  have h := (removeVmaRange_pointwise { Vm.new 0 0x9fffe0000 0x10000000 with
    vmAreas := [⟨0x1000, 0x5000, .file 7 0x2000 0x2800, .rw, false, 0⟩] } 0x2000 0x1000 hdisj
    (by decide)).2 0x3010
  exact (h.2 (by decide)).1 _ (mem_singleton.mpr rfl) (by decide)

end Vm
end Kevlar
