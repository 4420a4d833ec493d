import Kevlar.ExtentRefinement

/-!
# Truncation of extent trees

Pruning a leaf shortens the extent that the cut goes through and then keeps as many
of the first entries as there are extents before the cut. The leaves of an index are
pruned in turn; one that becomes empty is given back and its entry is dropped.
-/
namespace Kevlar.Ext2
open List Nat Extent ExtentHeader ByteBuffer

namespace Extent

/-- The extent begins or ends before the cut. -/
def kept (cut : ℕ) (ext : Extent) : Bool :=
  decide (ext.stop ≤ cut) || decide (ext.logicalBlock < cut)

def shrink (cut : ℕ) (ext : Extent) : Extent :=
  if cut < ext.stop ∧ ext.logicalBlock < cut then
    { ext with len := (cut - ext.logicalBlock) % 2 ^ 16 }
  else ext

end Extent

def pruneExtents (cut : ℕ) (extents : List Extent) : List Extent :=
  (extents.map (Extent.shrink cut)).take (extents.countP (Extent.kept cut))

def Branch.prune (cut : ℕ) (c : Branch) : Branch := ⟨c.idx, pruneExtents cut c.extents⟩

def pruneBranches (cut : ℕ) (branches : List Branch) : List Branch :=
  (branches.map (Branch.prune cut)).filter fun c => !c.extents.isEmpty

def Tree.prune (cut : ℕ) : Tree → Tree
  | .leaf extents => .leaf (pruneExtents cut extents)
  | .index branches => .index (pruneBranches cut branches)

lemma length_pruneExtents (cut : ℕ) (extents : List Extent) :
    (pruneExtents cut extents).length = extents.countP (kept cut) := by
  rw [pruneExtents, length_take, length_map]
  exact min_eq_left countP_le_length

/-! ## One leaf -/

/-- One round of the loop changes entry `i` only. -/
lemma pruneLoop_cons (cut i : ℕ) (rest : List ℕ) (count : ℕ) (data : Bytes) :
    ∃ data', pruneLoop cut (i :: rest) count data =
        pruneLoop cut rest
          (count + if (parse data (entryOffset i)).kept cut then 1 else 0) data' ∧
      parse data' (entryOffset i) = (parse data (entryOffset i)).shrink cut ∧
      ∀ j, j < entryOffset i ∨ entryOffset i + 12 ≤ j → data' j = data j := by
  by_cases hstop : (parse data (entryOffset i)).stop ≤ cut
  · refine ⟨data, ?_, ?_, fun _ _ => rfl⟩
    · simp only [pruneLoop, if_pos hstop, kept, decide_eq_true hstop, Bool.true_or, if_true]
    · rw [shrink, if_neg (by omega)]
  · by_cases hstart : (parse data (entryOffset i)).logicalBlock < cut
    · refine ⟨writeU16 data (entryOffset i + 4)
        (cut - (parse data (entryOffset i)).logicalBlock), ?_, ?_, fun j hj => ?_⟩
      · simp only [pruneLoop, if_neg hstop, if_pos hstart, kept, decide_eq_true hstart,
          Bool.or_true, if_true]
      · rw [shrink, if_pos ⟨not_le.mp hstop, hstart⟩, parse_writeU16_len]
      · exact writeU16_apply_of_outside (by omega)
    · refine ⟨data, ?_, ?_, fun _ _ => rfl⟩
      · simp only [pruneLoop, if_neg hstop, if_neg hstart, kept, decide_eq_false hstop,
          decide_eq_false hstart, Bool.or_false, Bool.false_eq_true, if_false, add_zero]
      · rw [shrink, if_neg (by omega)]

lemma pruneLoop_spec (cut start n count : ℕ) (data : Bytes) :
    (pruneLoop cut (range' start n) count data).1 = count +
        ((range' start n).map fun i => parse data (entryOffset i)).countP
          (kept cut) ∧
      (∀ i, start ≤ i → i < start + n →
        parse (pruneLoop cut (range' start n) count data).2 (entryOffset i) =
          (parse data (entryOffset i)).shrink cut) ∧
      ∀ j, j < entryOffset start →
        (pruneLoop cut (range' start n) count data).2 j = data j := by
  induction n generalizing start count data with
  | zero => exact ⟨rfl, fun i hi hi' => absurd hi' (by omega), fun _ _ => rfl⟩
  | succ n ih =>
    obtain ⟨data', heq, hentry, hother⟩ :=
      pruneLoop_cons cut start (range' (start + 1) n) count data
    obtain ⟨hcount, hin, hbefore⟩ := ih (start + 1)
      (count + if (parse data (entryOffset start)).kept cut then 1 else 0) data'
    have hparse : ∀ i, start < i →
        parse data' (entryOffset i) = parse data (entryOffset i) := fun i hi =>
      parse_congr fun k hk => hother _ (by unfold entryOffset; omega)
    rw [range'_succ, heq]
    refine ⟨?_, fun i hi hi' => ?_, fun j hj => ?_⟩
    · rw [hcount, map_cons, countP_cons]
      have hmap : ((range' (start + 1) n).map fun i => parse data' (entryOffset i)) =
          (range' (start + 1) n).map fun i => parse data (entryOffset i) :=
        map_congr_left fun i hi => hparse i (by
          have := mem_range'_1.mp hi
          omega)
      rw [hmap]
      omega
    · rcases eq_or_lt_of_le hi with rfl | hlt
      · rw [← hentry]
        exact parse_congr fun k hk => hbefore _ (by rw [entryOffset_succ]; omega)
      · rw [hin i hlt (by omega), hparse i hlt]
    · rw [hbefore j (by rw [entryOffset_succ]; omega), hother j (.inl hj)]

/-- A pruned leaf. -/
lemma IsLeaf.pruned {data : Bytes} {len : ℕ} {extents : List Extent} (h : IsLeaf data len extents)
    (hlen : (len - 12) / 12 < 2 ^ 16) (cut : ℕ) :
    (pruneLeafExtents data len extents.length cut).1 = (pruneExtents cut extents).length ∧
      IsLeaf (writeU16 (pruneLeafExtents data len extents.length cut).2 2
          (pruneLeafExtents data len extents.length cut).1) len (pruneExtents cut extents) := by
  have hroom := h.room
  obtain ⟨hcount, hin, hbefore⟩ := pruneLoop_spec cut 0 extents.length 0 data
  have hprune : pruneLeafExtents data len extents.length cut =
      pruneLoop cut (range' 0 extents.length) 0 data := by
    rw [pruneLeafExtents, h.visible, range_eq_range']
  have hmap : ((range' 0 extents.length).map fun i => parse data (entryOffset i)) =
      extents := by
    rw [← range_eq_range']
    exact h.entries
  have hlength : (pruneLeafExtents data len extents.length cut).1 =
      (pruneExtents cut extents).length := by
    rw [hprune, hcount, hmap, zero_add, length_pruneExtents]
  have hle : (pruneExtents cut extents).length ≤ extents.length := by
    rw [length_pruneExtents]
    exact countP_le_length
  have hshrunk : leafExtents (pruneLeafExtents data len extents.length cut).2 extents.length =
      extents.map (shrink cut) := by
    refine ext_getElem (by simp) fun i hi hi' => ?_
    rw [length_leafExtents] at hi
    rw [getElem_leafExtents, getElem_map, hprune, hin i (zero_le i) (by omega)]
    congr 1
    rw [← @getElem_leafExtents data extents.length i (by simpa using hi)]
    simp only [h.entries]
  refine ⟨hlength, ?_, ?_, hle.trans hroom⟩
  · rw [hlength, parse_writeU16_two _ (by omega), hprune,
      parse_congr fun i hi => hbefore i (by unfold entryOffset; omega), h.header]
  · rw [leafExtents_congr fun j hj _ => writeU16_apply_of_outside (by omega), ← leafExtents_take _
      hle, hshrunk, pruneExtents, length_take, length_map, min_eq_left countP_le_length]

/-! ## The index -/

lemma pruneBranches_cons (cut : ℕ) (c : Branch) (rest : List Branch) :
    pruneBranches cut (c :: rest) =
      if pruneExtents cut c.extents = [] then pruneBranches cut rest
      else c.prune cut :: pruneBranches cut rest := by
  by_cases hempty : pruneExtents cut c.extents = []
  all_goals simp [hempty, Branch.prune, pruneBranches]

/-- What the loop over the index leaves: the entries that remain stand from `count` on. -/
structure Compacted (g : Geometry) (cut count : ℕ) (root : Bytes) (branches : List Branch)
    (s : Fs) (r : ℕ × Bytes × ℕ) (s' : Fs) : Prop where
  count_eq : r.1 = count + (pruneBranches cut branches).length
  entries : ∀ j (h : j < (pruneBranches cut branches).length),
    ExtentIdx.parse r.2.1 (entryOffset (count + j)) = (pruneBranches cut branches)[j].idx
  before : ∀ j, j < entryOffset count → r.2.1 j = root j
  branchAt : ∀ c ∈ pruneBranches cut branches, BranchAt g s' c
  frame : Frame g (branches.map fun c => c.idx.leafBlock) s s'

variable {g : Geometry} {cut count : ℕ} {root : Bytes} {c : Branch} {rest : List Branch}
  {s u s' : Fs} {r : ℕ × Bytes × ℕ}

/-- A branch whose leaf became empty. -/
lemma Compacted.drop (hempty : pruneExtents cut c.extents = [])
    (hframe : Frame g [c.idx.leafBlock] s u) (h : Compacted g cut count root rest u r s') :
    Compacted g cut count root (c :: rest) s r s' := by
  have hcons : pruneBranches cut (c :: rest) = pruneBranches cut rest := by
    rw [pruneBranches_cons, if_pos hempty]
  refine ⟨?_, ?_, h.before, ?_, ?_⟩
  · rw [hcons]
    exact h.count_eq
  · simp only [hcons]
    exact h.entries
  · rw [hcons]
    exact h.branchAt
  · refine (hframe.mono ?_).trans (h.frame.mono ?_)
    · simp
    · simp

/-- A branch that remains: its entry moved to the place `count`. -/
lemma Compacted.keep {root' : Bytes} (hne : pruneExtents cut c.extents ≠ [])
    (hframe : Frame g [c.idx.leafBlock] s u)
    (hentry : ExtentIdx.parse root' (entryOffset count) = c.idx)
    (hbefore : ∀ j, j < entryOffset count → root' j = root j) (hbranch : BranchAt g u (c.prune cut))
    (hnotin : c.idx.leafBlock ∉ rest.map fun d => d.idx.leafBlock)
    (h : Compacted g cut (count + 1) root' rest u r s') :
    Compacted g cut count root (c :: rest) s r s' := by
  have hcons : pruneBranches cut (c :: rest) = c.prune cut :: pruneBranches cut rest := by
    rw [pruneBranches_cons, if_neg hne]
  refine ⟨?_, ?_, fun j hj => ?_, ?_, ?_⟩
  · rw [hcons, h.count_eq, length_cons]
    omega
  · simp only [hcons]
    intro j hj
    cases j with
    | zero =>
      rw [getElem_cons_zero, add_zero]
      refine Eq.trans (ExtentIdx.parse_congr fun k hk => ?_) hentry
      exact h.before _ (by rw [entryOffset_succ]; omega)
    | succ j =>
      rw [getElem_cons_succ, ← h.entries j (by simpa using hj)]
      congr 2
      omega
  · rw [h.before j (by rw [entryOffset_succ]; omega), hbefore j hj]
  · rw [hcons]
    intro d hd
    rcases mem_cons.mp hd with rfl | hd
    · exact hbranch.frame h.frame hnotin
    · exact h.branchAt d hd
  · refine (hframe.mono ?_).trans (h.frame.mono ?_)
    · simp
    · simp

lemma ends_truncateLoop (branches : List Branch) (i count : ℕ) (root : Bytes) (blocks : ℕ)
    (s : Fs) (hcount : count ≤ i) (hentries : ∀ j (h : j < branches.length),
      ExtentIdx.parse root (entryOffset (i + j)) = branches[j].idx)
    (hbranches : ∀ c ∈ branches, BranchAt g s c)
    (hnodup : (branches.map fun c => c.idx.leafBlock).Nodup) :
    (truncateLoop g cut (range' i branches.length) count root blocks).Ends s
      (fun r s' => Compacted g cut count root branches s r s') (fun _ _ => False) := by
  induction branches generalizing i count root blocks s with
  | nil =>
    refine Fallible.ends_pure ⟨rfl, fun j h => absurd h (not_lt_zero j), fun _ _ => rfl, ?_,
      Frame.refl g _ s⟩
    intro c hc
    cases hc
  | cons c rest ih =>
    have hidx : ExtentIdx.parse root (entryOffset i) = c.idx := hentries 0 (zero_lt_succ _)
    have hc : BranchAt g s c := hbranches c mem_cons_self
    obtain ⟨hnotin, hnodup'⟩ := nodup_cons.mp hnodup
    have hsize := g.blockSize_le
    obtain ⟨hlength, hleaf⟩ := hc.leaf.pruned (by omega) cut
    have hrest : ∀ u, Frame g [c.idx.leafBlock] s u → ∀ d ∈ rest, BranchAt g u d := by
      intro u hframe d hd
      refine (hbranches d (mem_cons_of_mem _ hd)).frame hframe ?_
      rw [mem_singleton]
      intro heq
      exact hnotin (mem_map.mpr ⟨d, hd, heq⟩)
    have hshift : ∀ j (h : j < rest.length),
        ExtentIdx.parse root (entryOffset (i + 1 + j)) = rest[j].idx := by
      intro j hj
      rw [add_assoc, add_comm 1 j]
      exact hentries (j + 1) (succ_lt_succ hj)
    rw [length_cons, range'_succ]
    unfold truncateLoop
    rw [hidx]
    refine ends_readBlock_bind ?_
    rw [if_neg (by rw [hc.leaf.header]; exact not_not_intro rfl), hc.leaf.header]
    dsimp only
    split_ifs with hzero hmove
    · have hempty : pruneExtents cut c.extents = [] := by
        rw [← length_eq_zero_iff, ← hlength, hzero]
      refine (ends_freeBlock s hc.holds).bind ?_ fun _ _ h => h
      intro _ u hreleased
      refine (ih (i + 1) count root _ u (by omega) hshift (hrest u hreleased.frame) hnodup').mono ?_
        fun _ _ h => h
      intro r s' h
      exact h.drop hempty hreleased.frame
    all_goals
      have hne : pruneExtents cut c.extents ≠ [] := by
        intro hempty
        rw [hlength, hempty] at hzero
        exact hzero rfl
      refine (ends_writeBlock c.idx.leafBlock _ s).bind ?_ fun _ _ h => h
      intro _ u hwrite
      have hbranch : BranchAt g u (c.prune cut) := by
        refine ⟨hc.holds, hc.ne_zero, (hwrite.used _).trans hc.used, ?_⟩
        rw [Branch.prune, hwrite.read_self]
        exact hleaf
    · refine (ih (i + 1) (count + 1) _ blocks u (by omega) ?_ (hrest u hwrite.frame) hnodup').mono
        ?_ fun _ _ h => h
      · intro j hj
        rw [← hshift j hj]
        exact ExtentIdx.parse_congr fun k hk =>
          copyWithin_apply_of_outside (by unfold entryOffset; omega)
      · intro r s' h
        refine h.keep hne hwrite.frame ?_ (fun j hj => copyWithin_apply_of_outside (.inl hj))
          hbranch hnotin
        rw [← hidx]
        exact ExtentIdx.parse_congr fun k hk => copyWithin_apply hk
    · obtain rfl : count = i := not_not.mp hmove
      refine (ih (count + 1) (count + 1) _ blocks u le_rfl hshift (hrest u hwrite.frame)
        hnodup').mono ?_ fun _ _ h => h
      intro r s' h
      exact h.keep hne hwrite.frame hidx (fun _ _ => rfl) hbranch hnotin

lemma blocks_pruneBranches (cut : ℕ) (branches : List Branch) :
    ((pruneBranches cut branches).map fun c => c.idx.leafBlock).Sublist
      (branches.map fun c => c.idx.leafBlock) := by
  have hmap : (branches.map (Branch.prune cut)).map (fun c => c.idx.leafBlock) =
      branches.map fun c => c.idx.leafBlock := by
    rw [map_map]
    rfl
  rw [← hmap]
  exact (filter_sublist).map _

/-- Truncation on the bytes is pruning of the tree; it does not fail. -/
lemma ends_truncateExtentTree {inode : Inode} {t : Tree} (h : Represents g s inode.block t)
    (newBlockCount : ℕ) :
    (truncateExtentTree g inode newBlockCount).Ends s
      (fun inode' s' => Frame g t.blocks s s' ∧ SameFile inode inode' ∧
        Represents g s' inode'.block (t.prune (newBlockCount % 2 ^ 32)))
      (fun _ _ => False) := by
  cases t with
  | leaf extents =>
    have hleaf : IsLeaf inode.block 60 extents := h
    obtain ⟨-, hpruned⟩ := hleaf.pruned (by norm_num) (newBlockCount % 2 ^ 32)
    unfold truncateExtentTree
    simp only [hleaf.header, ne_eq, not_true_eq_false, if_false, if_true]
    exact Fallible.ends_pure ⟨Frame.refl g _ s, ⟨rfl, rfl, rfl, rfl⟩, hpruned⟩
  | index branches =>
    obtain ⟨hindex, hbranches, hnodup⟩ := h
    have hvisible := hindex.visible
    have hentries := hindex.entries
    have hroom := hindex.room
    rw [length_map] at hvisible hentries hroom
    unfold truncateExtentTree
    simp only [hindex.header, length_map, ne_eq, not_true_eq_false, if_false, one_ne_zero,
      hvisible, range_eq_range']
    refine (ends_truncateLoop branches 0 0 inode.block inode.blocks s le_rfl ?_ hbranches
      hnodup).bind ?_ fun _ _ h => h
    · intro j hj
      rw [zero_add, ← @getElem_indexEntries inode.block branches.length j (by simpa using hj)]
      simp only [hentries, getElem_map]
    · rintro ⟨entries, root, blocks⟩ s' hcompacted
      have hsub := blocks_pruneBranches (newBlockCount % 2 ^ 32) branches
      have hle := hsub.length_le
      rw [length_map, length_map] at hle
      have hcount : entries = (pruneBranches (newBlockCount % 2 ^ 32) branches).length := by
        rw [← zero_add (pruneBranches _ _).length]
        exact hcompacted.count_eq
      refine Fallible.ends_pure ⟨hcompacted.frame, ⟨rfl, rfl, rfl, rfl⟩, ⟨?_, ?_, ?_⟩,
        hcompacted.branchAt, hnodup.sublist hsub⟩
      · rw [length_map, parse_writeU16_two _ (by omega), hcount,
          parse_congr fun j hj => hcompacted.before j (by unfold entryOffset; omega),
          hindex.header]
      · refine ext_getElem (by simp) fun j hj hj' => ?_
        rw [length_map] at hj'
        rw [getElem_indexEntries, getElem_map, ← hcompacted.entries j hj', zero_add]
        exact ExtentIdx.parse_congr fun k hk =>
          writeU16_apply_of_outside (by unfold entryOffset; omega)
      · rw [length_map]
        omega

end Kevlar.Ext2
