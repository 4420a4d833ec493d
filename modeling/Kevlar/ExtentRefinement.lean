import Kevlar.ExtentNodes

/-!
# Extent trees of one and two levels

The code builds trees whose root is a leaf or an index of leaves. `Represents` says
which tree the bytes of an inode and of its leaf blocks hold. Lookup, allocation and
truncation on the bytes are the operations below on the tree.
-/
namespace Kevlar.Ext2
open List Nat Extent Option ByteBuffer

/-- An entry of the root with the extents of the leaf that it points to. -/
structure Branch where
  idx : ExtentIdx
  extents : List Extent

inductive Tree
  | leaf (extents : List Extent)
  | index (branches : List Branch)

namespace Tree

/-- The blocks of the leaves. -/
def blocks : Tree → List ℕ
  | leaf _ => []
  | index branches => branches.map fun c => c.idx.leafBlock

end Tree

/-- The leaf of a branch is on the disk. -/
structure BranchAt (g : Geometry) (s : Fs) (c : Branch) : Prop where
  holds : g.Holds c.idx.leafBlock
  ne_zero : c.idx.leafBlock ≠ 0
  used : s.used g c.idx.leafBlock = true
  leaf : IsLeaf (s.store.read c.idx.leafBlock) g.blockSize c.extents

/-- The tree that a root and the blocks below it hold. -/
def Represents (g : Geometry) (s : Fs) (root : Bytes) : Tree → Prop
  | .leaf extents => IsLeaf root 60 extents
  | .index branches =>
    IsIndex root (branches.map Branch.idx) ∧ (∀ c ∈ branches, BranchAt g s c) ∧
      (branches.map fun c => c.idx.leafBlock).Nodup

variable {g : Geometry} {s s' : Fs} {c : Branch} {branches : List Branch} {logicalBlock len p i : ℕ}
  {extents : List Extent} {leaf : Bytes}

lemma BranchAt.frame {B : List ℕ} (h : BranchAt g s c) (hframe : Frame g B s s')
    (hc : c.idx.leafBlock ∉ B) : BranchAt g s' c := by
  obtain ⟨hused, hread⟩ := hframe _ hc h.used
  refine ⟨h.holds, h.ne_zero, hused, ?_⟩
  rw [hread]
  exact h.leaf

/-! ## Lookup -/

/-- The branch that lookup descends to. -/
def branchFor (branches : List Branch) (logicalBlock : ℕ) : Option Branch :=
  (branches.takeWhile fun c => decide (c.idx.logicalBlock ≤ logicalBlock)).getLast?

def Tree.resolve : Tree → ℕ → Except Errno ℕ
  | .leaf extents, logicalBlock => .ok (lookupExtents extents logicalBlock)
  | .index branches, logicalBlock =>
    match branchFor branches logicalBlock with
    | some c => .ok (lookupExtents c.extents logicalBlock)
    | none => .error .eio

lemma childFor_map : childFor (branches.map Branch.idx) logicalBlock =
      (branchFor branches logicalBlock).map Branch.idx := by
  rw [childFor, branchFor, takeWhile_map, getLast?_map]
  rfl

lemma mem_of_branchFor (h : branchFor branches logicalBlock = some c) : c ∈ branches :=
  (takeWhile_sublist _).mem (mem_of_getLast? h)

lemma resolveExtentInNode_leaf {data : Bytes} (h : IsLeaf data len extents) (depthLimit : ℕ)
    (s : Fs) :
    resolveExtentInNode g logicalBlock depthLimit data len s =
      (.ok (lookupExtents extents logicalBlock), s) := by
  unfold resolveExtentInNode
  simp only [h.header, h.visible, h.entries, ne_eq, not_true_eq_false, if_false, not_lt_zero,
    if_true]
  rfl

/-- Lookup on the bytes is lookup in the tree. -/
lemma resolveExtent_eq {inode : Inode} {t : Tree} (h : Represents g s inode.block t)
    (logicalBlock : ℕ) :
    resolveExtent g inode logicalBlock s = (t.resolve (logicalBlock % 2 ^ 32), s) := by
  cases t with
  | leaf extents => exact resolveExtentInNode_leaf h _ s
  | index branches =>
    obtain ⟨hindex, hbranches, -⟩ := h
    have hentries := hindex.entries
    rw [length_map] at hentries
    have hvisible := hindex.visible
    rw [length_map] at hvisible
    unfold resolveExtent resolveExtentInNode maxExtentDepth
    simp only [hindex.header, length_map, hvisible, hentries, ne_eq, not_true_eq_false,
      if_false, one_ne_zero, childFor_map, reduceLT, Tree.resolve]
    cases hc : branchFor branches (logicalBlock % 2 ^ 32) with
    | none => rfl
    | some c =>
      have hleaf := (hbranches c (mem_of_branchFor hc)).leaf
      exact resolveExtentInNode_leaf hleaf 4 s

/-! ## Insertion into a leaf -/

/-- An extent that grew by the block `p` for `logicalBlock` at one of its ends. -/
inductive Extends (logicalBlock : ℕ) (ext : Extent) (p : ℕ) : Extent → Prop
  | append (hstop : ext.stop = logicalBlock) (hinit : ext.isUninitialized = false)
      (hp : p = ext.physicalStart + ext.blockCount) :
      Extends logicalBlock ext p { ext with len := (ext.len + 1) % 2 ^ 16 }
  | prepend (hstart : ext.logicalBlock = (logicalBlock + 1) % 2 ^ 32)
      (hinit : ext.isUninitialized = false) (hp : p + 1 = ext.physicalStart) :
      Extends logicalBlock ext p (Extent.new logicalBlock ((ext.len + 1) % 2 ^ 16) p)

/-- What an insertion into a leaf does to its extents. -/
inductive LeafInsert (logicalBlock p : ℕ) : List Extent → List Extent → Prop
  | extend {lower upper : List Extent} {ext ext' : Extent} (h : Extends logicalBlock ext p ext') :
      LeafInsert logicalBlock p (lower ++ ext :: upper) (lower ++ ext' :: upper)
  | insert (extents : List Extent) :
      LeafInsert logicalBlock p extents
        (extents.insertIdx (insertPos extents logicalBlock) (Extent.new logicalBlock 1 p))

lemma insertPos_le (extents : List Extent) (logicalBlock : ℕ) :
    insertPos extents logicalBlock ≤ extents.length :=
  findIdx_le_length

lemma ends_takeGoal (g : Geometry) (goal : ℕ) (s : Fs) :
    (takeGoal g goal).Ends s
      (fun r s' => Frame g [] s s' ∧ ∀ p, r = some p → p = goal ∧ Gained g s p s')
      (fun _ s' => Frame g [] s s') := by
  refine (ends_allocBlockNear g goal s).bind ?_ ?_
  · intro newPhys u htaken
    split_ifs with hgoal
    · refine Fallible.ends_pure ⟨htaken.frame, ?_⟩
      rintro p hp
      cases hp
      exact ⟨hgoal, htaken.gained⟩
    · refine (ends_freeBlock u htaken.holds).bind ?_ fun _ _ h => h.elim
      intro _ v hreleased
      refine Fallible.ends_pure ⟨Frame.taken_released htaken hreleased, ?_⟩
      intro p hp
      cases hp
  · rintro e u rfl
    exact Frame.refl g [] _

lemma ends_tryAppend (g : Geometry) (logicalBlock : ℕ) (ext : Extent) (s : Fs) :
    (tryAppend g logicalBlock ext).Ends s
      (fun r s' => Frame g [] s s' ∧ ∀ p, r = some p → Gained g s p s' ∧
        Extends logicalBlock ext p { ext with len := (ext.len + 1) % 2 ^ 16 })
      (fun _ s' => Frame g [] s s') := by
  unfold tryAppend
  split_ifs with hnext
  · refine (ends_takeGoal g _ s).mono ?_ fun _ _ h => h
    rintro r s' ⟨hframe, hgoal⟩
    refine ⟨hframe, fun p hp => ?_⟩
    obtain ⟨heq, hgained⟩ := hgoal p hp
    exact ⟨hgained, .append hnext.1 hnext.2.2 heq⟩
  · refine Fallible.ends_pure ⟨Frame.refl g [] s, ?_⟩
    intro p hp
    cases hp

lemma ends_tryPrepend (g : Geometry) (logicalBlock : ℕ) (ext : Extent) (s : Fs) :
    (tryPrepend g logicalBlock ext).Ends s
      (fun r s' => Frame g [] s s' ∧ ∀ p, r = some p → Gained g s p s' ∧
        Extends logicalBlock ext p (new logicalBlock ((ext.len + 1) % 2 ^ 16) p))
      (fun _ s' => Frame g [] s s') := by
  unfold tryPrepend
  split_ifs with hnext
  · obtain ⟨hstart, -, hinit, hpos⟩ := hnext
    refine (ends_takeGoal g _ s).mono ?_ fun _ _ h => h
    rintro r s' ⟨hframe, hgoal⟩
    refine ⟨hframe, fun p hp => ?_⟩
    obtain ⟨heq, hgained⟩ := hgoal p hp
    exact ⟨hgained, .prepend hstart hinit (by omega)⟩
  · refine Fallible.ends_pure ⟨Frame.refl g [] s, ?_⟩
    intro p hp
    cases hp

/-- Entry `i` of a node was replaced by a longer extent. -/
structure Lengthened (leaf : Bytes) (logicalBlock p i : ℕ) (leaf' : Bytes) : Prop where
  entry : Extends logicalBlock (Extent.parse leaf (entryOffset i)) p
    (Extent.parse leaf' (entryOffset i))
  other : ∀ j, j < entryOffset i ∨ entryOffset i + 12 ≤ j → leaf' j = leaf j

lemma lengthened_append (h : Extends logicalBlock (parse leaf (entryOffset i)) p
      { parse leaf (entryOffset i) with
        len := ((parse leaf (entryOffset i)).len + 1) % 2 ^ 16 }) :
    Lengthened leaf logicalBlock p i
      (writeU16 leaf (entryOffset i + 4) ((parse leaf (entryOffset i)).len + 1)) := by
  refine ⟨?_, fun j hj => writeU16_apply_of_outside (by omega)⟩
  rw [parse_writeU16_len]
  exact h

lemma lengthened_prepend (hlb : logicalBlock < 2 ^ 32)
    (h : Extends logicalBlock (parse leaf (entryOffset i)) p
      (new logicalBlock (((parse leaf (entryOffset i)).len + 1) % 2 ^ 16) p)) :
    Lengthened leaf logicalBlock p i
      ((new logicalBlock ((parse leaf (entryOffset i)).len + 1) p).serialize leaf
        (entryOffset i)) := by
  refine ⟨?_, fun j hj => serialize_apply_of_outside hj⟩
  have hparse : parse ((new logicalBlock
      ((parse leaf (entryOffset i)).len + 1) p).serialize leaf (entryOffset i))
      (entryOffset i) =
      new logicalBlock (((parse leaf (entryOffset i)).len + 1) % 2 ^ 16) p := by
    rw [parse_serialize, new, new, mod_eq_of_lt hlb, mod_mod,
      mod_mod]
  rw [hparse]
  exact h

lemma ends_tryExtend (g : Geometry) (leaf : Bytes) (hlb : logicalBlock < 2 ^ 32) (is : List ℕ)
    (s : Fs) :
    (tryExtend g leaf logicalBlock is).Ends s
      (fun r s' => Frame g [] s s' ∧ ∀ p leaf', r = some (p, leaf') →
        Gained g s p s' ∧ ∃ i ∈ is, Lengthened leaf logicalBlock p i leaf')
      (fun _ s' => Frame g [] s s') := by
  induction is generalizing s with
  | nil =>
    refine Fallible.ends_pure ⟨Frame.refl g [] s, ?_⟩
    intro p leaf' hp
    cases hp
  | cons i rest ih =>
    refine (ends_tryAppend g logicalBlock (parse leaf (entryOffset i)) s).bind ?_ fun _ _ h => h
    rintro (_ | p) u ⟨hframe, happend⟩
    · refine (ends_tryPrepend g logicalBlock (parse leaf (entryOffset i)) u).bind ?_
        fun _ _ h => hframe.trans h
      rintro (_ | p) v ⟨hframe', hprepend⟩
      · refine (ih v).mono ?_ fun _ _ h => (hframe.trans hframe').trans h
        rintro r s' ⟨hframe'', hrest⟩
        refine ⟨(hframe.trans hframe').trans hframe'', fun p leaf' hr => ?_⟩
        obtain ⟨hgained, k, hk, hlen⟩ := hrest p leaf' hr
        exact ⟨(hframe.trans hframe').gained hgained, k, mem_cons_of_mem _ hk, hlen⟩
      · obtain ⟨hgained, hext⟩ := hprepend p rfl
        refine Fallible.ends_pure ⟨hframe.trans hframe', ?_⟩
        intro p' leaf' heq
        cases heq
        exact ⟨hframe.gained hgained, i, mem_cons_self, lengthened_prepend hlb hext⟩
    · obtain ⟨hgained, hext⟩ := happend p rfl
      refine Fallible.ends_pure ⟨hframe, ?_⟩
      intro p' leaf' heq
      cases heq
      exact ⟨hgained, i, mem_cons_self, lengthened_append hext⟩

/-- A longer extent in a leaf. -/
lemma IsLeaf.lengthened {leaf' : Bytes} (h : IsLeaf leaf len extents) (hi : i < extents.length)
    (hlen : Lengthened leaf logicalBlock p i leaf') :
    ∃ extents', LeafInsert logicalBlock p extents extents' ∧ IsLeaf leaf' len extents' := by
  have hget : extents[i] = parse leaf (entryOffset i) := by
    have hentries := h.entries
    rw [← @getElem_leafExtents leaf extents.length i (by simpa using hi)]
    simp only [hentries]
  refine ⟨extents.set i (parse leaf' (entryOffset i)), ?_, ?_, ?_, ?_⟩
  · have hsplit : extents = extents.take i ++ extents[i] :: extents.drop (i + 1) := by
      rw [← drop_eq_getElem_cons hi, take_append_drop]
    have hset : extents.set i (parse leaf' (entryOffset i)) =
        extents.take i ++ parse leaf' (entryOffset i) :: extents.drop (i + 1) := by
      rw [set_eq_take_append_cons_drop, if_pos hi]
    rw [hset]
    nth_rewrite 1 [hsplit]
    refine .extend ?_
    rw [hget]
    exact hlen.entry
  · rw [length_set, ← h.header]
    exact ExtentHeader.parse_congr fun j hj => hlen.other j (by unfold entryOffset; omega)
  · rw [length_set, leafExtents_set rfl hlen.other, h.entries]
  · rw [length_set]
    exact h.room

/-- A new extent in a leaf that has room. -/
lemma IsLeaf.inserted {leaf : Bytes} {len logicalBlock p : ℕ} {extents : List Extent}
    (h : IsLeaf leaf len extents) (hroom : extents.length < (len - 12) / 12)
    (hlen : (len - 12) / 12 < 2 ^ 16) (hlb : logicalBlock < 2 ^ 32) :
    IsLeaf (ExtentHeader.serialize
        { ExtentHeader.parse leaf with entries := (ExtentHeader.parse leaf).entries + 1 }
        ((new logicalBlock 1 p).serialize
          (shiftEntries leaf (insertPos extents logicalBlock) extents.length)
          (entryOffset (insertPos extents logicalBlock)))) len
      (extents.insertIdx (insertPos extents logicalBlock) (new logicalBlock 1 p)) := by
  have hpos := insertPos_le extents logicalBlock
  have hlength : (extents.insertIdx (insertPos extents logicalBlock)
      (new logicalBlock 1 p)).length = extents.length + 1 :=
    length_insertIdx_of_le_length hpos _
  have hentries := h.entries
  refine ⟨?_, ?_, by omega⟩
  · rw [hlength, h.header]
    exact ExtentHeader.parse_serialize (by norm_num [extMagic]) (by dsimp only; omega) hlen
      (by norm_num)
  · rw [hlength, leafExtents_congr fun j hj _ =>
      ExtentHeader.serialize_apply_of_outside (by omega),
      leafExtents_insert hpos (fits_new hlb (by norm_num)), hentries]

/-! ## Allocation -/

/-- The index that replaces a full root, with leaves in the blocks `a` and `b`. -/
def splitTree (extents : List Extent) (logicalBlock p a b : ℕ) : Tree :=
  let extents := extents.insertIdx (insertPos extents logicalBlock) (Extent.new logicalBlock 1 p)
  let lower := extents.take (extents.length / 2)
  let upper := extents.drop (extents.length / 2)
  .index [⟨ExtentIdx.new (firstKey lower) a, lower⟩, ⟨ExtentIdx.new (firstKey upper) b, upper⟩]

/-- The branch that allocation descends to. -/
def insertBranch (branches : List Branch) (logicalBlock : ℕ) : Option Branch :=
  (branchFor branches logicalBlock).orElse fun _ => branches.head?

/-- Lookup of `logicalBlock` in these branches ends at `c`. -/
structure Routed (lower : List Branch) (c : Branch) (upper : List Branch) (logicalBlock : ℕ) :
    Prop where
  below : ∀ d ∈ lower, d.idx.logicalBlock ≤ logicalBlock
  key_le : c.idx.logicalBlock ≤ logicalBlock
  above : ∀ d ∈ upper.head?, logicalBlock < d.idx.logicalBlock

/-- What an allocation does to a tree. -/
inductive TreeInsert (logicalBlock p : ℕ) : Tree → Tree → Prop
  | leaf {extents extents' : List Extent} (h : LeafInsert logicalBlock p extents extents') :
      TreeInsert logicalBlock p (.leaf extents) (.leaf extents')
  | split {extents : List Extent} (a b : ℕ) (hfull : extents.length = 4) :
      TreeInsert logicalBlock p (.leaf extents) (splitTree extents logicalBlock p a b)
  | index {lower upper : List Branch} {c : Branch} {extents' : List Extent}
      (hroute : Routed lower c upper logicalBlock ∨
        lower = [] ∧ logicalBlock < c.idx.logicalBlock)
      (h : LeafInsert logicalBlock p c.extents extents') :
      TreeInsert logicalBlock p (.index (lower ++ c :: upper))
        (.index (lower ++ ⟨c.idx, extents'⟩ :: upper))

lemma firstKey_lt (hfits : ∀ ext ∈ extents, ext.Fits) :
    firstKey extents < 2 ^ 32 := by
  cases extents with
  | nil => exact Nat.two_pow_pos 32
  | cons ext rest => exact (hfits ext mem_cons_self).logicalBlock_lt

/-- The root that a split writes. -/
lemma isIndex_split (root : Bytes) {key key' : ℕ} (hkey : key < 2 ^ 32) (hkey' : key' < 2 ^ 32)
    (a b : ℕ) :
    IsIndex ((ExtentIdx.new key' b).serialize ((ExtentIdx.new key a).serialize
        (ExtentHeader.serialize ⟨extMagic, 2, 4, 1⟩ root) 12) 24)
      [ExtentIdx.new key a, ExtentIdx.new key' b] := by
  refine ⟨?_, ?_, by norm_num⟩
  · rw [ExtentHeader.parse_congr fun i hi => ExtentIdx.serialize_apply_of_outside (by omega),
      ExtentHeader.parse_congr fun i hi => ExtentIdx.serialize_apply_of_outside (by omega)]
    exact ExtentHeader.parse_serialize (by norm_num [extMagic]) (by norm_num) (by norm_num)
      (by norm_num)
  · have hfirst : ExtentIdx.parse ((ExtentIdx.new key' b).serialize ((ExtentIdx.new key a).serialize
        (ExtentHeader.serialize ⟨extMagic, 2, 4, 1⟩ root) 12) 24) 12 = ExtentIdx.new key a := by
      rw [ExtentIdx.parse_congr fun i hi => ExtentIdx.serialize_apply_of_outside (by omega)]
      exact ExtentIdx.parse_serialize_new hkey _ 12
    have hsecond := @ExtentIdx.parse_serialize_new key' b hkey'
      ((ExtentIdx.new key a).serialize (ExtentHeader.serialize ⟨extMagic, 2, 4, 1⟩ root) 12) 24
    change [ExtentIdx.parse _ 12, ExtentIdx.parse _ 24] = _
    rw [hfirst, hsecond]

/-- Two new leaves below a new root. -/
lemma represents_split {root : Bytes} {a b : ℕ} (hfits : ∀ ext ∈ extents, ext.Fits)
    (hfull : extents.length = 4) (hlb : logicalBlock < 2 ^ 32) (hzero : Reserved g s)
    (ha : Gained g s a s') (hb : Gained g s b s') (hab : a ≠ b) {lower upper all : List Extent}
    (hall : all = extents.insertIdx (insertPos extents logicalBlock) (new logicalBlock 1 p))
    (hlower : lower = all.take (all.length / 2)) (hupper : upper = all.drop (all.length / 2))
    (hreadA : s'.store.read a = leafNode g lower) (hreadB : s'.store.read b = leafNode g upper) :
    Represents g s' ((ExtentIdx.new (firstKey upper) b).serialize
        ((ExtentIdx.new (firstKey lower) a).serialize
          (ExtentHeader.serialize ⟨extMagic, 2, 4, 1⟩ root) 12) 24)
      (splitTree extents logicalBlock p a b) := by
  have hfitsAll : ∀ ext ∈ all, ext.Fits := by
    intro ext hext
    rw [hall] at hext
    rcases eq_or_mem_of_mem_insertIdx hext with rfl | hmem
    · exact fits_new hlb (by norm_num)
    · exact hfits ext hmem
  have hfitsLower : ∀ ext ∈ lower, ext.Fits := fun ext hext =>
    hfitsAll ext (mem_of_mem_take (hlower ▸ hext))
  have hfitsUpper : ∀ ext ∈ upper, ext.Fits := fun ext hext =>
    hfitsAll ext (mem_of_mem_drop (hupper ▸ hext))
  have hlength : all.length = 5 := by
    rw [hall, length_insertIdx_of_le_length (insertPos_le _ _), hfull]
  have hsize := g.blockSize_ge
  have hleafA := @ExtentIdx.leafBlock_new (firstKey lower) a (by have := ha.holds.lt; omega)
  have hleafB := @ExtentIdx.leafBlock_new (firstKey upper) b (by have := hb.holds.lt; omega)
  have hbranchA : BranchAt g s' ⟨ExtentIdx.new (firstKey lower) a, lower⟩ := by
    refine ⟨?_, ?_, ?_, ?_⟩ <;> simp only [hleafA]
    · exact ha.holds
    · exact ha.ne_zero hzero
    · exact ha.used
    · rw [hreadA]
      refine isLeaf_leafNode hfitsLower ?_
      rw [hlower, length_take]
      omega
  have hbranchB : BranchAt g s' ⟨ExtentIdx.new (firstKey upper) b, upper⟩ := by
    refine ⟨?_, ?_, ?_, ?_⟩ <;> simp only [hleafB]
    · exact hb.holds
    · exact hb.ne_zero hzero
    · exact hb.used
    · rw [hreadB]
      refine isLeaf_leafNode hfitsUpper ?_
      rw [hupper, length_drop]
      omega
  rw [splitTree, ← hall, ← hlower, ← hupper]
  refine ⟨isIndex_split root (firstKey_lt hfitsLower) (firstKey_lt hfitsUpper) a b, ?_, ?_⟩
  · intro c hc
    rcases mem_pair.mp hc with rfl | rfl
    · exact hbranchA
    · exact hbranchB
  · simp only [map_cons, map_nil, hleafA, hleafB]
    simpa using hab

lemma ends_splitAndInsert {root : Bytes} (h : IsLeaf root 60 extents) (hfull : extents.length = 4)
    (hlb : logicalBlock < 2 ^ 32) (hzero : Reserved g s) :
    (splitAndInsert g root 60 4 logicalBlock).Ends s
      (fun r s' => Frame g [] s s' ∧ Gained g s r.1 s' ∧
        ∃ a b, Represents g s' r.2 (splitTree extents logicalBlock r.1 a b) ∧
          (a ≠ r.1 ∧ Gained g s a s') ∧ b ≠ r.1 ∧ Gained g s b s')
      (fun _ s' => Frame g [] s s') := by
  unfold splitAndInsert
  rw [if_pos (by rw [h.header]; exact ⟨rfl, le_rfl⟩), h.header, h.entries]
  refine (ends_allocBlock g s).bind ?_ (by rintro e u rfl; exact Frame.refl g [] _)
  intro p u₁ hp
  refine (ends_allocBlock g u₁).bind ?_ (by rintro e u rfl; exact hp.frame)
  intro a u₂ ha
  refine (ends_allocBlock g u₂).bind ?_ (by rintro e u rfl; exact hp.frame.trans ha.frame)
  intro b u₃ hb
  refine (ends_writeBlock a _ u₃).bind ?_ fun _ _ h => h.elim
  intro _ u₄ hwriteA
  refine (ends_writeBlock b _ u₄).bind ?_ fun _ _ h => h.elim
  intro _ s' hwriteB
  have hframe₂ : Frame g [] s u₂ := hp.frame.trans ha.frame
  have hfreshA : s.used g a = false := hp.frame.fresh ha.fresh
  have hfreshB : s.used g b = false := hframe₂.fresh hb.fresh
  have hab : a ≠ b := (hb.gained.ne ha.used_self).symm
  have hused : ∀ x, u₃.used g x = true → s'.used g x = true := fun x hx =>
    (hwriteB.used x).trans ((hwriteA.used x).trans hx)
  have husedA : u₃.used g a = true := (hb.frame a not_mem_nil ha.used_self).1
  have hgainP : Gained g s p u₃ := (hp.gained.frame ha.frame).frame hb.frame
  have hgainA : Gained g s a s' := ⟨ha.holds, hfreshA, hused a husedA⟩
  have hgainB : Gained g s b s' := ⟨hb.holds, hfreshB, hused b hb.used_self⟩
  have hpa : a ≠ p := ha.gained.ne hp.used_self
  have hpb : b ≠ p := hb.gained.ne (hp.gained.frame ha.frame).used
  refine Fallible.ends_pure ⟨?_, ⟨hp.holds, hp.fresh, hused p hgainP.used⟩, a, b, ?_,
    ⟨hpa, hgainA⟩, hpb, hgainB⟩
  · exact hwriteB.frame.fresh_of (hwriteA.frame.fresh_of (hframe₂.trans hb.frame) hfreshA) hfreshB
  · refine represents_split (fun ext => h.fits) hfull hlb hzero hgainA hgainB hab rfl rfl rfl ?_
      hwriteB.read_self
    rw [hwriteB.read_of_ne hab, hwriteA.read_self]

/-- Insertion into a leaf, with a full leaf left to the split. -/
lemma ends_insertExtentInLeaf {Q : ℕ × Bytes → Fs → Prop} (h : IsLeaf leaf len extents)
    (hlen : (len - 12) / 12 < 2 ^ 16) (hlb : logicalBlock < 2 ^ 32)
    (hinsert : ∀ p leaf' extents' s', Frame g [] s s' → Gained g s p s' →
      LeafInsert logicalBlock p extents extents' → IsLeaf leaf' len extents' → Q (p, leaf') s')
    (hsplit : ∀ u, Frame g [] s u → extents.length = (len - 12) / 12 →
      (splitAndInsert g leaf len ((len - 12) / 12) logicalBlock).Ends u Q
        (fun _ s' => Frame g [] s s')) :
    (insertExtentInLeaf g leaf len ((len - 12) / 12) logicalBlock).Ends s Q
      (fun _ s' => Frame g [] s s') := by
  unfold insertExtentInLeaf
  rw [if_neg (by rw [h.header]; exact not_not_intro rfl)]
  refine (ends_tryExtend g leaf hlb _ s).bind ?_ fun _ _ h => h
  rintro (_ | ⟨p, leaf'⟩) u ⟨hframe, hextend⟩
  · split_ifs with hfull
    · rw [h.header] at hfull
      exact hsplit u hframe (le_antisymm h.room hfull)
    · rw [h.header] at hfull
      refine (ends_allocBlock g u).bind ?_ (by rintro e v rfl; exact hframe)
      intro p s' hp
      have hleaf := @IsLeaf.inserted leaf len logicalBlock p extents h (not_le.mp hfull) hlen hlb
      refine Fallible.ends_pure (hinsert _ _ _ _ (hframe.trans hp.frame) (hframe.gained hp.gained)
        (.insert extents) ?_)
      rw [h.header] at hleaf ⊢
      rw [h.entries]
      exact hleaf
  · obtain ⟨hgained, i, hi, hlengthened⟩ := hextend p leaf' rfl
    rw [h.header, mem_range] at hi
    obtain ⟨extents', hins, hleaf⟩ := h.lengthened hi hlengthened
    exact Fallible.ends_pure (hinsert _ _ _ _ hframe hgained hins hleaf)

lemma exists_routed (h : branchFor branches logicalBlock = some c) :
    ∃ lower upper, branches = lower ++ c :: upper ∧ Routed lower c upper logicalBlock := by
  obtain ⟨lower, hlower⟩ := getLast?_eq_some_iff.mp h
  have hpass : ∀ d ∈ lower ++ [c], d.idx.logicalBlock ≤ logicalBlock := by
    intro d hd
    rw [← hlower] at hd
    exact of_decide_eq_true (all_eq_true.mp all_takeWhile d hd)
  refine ⟨lower, branches.dropWhile fun d => decide (d.idx.logicalBlock ≤ logicalBlock), ?_,
    fun d hd => hpass d (mem_append_left _ hd), hpass c (by simp), fun d hd => ?_⟩
  · rw [append_cons, ← hlower, takeWhile_append_dropWhile]
  · have hnot := head?_dropWhile_not
      (fun d : Branch => decide (d.idx.logicalBlock ≤ logicalBlock)) branches
    rw [mem_def.mp hd] at hnot
    simpa using hnot

lemma exists_insertBranch (h : insertBranch branches logicalBlock = some c) :
    ∃ lower upper, branches = lower ++ c :: upper ∧ (Routed lower c upper logicalBlock ∨
      lower = [] ∧ logicalBlock < c.idx.logicalBlock) := by
  unfold insertBranch at h
  cases hfor : branchFor branches logicalBlock with
  | none =>
    rw [hfor] at h
    cases branches with
    | nil => cases h
    | cons d upper =>
      obtain rfl : d = c := some.inj h
      refine ⟨[], upper, rfl, .inr ⟨rfl, ?_⟩⟩
      by_contra hle
      rw [branchFor, takeWhile_cons, if_pos (by simpa using hle), getLast?_eq_none_iff] at hfor
      cases hfor
  | some d =>
    rw [hfor] at h
    cases h
    obtain ⟨lower, upper, heq, hroute⟩ := exists_routed hfor
    exact ⟨lower, upper, heq, .inl hroute⟩

lemma findExtentLeaf_eq {root : Bytes} (h : IsIndex root (branches.map Branch.idx))
    (logicalBlock : ℕ) :
    findExtentLeaf g logicalBlock 1 root 60 =
      match insertBranch branches logicalBlock with
      | some c => pure c.idx.leafBlock
      | none => Fallible.throw .eio := by
  have hentries := h.entries
  have hvisible := h.visible
  rw [length_map] at hentries hvisible
  unfold findExtentLeaf insertBranch
  simp only [h.header, length_map, hvisible, hentries, childFor_map]
  cases hfor : branchFor branches logicalBlock with
  | some c => rfl
  | none =>
    cases branches with
    | nil => rfl
    | cons c rest =>
      have hfirst : ExtentIdx.parse root 12 = c.idx := by
        have hhead := congrArg head? hentries
        simpa [indexEntries, head?_range, entryOffset] using hhead
      simp only [map_none, orElse_none, length_cons, zero_lt_succ, if_true, hfirst, head?_cons]

/-- A branch whose leaf was rewritten. -/
lemma represents_set {u : Fs} {root : Bytes} {lower upper : List Branch} {extents' : List Extent}
    (h : Represents g s root (.index (lower ++ c :: upper))) (hframe : Frame g [] s u)
    (hwrite : Written u c.idx.leafBlock leaf s') (hleaf : IsLeaf leaf g.blockSize extents') :
    Represents g s' root (.index (lower ++ ⟨c.idx, extents'⟩ :: upper)) := by
  obtain ⟨hindex, hbranches, hnodup⟩ := h
  have hc := hbranches c (by simp)
  have hother : ∀ d ∈ lower ++ upper, d.idx.leafBlock ≠ c.idx.leafBlock := by
    intro d hd heq
    rw [map_append, map_cons] at hnodup
    have hmem := (nodup_middle.mp hnodup).notMem
    rw [← map_append] at hmem
    exact hmem (heq ▸ mem_map_of_mem hd)
  refine ⟨?_, fun d hd => ?_, ?_⟩
  · simpa using hindex
  · rcases mem_append.mp hd with hd | hd
    · exact ((hbranches d (by simp [hd])).frame hframe not_mem_nil).frame hwrite.frame
        (by simpa using hother d (by simp [hd]))
    · rcases mem_cons.mp hd with rfl | hd
      · refine ⟨hc.holds, hc.ne_zero, ?_, ?_⟩
        · exact (hwrite.used _).trans (hframe _ not_mem_nil hc.used).1
        · rw [hwrite.read_self]
          exact hleaf
      · exact ((hbranches d (by simp [hd])).frame hframe not_mem_nil).frame hwrite.frame
          (by simpa using hother d (by simp [hd]))
  · simpa using hnodup

/-- A tree with one more block, the leaves of which were there or are new. -/
structure TreeAllocated (g : Geometry) (s : Fs) (t : Tree) (logicalBlock p : ℕ) (s' : Fs)
    (root' : Bytes) (t' : Tree) : Prop where
  insert : TreeInsert logicalBlock p t t'
  represents : Represents g s' root' t'
  ne : ∀ b ∈ t'.blocks, b ≠ p
  blocks : ∀ b ∈ t'.blocks, b ∈ t.blocks ∨ Gained g s b s'

lemma blocks_splitTree {extents : List Extent} {logicalBlock p a b : ℕ} (ha : a < 2 ^ 48)
    (hb : b < 2 ^ 48) : (splitTree extents logicalBlock p a b).blocks = [a, b] := by
  rw [splitTree, Tree.blocks, map_cons, map_cons, map_nil,
    ExtentIdx.leafBlock_new ha, ExtentIdx.leafBlock_new hb]

lemma TreeAllocated.root {u : Fs} {root' : Bytes} (hframe : Frame g [] s u)
    (h : ∃ a b, Represents g s' root' (splitTree extents logicalBlock p a b) ∧
      (a ≠ p ∧ Gained g u a s') ∧ b ≠ p ∧ Gained g u b s') (hfull : extents.length = 4) :
    ∃ t', TreeAllocated g s (.leaf extents) logicalBlock p s' root' t' := by
  obtain ⟨a, b, hrep, ⟨hap, ha⟩, hbp, hb⟩ := h
  have hlta := ha.holds.lt
  have hltb := hb.holds.lt
  have hblocks := @blocks_splitTree extents logicalBlock p a b (by omega) (by omega)
  refine ⟨_, .split a b hfull, hrep, fun c hc => ?_, fun c hc => .inr ?_⟩
  · rw [hblocks] at hc
    rcases mem_pair.mp hc with rfl | rfl
    · exact hap
    · exact hbp
  · rw [hblocks] at hc
    rcases mem_pair.mp hc with rfl | rfl
    · exact hframe.gained ha
    · exact hframe.gained hb

/-- Allocation on the bytes is insertion into the tree. -/
lemma ends_allocExtentBlock {inode : Inode} {t : Tree} (h : Represents g s inode.block t)
    (hzero : Reserved g s) (logicalBlock : ℕ) :
    (allocExtentBlock g inode logicalBlock).Ends s
      (fun r s' => Frame g t.blocks s s' ∧ Gained g s r.1 s' ∧ SameFile inode r.2 ∧
        ∃ t', TreeAllocated g s t (logicalBlock % 2 ^ 32) r.1 s' r.2.block t')
      (fun _ s' => Frame g [] s s') := by
  have hlb : logicalBlock % 2 ^ 32 < 2 ^ 32 := mod_lt _ (by norm_num)
  cases t with
  | leaf extents =>
    have hleaf : IsLeaf inode.block 60 extents := h
    unfold allocExtentBlock
    simp only [hleaf.header, ne_eq, not_true_eq_false, if_false, if_true]
    refine Fallible.Ends.bind (Q := fun r s' => Frame g [] s s' ∧ Gained g s r.1 s' ∧
      ∃ t', TreeAllocated g s (.leaf extents) (logicalBlock % 2 ^ 32) r.1 s' r.2 t')
      (ends_insertExtentInLeaf hleaf (by norm_num) hlb ?_ ?_) ?_ fun _ _ h => h
    · intro p leaf' extents' s' hframe hgained hinsert hleaf'
      exact ⟨hframe, hgained, .leaf extents', .leaf hinsert, hleaf', nofun, nofun⟩
    · intro u hframe hfull
      refine (ends_splitAndInsert hleaf hfull hlb (hzero.frame hframe not_mem_nil)).mono ?_
        fun _ _ h => hframe.trans h
      rintro r s' ⟨hframe', hgained, hsplit⟩
      exact ⟨hframe.trans hframe', hframe.gained hgained, TreeAllocated.root hframe hsplit hfull⟩
    · rintro r s' ⟨hframe, hgained, hrest⟩
      exact Fallible.ends_pure ⟨hframe, hgained, ⟨rfl, rfl, rfl, rfl⟩, hrest⟩
  | index branches =>
    have hindex : IsIndex inode.block (branches.map Branch.idx) := h.1
    unfold allocExtentBlock
    simp only [hindex.header, ne_eq, not_true_eq_false, if_false, one_ne_zero,
      findExtentLeaf_eq hindex]
    cases hbranch : insertBranch branches (logicalBlock % 2 ^ 32) with
    | none => exact Fallible.ends_throw (Frame.refl g [] s)
    | some c =>
      obtain ⟨lower, upper, rfl, hroute⟩ := exists_insertBranch hbranch
      have hc : BranchAt g s c := h.2.1 c (by simp)
      have hsize := g.blockSize_le
      have hlow := g.blockSize_ge
      refine Fallible.ends_pure_bind (ends_readBlock_bind ?_)
      rw [hc.leaf.header]
      refine Fallible.Ends.bind (Q := fun r u => Frame g [] s u ∧ Gained g s r.1 u ∧
        ∃ extents', LeafInsert (logicalBlock % 2 ^ 32) r.1 c.extents extents' ∧
          IsLeaf r.2 g.blockSize extents')
        (ends_insertExtentInLeaf hc.leaf (by omega) hlb ?_ ?_) ?_ fun _ _ h => h
      · intro p leaf' extents' u hframe hgained hinsert hleaf'
        exact ⟨hframe, hgained, extents', hinsert, hleaf'⟩
      · intro u hframe _
        rw [splitAndInsert, if_neg (by omega)]
        exact Fallible.ends_throw hframe
      · rintro ⟨p, leaf'⟩ u ⟨hframe, hgained, extents', hinsert, hleaf'⟩
        refine (ends_writeBlock _ _ u).bind ?_ fun _ _ h => h.elim
        intro _ s' hwrite
        have hblocks : (Tree.index (lower ++ ⟨c.idx, extents'⟩ :: upper)).blocks =
            (Tree.index (lower ++ c :: upper)).blocks := by
          simp [Tree.blocks]
        refine Fallible.ends_pure ⟨?_, ?_, ⟨rfl, rfl, rfl, rfl⟩, _, .index hroute hinsert,
          represents_set h hframe hwrite hleaf', fun b hb => ?_, fun b hb => .inl ?_⟩
        · refine (hframe.mono (nil_subset _)).trans (hwrite.frame.mono ?_)
          intro b hb
          rw [mem_singleton.mp hb]
          exact mem_map_of_mem (by simp)
        · exact ⟨hgained.holds, hgained.fresh, (hwrite.used p).trans hgained.used⟩
        · rw [hblocks] at hb
          obtain ⟨d, hd, rfl⟩ := mem_map.mp hb
          exact (hgained.ne (h.2.1 d hd).used).symm
        · rw [← hblocks]
          exact hb

end Kevlar.Ext2
