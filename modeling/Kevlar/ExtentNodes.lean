import Kevlar.ExtentTree

/-!
# Nodes of extent trees as lists of entries

A node is read as the list of its entries. The functions that change a node change
that list: they replace an entry, insert one in its place or drop some at the end.
-/
namespace Kevlar.Ext2
open List Nat Extent ByteBuffer

namespace ExtentHeader

lemma parse_congr {data data' : Bytes} (h : ∀ i < 8, data' i = data i) :
    parse data' = parse data := by
  have hread : ∀ off ≤ 6, readU16 data' off = readU16 data off := fun off hoff =>
    readU16_congr fun i hi => h (off + i) (by omega)
  rw [parse, parse, hread 0 (by omega), hread 2 (by omega), hread 4 (by omega), hread 6 (by omega)]

lemma serialize_apply_of_outside {header : ExtentHeader} {buf : Bytes} {j : ℕ} (h : 8 ≤ j) :
    header.serialize buf j = buf j := by
  rw [serialize, writeU16_apply_of_outside (by omega), writeU16_apply_of_outside (by omega),
    writeU16_apply_of_outside (by omega), writeU16_apply_of_outside (by omega)]

lemma parse_serialize {header : ExtentHeader} {buf : Bytes} (hmagic : header.magic < 2 ^ 16)
    (hentries : header.entries < 2 ^ 16) (hmax : header.max < 2 ^ 16)
    (hdepth : header.depth < 2 ^ 16) : parse (header.serialize buf) = header := by
  unfold parse serialize
  simp (disch := omega) only [readU16_writeU16, readU16_writeU16_of_disjoint, mod_eq_of_lt hmagic,
    mod_eq_of_lt hentries, mod_eq_of_lt hmax, mod_eq_of_lt hdepth]

/-- A new number of entries. -/
lemma parse_writeU16_two (data : Bytes) {entries : ℕ} (h : entries < 2 ^ 16) :
    parse (writeU16 data 2 entries) = { parse data with entries := entries } := by
  unfold parse
  simp (disch := omega) only [readU16_writeU16, readU16_writeU16_of_disjoint, mod_eq_of_lt h]

end ExtentHeader

variable {data data' : Bytes} {n : ℕ} {ext : Extent} {extents : List Extent}

/-- Entries of the same twelve bytes have the same fields. -/
lemma reads_congr {off off' : ℕ} (h : ∀ i < 12, data' (off' + i) = data (off + i)) :
    readU32 data' off' = readU32 data off ∧
      (∀ k ≤ 10, readU16 data' (off' + k) = readU16 data (off + k)) ∧
      ∀ k ≤ 8, readU32 data' (off' + k) = readU32 data (off + k) := by
  have hmove : ∀ k i, k + i < 12 → data' (off' + k + i) = data (off + k + i) := by
    intro k i hki
    rw [add_assoc, add_assoc]
    exact h (k + i) hki
  refine ⟨readU32_congr fun i hi => h i (by omega), fun k hk => ?_, fun k hk => ?_⟩
  · exact readU16_congr fun i hi => hmove k i (by omega)
  · exact readU32_congr fun i hi => hmove k i (by omega)

namespace Extent

/-- The fields have the widths of the format. -/
structure Fits (ext : Extent) : Prop where
  logicalBlock_lt : ext.logicalBlock < 2 ^ 32
  len_lt : ext.len < 2 ^ 16
  startHi_lt : ext.startHi < 2 ^ 16
  startLo_lt : ext.startLo < 2 ^ 32

lemma fits_parse (data : Bytes) (off : ℕ) : (parse data off).Fits :=
  ⟨readU32_lt _ _, readU16_lt _ _, readU16_lt _ _, readU32_lt _ _⟩

lemma fits_new {logicalBlock len physStart : ℕ} (hlogical : logicalBlock < 2 ^ 32)
    (hlen : len < 2 ^ 16) : (new logicalBlock len physStart).Fits :=
  ⟨hlogical, hlen, mod_lt _ (by norm_num), mod_lt _ (by norm_num)⟩

lemma parse_congr {data data' : Bytes} {off off' : ℕ}
    (h : ∀ i < 12, data' (off' + i) = data (off + i)) : parse data' off' = parse data off := by
  obtain ⟨h0, h16, h32⟩ := reads_congr h
  rw [parse, parse, h0, h16 4 (by omega), h16 6 (by omega), h32 8 (by omega)]

lemma serialize_apply_of_outside {ext : Extent} {buf : Bytes} {off j : ℕ}
    (h : j < off ∨ off + 12 ≤ j) : ext.serialize buf off j = buf j := by
  rw [serialize, writeU32_apply_of_outside (by omega), writeU16_apply_of_outside (by omega),
    writeU16_apply_of_outside (by omega), writeU32_apply_of_outside (by omega)]

/-- What is read back of a stored extent is cut to the widths of the format. -/
lemma parse_serialize (ext : Extent) (buf : Bytes) (off : ℕ) :
    parse (ext.serialize buf off) off =
      ⟨ext.logicalBlock % 2 ^ 32, ext.len % 2 ^ 16, ext.startHi % 2 ^ 16,
        ext.startLo % 2 ^ 32⟩ := by
  unfold parse serialize
  simp (disch := omega) only [readU16_writeU16, readU16_writeU16_of_disjoint, readU32_writeU32,
    readU32_writeU32_of_disjoint, readU16_writeU32_of_disjoint, readU32_writeU16_of_disjoint]

lemma Fits.parse_serialize {ext : Extent} (h : ext.Fits) (buf : Bytes) (off : ℕ) :
    parse (ext.serialize buf off) off = ext := by
  rw [Extent.parse_serialize, mod_eq_of_lt h.logicalBlock_lt, mod_eq_of_lt h.len_lt,
    mod_eq_of_lt h.startHi_lt, mod_eq_of_lt h.startLo_lt]

lemma parse_writeU16_len (off len : ℕ) :
    parse (writeU16 data (off + 4) len) off = { parse data off with len := len % 2 ^ 16 } := by
  unfold parse
  simp (disch := omega) only [readU16_writeU16, readU16_writeU16_of_disjoint,
    readU32_writeU16_of_disjoint]

end Extent

namespace ExtentIdx

lemma parse_congr {data data' : Bytes} {off off' : ℕ}
    (h : ∀ i < 12, data' (off' + i) = data (off + i)) : parse data' off' = parse data off := by
  obtain ⟨h0, h16, h32⟩ := reads_congr h
  rw [parse, parse, h0, h32 4 (by omega), h16 8 (by omega)]

lemma serialize_apply_of_outside {idx : ExtentIdx} {buf : Bytes} {off j : ℕ}
    (h : j < off ∨ off + 12 ≤ j) : idx.serialize buf off j = buf j := by
  rw [serialize, writeU16_apply_of_outside (by omega), writeU16_apply_of_outside (by omega),
    writeU32_apply_of_outside (by omega), writeU32_apply_of_outside (by omega)]

lemma parse_serialize_new {key leaf : ℕ} (hkey : key < 2 ^ 32) (buf : Bytes) (off : ℕ) :
    parse ((new key leaf).serialize buf off) off = new key leaf := by
  unfold parse serialize new
  simp (disch := omega) only [readU16_writeU16, readU16_writeU16_of_disjoint, readU32_writeU32,
    readU32_writeU32_of_disjoint, readU32_writeU16_of_disjoint, mod_eq_of_lt hkey, mod_mod]

lemma leafBlock_new {key leaf : ℕ} (h : leaf < 2 ^ 48) : (new key leaf).leafBlock = leaf := by
  unfold leafBlock new
  dsimp only
  omega

end ExtentIdx

/-! ## The entries of a node -/

lemma entryOffset_succ (i : ℕ) : entryOffset (i + 1) = entryOffset i + 12 := by
  unfold entryOffset
  omega

lemma entryOffset_le {i j : ℕ} (h : i ≤ j) : entryOffset i ≤ entryOffset j := by
  unfold entryOffset
  omega

@[simp] lemma length_leafExtents : (leafExtents data n).length = n := by
  rw [leafExtents, length_map, length_range]

@[simp] lemma length_indexEntries (data : Bytes) (n : ℕ) :
    (indexEntries data n).length = n := by
  rw [indexEntries, length_map, length_range]

@[simp] lemma getElem_leafExtents {data : Bytes} {n i : ℕ} (h : i < (leafExtents data n).length) :
    (leafExtents data n)[i] = parse data (entryOffset i) := by
  simp only [leafExtents, getElem_map, getElem_range]

@[simp] lemma getElem_indexEntries {data : Bytes} {n i : ℕ}
    (h : i < (indexEntries data n).length) :
    (indexEntries data n)[i] = ExtentIdx.parse data (entryOffset i) := by
  simp only [indexEntries, getElem_map, getElem_range]

lemma fits_of_mem_leafExtents {data : Bytes} {n : ℕ} {ext : Extent}
    (h : ext ∈ leafExtents data n) : ext.Fits := by
  obtain ⟨i, -, rfl⟩ := mem_map.mp h
  exact fits_parse _ _

lemma leafExtents_congr (h : ∀ j, 12 ≤ j → j < entryOffset n → data' j = data j) :
    leafExtents data' n = leafExtents data n := by
  refine map_congr_left fun i hi => parse_congr fun k hk => ?_
  have hle := entryOffset_le (mem_range.mp hi)
  rw [succ_eq_add_one, entryOffset_succ] at hle
  exact h _ (by unfold entryOffset; omega) (by omega)

lemma leafExtents_take (data : Bytes) {k : ℕ} (h : k ≤ n) :
    (leafExtents data n).take k = leafExtents data k := by
  rw [leafExtents, ← map_take, take_range, min_eq_left h, leafExtents]

/-- Only entry `i` of a node is changed. -/
lemma leafExtents_set {i : ℕ} (hext : parse data' (entryOffset i) = ext)
    (hother : ∀ j, j < entryOffset i ∨ entryOffset i + 12 ≤ j → data' j = data j) :
    leafExtents data' n = (leafExtents data n).set i ext := by
  refine ext_getElem (by simp) fun k hk hk' => ?_
  rw [getElem_leafExtents, getElem_set]
  split_ifs with heq
  · rw [← heq, hext]
  · rw [getElem_leafExtents]
    refine parse_congr fun j hj => hother _ ?_
    unfold entryOffset
    omega

/-- Entries from `pos` on are moved by one place. -/
lemma shiftEntries_apply (leaf : Bytes) (pos k j : ℕ) :
    shiftEntries leaf pos (pos + k) j =
      if entryOffset (pos + 1) ≤ j ∧ j < entryOffset (pos + k + 1) then leaf (j - 12)
      else leaf j := by
  induction k generalizing leaf with
  | zero =>
    rw [if_neg (by unfold entryOffset; omega), shiftEntries, Nat.add_zero, Nat.sub_self]
    rfl
  | succ k ih =>
    have hcons : (range' pos (pos + (k + 1) - pos)).reverse =
        (pos + k) :: (range' pos (pos + k - pos)).reverse := by
      rw [Nat.add_sub_cancel_left, Nat.add_sub_cancel_left, range'_concat,
        reverse_append, one_mul]
      rfl
    have hstep : shiftEntries leaf pos (pos + (k + 1)) =
        shiftEntries (copyWithin leaf (entryOffset (pos + k)) (entryOffset (pos + k + 1)) 12) pos
          (pos + k) := by
      rw [shiftEntries, hcons, foldl_cons]
      rfl
    rw [hstep, ih]
    unfold copyWithin entryOffset
    split_ifs <;> first | rfl | (congr 1; omega)

lemma leafExtents_insert {leaf : Bytes} {pos : ℕ} (hpos : pos ≤ n) (hext : ext.Fits) :
    leafExtents (ext.serialize (shiftEntries leaf pos n) (entryOffset pos)) (n + 1) =
      (leafExtents leaf n).insertIdx pos ext := by
  obtain ⟨k, rfl⟩ := Nat.exists_eq_add_of_le hpos
  refine ext_getElem (by simp [length_insertIdx]) fun i hi hi' => ?_
  rw [getElem_leafExtents, getElem_insertIdx]
  rw [length_leafExtents] at hi
  split_ifs with hlt heq
  · rw [getElem_leafExtents]
    refine parse_congr fun j hj => ?_
    rw [serialize_apply_of_outside (by unfold entryOffset; omega), shiftEntries_apply,
      if_neg (by unfold entryOffset; omega)]
  · rw [heq, hext.parse_serialize]
  · rw [getElem_leafExtents]
    refine parse_congr fun j hj => ?_
    rw [serialize_apply_of_outside (by unfold entryOffset; omega), shiftEntries_apply,
      if_pos (by unfold entryOffset; omega)]
    congr 1
    unfold entryOffset
    omega

/-- Entries are stored one after the other. -/
lemma storeEntries_spec (extents : List Extent) (start : ℕ) (buf : Bytes)
    (hfits : ∀ ext ∈ extents, ext.Fits) :
    (∀ j, j < entryOffset start ∨ entryOffset (start + extents.length) ≤ j →
      (extents.zipIdx start).foldl (fun leaf p => p.1.serialize leaf (entryOffset p.2)) buf j =
        buf j) ∧
    ∀ i (h : i < extents.length), parse
      ((extents.zipIdx start).foldl (fun leaf p => p.1.serialize leaf (entryOffset p.2)) buf)
      (entryOffset (start + i)) = extents[i] := by
  induction extents generalizing start buf with
  | nil => exact ⟨fun j _ => rfl, fun i h => absurd h (not_lt_zero i)⟩
  | cons ext rest ih =>
    obtain ⟨hout, hin⟩ := ih (start + 1) (ext.serialize buf (entryOffset start))
      fun e he => hfits e (mem_cons_of_mem _ he)
    rw [zipIdx_cons, foldl_cons]
    refine ⟨fun j hj => ?_, fun i hi => ?_⟩
    · rw [length_cons] at hj
      rw [hout j (by unfold entryOffset at hj ⊢; omega),
        serialize_apply_of_outside (by unfold entryOffset at hj ⊢; omega)]
    · cases i with
      | zero =>
        rw [getElem_cons_zero, ← (hfits ext mem_cons_self).parse_serialize buf (entryOffset start)]
        refine parse_congr fun k hk => ?_
        rw [add_zero, (hfits ext mem_cons_self).parse_serialize]
        exact hout _ (by unfold entryOffset; omega)
      | succ i =>
        rw [getElem_cons_succ, ← hin i (by simpa using hi)]
        congr 2
        omega

/-! ## Leaves and indexes -/

/-- A buffer of `len` bytes holds a leaf with these extents. -/
structure IsLeaf (data : Bytes) (len : ℕ) (extents : List Extent) : Prop where
  header : ExtentHeader.parse data = ⟨extMagic, extents.length, (len - 12) / 12, 0⟩
  entries : leafExtents data extents.length = extents
  room : extents.length ≤ (len - 12) / 12

/-- The area of an inode holds the root of a tree of two levels. -/
structure IsIndex (data : Bytes) (idxs : List ExtentIdx) : Prop where
  header : ExtentHeader.parse data = ⟨extMagic, idxs.length, 4, 1⟩
  entries : indexEntries data idxs.length = idxs
  room : idxs.length ≤ 4

lemma IsLeaf.fits {len : ℕ} (h : IsLeaf data len extents) (hext : ext ∈ extents) : ext.Fits := by
  rw [← h.entries] at hext
  exact fits_of_mem_leafExtents hext

lemma IsLeaf.visible {len : ℕ} (h : IsLeaf data len extents) :
    visible len extents.length = extents.length :=
  min_eq_left h.room

lemma IsIndex.visible {idxs : List ExtentIdx} (h : IsIndex data idxs) :
    visible 60 idxs.length = idxs.length :=
  min_eq_left h.room

lemma isLeaf_initExtentRoot : IsLeaf initExtentRoot 60 [] := by
  refine ⟨?_, rfl, by norm_num⟩
  rw [initExtentRoot, ExtentHeader.parse_serialize] <;> norm_num [extMagic]

lemma isLeaf_leafNode {g : Geometry} (hfits : ∀ ext ∈ extents, ext.Fits)
    (hroom : extents.length ≤ (g.blockSize - 12) / 12) :
    IsLeaf (leafNode g extents) g.blockSize extents := by
  have hsize := g.blockSize_le
  obtain ⟨hout, hin⟩ := storeEntries_spec extents 0
    (ExtentHeader.serialize ⟨extMagic, extents.length, (g.blockSize - 12) / 12, 0⟩ zeros) hfits
  refine ⟨?_, ?_, hroom⟩
  · rw [leafNode, ExtentHeader.parse_congr fun i hi => hout i (by unfold entryOffset; omega)]
    exact ExtentHeader.parse_serialize (by norm_num [extMagic]) (by dsimp only; omega)
      (by dsimp only; omega) (by norm_num)
  · refine ext_getElem (by simp) fun i hi hi' => ?_
    rw [getElem_leafExtents, ← hin i hi', zero_add, leafNode]

end Kevlar.Ext2
