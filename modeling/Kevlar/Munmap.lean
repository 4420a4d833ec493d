import Kevlar.PageWalk

/-!
# Write-back of shared file mappings in `munmap`

`sys_munmap` collects the resident pages of shared file mappings in the range
before the areas are cut, clears the page table, and then writes each collected
page to its file, always a full page. A file is the byte vector of the in-memory
file system, whose `write` first grows the vector to the end of the written
range. The data of a file after the call is compared with what a shared mapping
promises: the same length, the bytes of the resident pages where they lie inside
the file, and the old bytes elsewhere.
-/
namespace Kevlar
open Function List

/-- `write` of a file: grow with zeros to the end of the range, then copy. -/
def fileWrite (data : List UInt8) (offset : ℕ) (page : ℕ → UInt8) : List UInt8 :=
  let newLen := wadd offset pageSize
  let grown := data ++ List.replicate (newLen - data.length) 0
  grown.mapIdx fun i b => if offset ≤ i ∧ i < newLen then page (i - offset) else b

/-- `SharedWriteback`. -/
structure SharedWriteback where
  file : FileId
  fileOffset : ℕ
  paddr : Frame

/-- The process, the contents of the frames and the files. -/
structure MunmapState where
  vm : Vm
  space : Space
  pages : Frame → ℕ → UInt8
  files : FileId → List UInt8

/-- The positions of a page-by-page loop from `start` below `stop`. -/
def cursors (start stop : ℕ) : List ℕ :=
  (List.range ((stop - start + (pageSize - 1)) / pageSize)).map fun i => start + i * pageSize

/-- The resident pages of one area that are to be written back. -/
def writebacksOf (s : Space) (addr stop : ℕ) (vma : VmArea) : List SharedWriteback :=
  if vma.endAddr ≤ addr ∨ stop ≤ vma.start then []
  else if !vma.isShared then []
  else match vma.areaType with
    | .file file baseOffset _ =>
      (cursors (max addr vma.start) (min stop vma.endAddr)).filterMap fun cursor =>
        (s.lookupPaddr (cursor / pageSize)).map fun paddr =>
          ⟨file, wadd baseOffset (cursor - vma.start), paddr⟩
    | _ => []

def writeBack (pages : Frame → ℕ → UInt8) (files : FileId → List UInt8)
    (wbs : List SharedWriteback) : FileId → List UInt8 :=
  wbs.foldl (fun files wb => update files wb.file
    (fileWrite (files wb.file) wb.fileOffset (pages wb.paddr))) files

namespace Space

def unmapHugeUserPage (s : Space) (page : ℕ) : Option Frame × Space :=
  match s (page / 512) with
  | .huge e => (some e.frame, update s (page / 512) .empty)
  | _ => (none, s)

/-- One turn of the loop that clears the page table, with the next position. -/
def unmapStep (s : Space) (cursor stop : ℕ) : ℕ × Space :=
  let page := cursor / pageSize
  let r := s.unmapHugeUserPage page
  if isAligned cursor hugePageSize && decide (wadd cursor hugePageSize ≤ stop) && r.1.isSome then
    (cursor + hugePageSize, r.2)
  else (cursor + pageSize, ((s.splitHugePage page).2.unmapUserPage page).2)

def unmapLoop (stop : ℕ) : ℕ → ℕ → Space → Space
  | 0, _, s => s
  | fuel + 1, cursor, s =>
    if cursor < stop then
      unmapLoop stop fuel (s.unmapStep cursor stop).1 (s.unmapStep cursor stop).2
    else s

end Space

/-- `sys_munmap`. An area that cannot be cut ends the call before anything is
unmapped or written. -/
def sysMunmap (st : MunmapState) (addr len : ℕ) : Except Errno Unit × MunmapState :=
  if !isAligned addr pageSize then (.error .EINVAL, st)
  else if len = 0 then (.error .EINVAL, st)
  else
    let len := alignUp len pageSize
    let stop := wadd addr len
    let wbs := st.vm.vmAreas.flatMap (writebacksOf st.space addr stop)
    match st.vm.removeVmaRange addr len with
    | (.error e, vm) => (.error e, { st with vm := vm })
    | (.ok (), vm) => (.ok (), { st with
        vm := vm
        space := Space.unmapLoop stop (len / pageSize) addr st.space
        files := writeBack st.pages st.files wbs })

/-- The byte that a shared mapping holds for a position of its file, if the
position lies in a resident page of the range. -/
def mappedByte (st : MunmapState) (vma : VmArea) (baseOffset addr stop i : ℕ) : Option UInt8 :=
  let cursor := vma.start + (i - baseOffset) / pageSize * pageSize
  if baseOffset ≤ i ∧ addr ≤ cursor ∧ cursor < stop ∧ cursor < vma.endAddr then
    (st.space.lookupPaddr (cursor / pageSize)).map fun paddr =>
      st.pages paddr ((i - baseOffset) % pageSize)
  else none

/-- The file that unmapping a shared mapping should leave. -/
def syncedFile (st : MunmapState) (vma : VmArea) (baseOffset addr stop : ℕ)
    (data : List UInt8) : List UInt8 :=
  data.mapIdx fun i b => (mappedByte st vma baseOffset addr stop i).getD b

section Writes

variable {data : List UInt8} {offset i : ℕ} {page : ℕ → UInt8}

lemma length_fileWrite (h : offset + pageSize < 2 ^ 64) :
    (fileWrite data offset page).length = max data.length (offset + pageSize) := by
  simp only [fileWrite, wadd_of_lt h, length_mapIdx, length_append, length_replicate]
  omega

lemma getElem?_fileWrite (h : offset + pageSize ≤ data.length)
    (hlt : offset + pageSize < 2 ^ 64) :
    (fileWrite data offset page)[i]? = data[i]?.map fun b =>
      if offset ≤ i ∧ i < offset + pageSize then page (i - offset) else b := by
  have hgrow : data ++ replicate (offset + pageSize - data.length) 0 = data := by
    rw [Nat.sub_eq_zero_of_le h, replicate_zero, append_nil]
  simp only [fileWrite, wadd_of_lt hlt, hgrow, getElem?_mapIdx]

/-- The writes to one file, in order. -/
def applyWrites (pages : Frame → ℕ → UInt8) (data : List UInt8) (wbs : List SharedWriteback) :
    List UInt8 :=
  wbs.foldl (fun data wb => fileWrite data wb.fileOffset (pages wb.paddr)) data

variable {pages : Frame → ℕ → UInt8} {wbs : List SharedWriteback}

lemma writeBack_apply (files : FileId → List UInt8) (f : FileId) :
    writeBack pages files wbs f =
      applyWrites pages (files f) (wbs.filter fun wb => wb.file = f) := by
  induction wbs generalizing files with
  | nil => rfl
  | cons wb wbs ih =>
    have hcons : writeBack pages files (wb :: wbs) = writeBack pages (update files
        wb.file (fileWrite (files wb.file) wb.fileOffset (pages wb.paddr))) wbs := rfl
    rw [hcons, ih]
    by_cases hf : wb.file = f
    · subst hf
      rw [filter_cons_of_pos (by simp), update_self]
      rfl
    · rw [filter_cons_of_neg (by simpa using hf), update_of_ne (Ne.symm hf)]

lemma le_length_applyWrites (hlt : ∀ wb ∈ wbs, wb.fileOffset + pageSize < 2 ^ 64) :
    data.length ≤ (applyWrites pages data wbs).length ∧
      ∀ wb ∈ wbs, wb.fileOffset + pageSize ≤ (applyWrites pages data wbs).length := by
  induction wbs generalizing data with
  | nil => simp [applyWrites]
  | cons wb wbs ih =>
    have htail : ∀ w ∈ wbs, w.fileOffset + pageSize < 2 ^ 64 :=
      fun w hw => hlt w (mem_cons_of_mem _ hw)
    obtain ⟨hle, hall⟩ := @ih (fileWrite data wb.fileOffset (pages wb.paddr)) htail
    rw [length_fileWrite (hlt wb mem_cons_self)] at hle
    refine ⟨le_trans (le_max_left _ _) hle, fun w hw => ?_⟩
    rcases mem_cons.mp hw with rfl | hw
    · exact le_trans (le_max_right _ _) hle
    · exact hall w hw

/-- The position lies in the range that the write-back writes. -/
def SharedWriteback.Covers (wb : SharedWriteback) (i : ℕ) : Prop :=
  wb.fileOffset ≤ i ∧ i < wb.fileOffset + pageSize

/-- Writes that stay inside the file and agree on a position: the position holds
what they write there, or the old byte if none covers it. -/
lemma getElem?_applyWrites {v : UInt8}
    (hfit : ∀ wb ∈ wbs, wb.fileOffset + pageSize ≤ data.length)
    (hlt : ∀ wb ∈ wbs, wb.fileOffset + pageSize < 2 ^ 64)
    (hv : ∀ wb ∈ wbs, wb.Covers i → pages wb.paddr (i - wb.fileOffset) = v) :
    ((∃ wb ∈ wbs, wb.Covers i) → (applyWrites pages data wbs)[i]? = data[i]?.map fun _ => v) ∧
      ((∀ wb ∈ wbs, ¬wb.Covers i) → (applyWrites pages data wbs)[i]? = data[i]?) := by
  induction wbs generalizing data with
  | nil => simp [applyWrites]
  | cons wb wbs ih =>
    have hcons : applyWrites pages data (wb :: wbs) =
        applyWrites pages (fileWrite data wb.fileOffset (pages wb.paddr)) wbs := rfl
    have hhead := hfit wb mem_cons_self
    have hwrite := fun i => @getElem?_fileWrite data wb.fileOffset i (pages wb.paddr) hhead
      (hlt wb mem_cons_self)
    have hlen : (fileWrite data wb.fileOffset (pages wb.paddr)).length = data.length := by
      rw [length_fileWrite (hlt wb mem_cons_self), max_eq_left hhead]
    obtain ⟨hin, hout⟩ := @ih (fileWrite data wb.fileOffset (pages wb.paddr))
      (fun w hw => by rw [hlen]; exact hfit w (mem_cons_of_mem _ hw))
      (fun w hw => hlt w (mem_cons_of_mem _ hw))
      (fun w hw => hv w (mem_cons_of_mem _ hw))
    rw [hcons]
    refine ⟨?_, fun hno => ?_⟩
    · rintro ⟨w, hw, hcov⟩
      by_cases hrest : ∃ w ∈ wbs, w.Covers i
      · rw [hin hrest, hwrite]
        simp [Option.map_map, comp_def]
      · have hwb : wb.Covers i := by
          rcases mem_cons.mp hw with rfl | hw
          · exact hcov
          · exact absurd ⟨w, hw, hcov⟩ hrest
        rw [hout fun w hw hc => hrest ⟨w, hw, hc⟩, hwrite]
        refine congrArg (fun g => data[i]?.map g) (funext fun b => ?_)
        exact (if_pos hwb).trans (hv wb mem_cons_self hwb)
    · rw [hout fun w hw => hno w (mem_cons_of_mem _ hw), hwrite]
      have hnot : ¬(wb.fileOffset ≤ i ∧ i < wb.fileOffset + pageSize) := hno wb mem_cons_self
      simp [if_neg hnot]

end Writes

section Range

variable {st : MunmapState} {vma : VmArea} {f : FileId} {baseOffset fileSize addr stop : ℕ}

lemma mem_cursors {start c : ℕ} :
    c ∈ cursors start stop ↔ c % pageSize = start % pageSize ∧ start ≤ c ∧ c < stop := by
  simp only [cursors, mem_map, mem_range]
  have hp : pageSize = 4096 := rfl
  constructor
  · rintro ⟨i, hi, rfl⟩
    rw [hp] at hi ⊢
    omega
  · rintro ⟨hmod, hle, hlt⟩
    refine ⟨(c - start) / pageSize, ?_, ?_⟩ <;> (rw [hp] at hmod ⊢; omega)

/-- The resident pages of a page-aligned shared mapping in the range. -/
structure ResidentPage (st : MunmapState) (vma : VmArea) (addr stop c : ℕ) (paddr : Frame) :
    Prop where
  aligned : c % pageSize = 0
  inRange : addr ≤ c ∧ c < stop
  inArea : vma.start ≤ c ∧ c < vma.endAddr
  resident : st.space.lookupPaddr (c / pageSize) = some paddr

lemma mem_writebacksOf (hshared : vma.isShared = true)
    (hfile : vma.areaType = .file f baseOffset fileSize) (haddr : addr % pageSize = 0)
    (hstart : vma.start % pageSize = 0) {wb : SharedWriteback} :
    wb ∈ writebacksOf st.space addr stop vma ↔ ∃ c, ResidentPage st vma addr stop c wb.paddr ∧
      wb.file = f ∧ wb.fileOffset = wadd baseOffset (c - vma.start) := by
  have hmax : max addr vma.start % pageSize = 0 := by
    rcases max_choice addr vma.start with h | h <;> rw [h] <;> assumption
  by_cases hout : vma.endAddr ≤ addr ∨ stop ≤ vma.start
  · simp only [writebacksOf, if_pos hout, not_mem_nil, false_iff, not_exists, not_and]
    intro c hc
    have := hc.inRange
    have := hc.inArea
    omega
  · simp only [writebacksOf, if_neg hout, hshared, hfile, Bool.not_true, Bool.false_eq_true,
      if_false, mem_filterMap, Option.map_eq_some_iff, mem_cursors, hmax]
    constructor
    · rintro ⟨c, ⟨hmod, hlo, hhi⟩, paddr, hres, rfl⟩
      exact ⟨c, ⟨hmod, ⟨by omega, by omega⟩, ⟨by omega, by omega⟩, hres⟩, rfl, rfl⟩
    · rintro ⟨c, hc, hf, ho⟩
      have hr := hc.inRange
      have ha := hc.inArea
      refine ⟨c, ⟨hc.aligned, by omega, by omega⟩, wb.paddr, hc.resident, ?_⟩
      rw [← hf, ← ho]

/-- An area that is no other shared mapping of the file in the range writes
nothing to it. -/
lemma file_ne_of_sole {v : VmArea} {s : Space} {wb : SharedWriteback}
    (hv : v.isShared = true → (∀ o n, v.areaType ≠ .file f o n) ∨
      v.endAddr ≤ addr ∨ stop ≤ v.start) (hwb : wb ∈ writebacksOf s addr stop v) :
    wb.file ≠ f := by
  unfold writebacksOf at hwb
  split at hwb
  · simp at hwb
  rename_i hin
  split at hwb
  · simp at hwb
  rename_i hshared
  rcases hv (by simpa using hshared) with hne | hout
  · split at hwb
    · rename_i file o n htype
      obtain ⟨c, -, hc⟩ := mem_filterMap.mp hwb
      obtain ⟨paddr, -, rfl⟩ := Option.map_eq_some_iff.mp hc
      rintro rfl
      exact hne o n htype
    · simp at hwb
  · exact absurd hout hin

/-- A page covers a position of the file exactly where the mapping says. -/
lemma covers_iff {c i : ℕ} (hc : c % pageSize = 0) (hstart : vma.start % pageSize = 0)
    (hle : vma.start ≤ c) :
    (baseOffset + (c - vma.start) ≤ i ∧ i < baseOffset + (c - vma.start) + pageSize) ↔
      baseOffset ≤ i ∧ c = vma.start + (i - baseOffset) / pageSize * pageSize := by
  have hp : pageSize = 4096 := rfl
  rw [hp] at hc hstart ⊢
  obtain ⟨k, rfl⟩ : ∃ k, c = vma.start + k * 4096 := ⟨(c - vma.start) / 4096, by omega⟩
  omega

lemma mappedByte_eq_some {c i : ℕ} {paddr : Frame} (hc : ResidentPage st vma addr stop c paddr)
    (hi : baseOffset ≤ i ∧ c = vma.start + (i - baseOffset) / pageSize * pageSize) :
    mappedByte st vma baseOffset addr stop i =
      some (st.pages paddr (i - (baseOffset + (c - vma.start)))) := by
  have hrange := hc.inRange
  have harea := hc.inArea
  have hpos : i - (baseOffset + (c - vma.start)) = (i - baseOffset) % pageSize := by
    have hdiv := Nat.div_add_mod (i - baseOffset) pageSize
    rw [mul_comm] at hdiv
    omega
  rw [mappedByte, ← hi.2, if_pos ⟨hi.1, hrange.1, hrange.2, harea.2⟩, hc.resident, hpos]
  rfl

lemma mappedByte_eq_none {i : ℕ} (hstart : vma.start % pageSize = 0)
    (h : ∀ c paddr, ResidentPage st vma addr stop c paddr →
      ¬(baseOffset ≤ i ∧ c = vma.start + (i - baseOffset) / pageSize * pageSize)) :
    mappedByte st vma baseOffset addr stop i = none := by
  simp only [mappedByte]
  split
  · rename_i hin
    cases hres : st.space.lookupPaddr
        ((vma.start + (i - baseOffset) / pageSize * pageSize) / pageSize) with
    | none => rfl
    | some paddr =>
      refine absurd ⟨hin.1, rfl⟩ (h _ paddr ⟨?_, ⟨hin.2.1, hin.2.2.1⟩, ?_, hres⟩)
      · rw [Nat.add_mul_mod_self_right, hstart]
      · exact ⟨Nat.le_add_right _ _, hin.2.2.2⟩
  · rfl

/-- Write-backs of the pages of a shared mapping that stay inside the file leave
exactly the file that the mapping promises. -/
lemma applyWrites_synced {wbs : List SharedWriteback} {data : List UInt8}
    (hstart : vma.start % pageSize = 0) (hoff : baseOffset + vma.endAddr + pageSize < 2 ^ 64)
    (hmem : ∀ wb, wb ∈ wbs ↔ ∃ c, ResidentPage st vma addr stop c wb.paddr ∧ wb.file = f ∧
      wb.fileOffset = baseOffset + (c - vma.start))
    (hfit : ∀ wb ∈ wbs, wb.fileOffset + pageSize ≤ data.length) :
    applyWrites st.pages data wbs = syncedFile st vma baseOffset addr stop data := by
  have hlt : ∀ wb ∈ wbs, wb.fileOffset + pageSize < 2 ^ 64 := by
    intro wb hwb
    obtain ⟨c, hc, -, ho⟩ := (hmem wb).mp hwb
    have := hc.inArea
    omega
  refine ext_getElem? fun i => ?_
  have hbyte : ∀ wb ∈ wbs, wb.Covers i → mappedByte st vma baseOffset addr stop i =
      some (st.pages wb.paddr (i - wb.fileOffset)) := by
    intro wb hwb hcov
    obtain ⟨c, hc, -, ho⟩ := (hmem wb).mp hwb
    rw [SharedWriteback.Covers, ho] at hcov
    rw [ho]
    exact mappedByte_eq_some hc ((covers_iff hc.aligned hstart hc.inArea.1).mp hcov)
  rw [syncedFile, getElem?_mapIdx]
  by_cases hcov : ∃ wb ∈ wbs, wb.Covers i
  · obtain ⟨wb, hwb, hc⟩ := hcov
    have hv := hbyte wb hwb hc
    rw [(getElem?_applyWrites hfit hlt fun w hw hcw =>
      Option.some.inj ((hbyte w hw hcw).symm.trans hv)).1 ⟨wb, hwb, hc⟩, hv]
    rfl
  · have hnone : mappedByte st vma baseOffset addr stop i = none := by
      refine mappedByte_eq_none hstart fun c paddr hc hi => hcov ?_
      refine ⟨⟨f, baseOffset + (c - vma.start), paddr⟩, (hmem _).mpr ⟨c, hc, rfl, rfl⟩, ?_⟩
      exact (covers_iff hc.aligned hstart hc.inArea.1).mpr hi
    have hno : ∀ wb ∈ wbs, ¬wb.Covers i := fun wb hwb hc => hcov ⟨wb, hwb, hc⟩
    rw [(@getElem?_applyWrites data i st.pages wbs 0 hfit hlt
      fun w hw hcw => absurd hcw (hno w hw)).2 hno, hnone]
    simp

end Range

/-- A successful call writes the collected pages and nothing else to the files. -/
lemma sysMunmap_files {st : MunmapState} {addr len : ℕ}
    (hok : (sysMunmap st addr len).1 = .ok ()) :
    addr % pageSize = 0 ∧ (sysMunmap st addr len).2.files = writeBack st.pages st.files
      (st.vm.vmAreas.flatMap (writebacksOf st.space addr (wadd addr (alignUp len pageSize)))) := by
  unfold sysMunmap at hok ⊢
  by_cases haddr : (!isAligned addr pageSize) = true
  · rw [if_pos haddr] at hok
    simp at hok
  rw [if_neg haddr] at hok ⊢
  by_cases hlen : len = 0
  · rw [if_pos hlen] at hok
    simp at hok
  rw [if_neg hlen] at hok ⊢
  refine ⟨by simpa [isAligned] using haddr, ?_⟩
  dsimp only at hok ⊢
  split at hok
  · simp at hok
  · rfl

/-- One resident page of a shared mapping of file 1 with the given contents. -/
def sharedFile (data : List UInt8) : MunmapState where
  vm := { Vm.new 1 0 0 with
    vmAreas := [⟨pageSize, pageSize, .file 1 0 data.length, .rw, true, 0⟩] }
  space := fun r => if r = 0 then .table fun j => if j = 1 then ⟨5, .ofProt .rw⟩ else 0 else .empty
  pages := fun _ _ => 9
  files := fun _ => data

end Kevlar
