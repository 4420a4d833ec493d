import Kevlar.TmpFs

/-!
# Link counts of the in-memory file system

`create_file` starts the count at one, `link` adds one and `unlink` takes one away. `link` and
`rename` put an entry in the place of the one that had the name before, and the count of that
one stays. Over a run the count is the number of entries plus the number of entries that were
replaced so.
-/
namespace Kevlar.TmpFs
open Option Function Finset

/-- One if the entry refers to the file. -/
def hit (entry : Option INode) (ino : ℕ) : ℕ := if entry = some (.file ino) then 1 else 0

@[simp] lemma hit_none (ino : ℕ) : hit none ino = 0 := rfl

namespace DirInner

/-- The names of a file in a directory. -/
def namesOf (d : DirInner) (ino : ℕ) : Finset String :=
  d.order.toFinset.filter fun name => d.files name = some (.file ino)

section

variable (d : DirInner) (ino : ℕ) (name : String)
include d ino name

lemma mem_namesOf : name ∈ d.namesOf ino ↔ d.files name = some (.file ino) := by
  have hmem : d.files name = some (.file ino) → name ∈ d.order := by
    intro h
    simp [d.mem_order, h]
  simp only [namesOf, mem_filter, List.mem_toFinset]
  exact ⟨And.right, fun h => ⟨hmem h, h⟩⟩

lemma card_erase_namesOf :
    ((d.namesOf ino).erase name).card + hit (d.files name) ino = (d.namesOf ino).card := by
  by_cases h : d.files name = some (.file ino)
  · have hmem := (d.mem_namesOf ino name).mpr h
    simp [hit, h, card_erase_add_one hmem]
  · have hmem : name ∉ d.namesOf ino := fun hm => h ((d.mem_namesOf ino name).mp hm)
    simp [hit, h, erase_eq_of_notMem hmem]

lemma card_remove_namesOf :
    ((d.remove name).2.namesOf ino).card + hit (d.files name) ino = (d.namesOf ino).card := by
  have hnames : (d.remove name).2.namesOf ino = (d.namesOf ino).erase name := by
    ext m
    rw [mem_namesOf, mem_erase, mem_namesOf]
    by_cases hm : m = name <;> simp [remove, hm]
  rw [hnames, card_erase_namesOf]

lemma card_insert_namesOf (inode : INode) :
    ((d.insert name inode).namesOf ino).card + hit (d.files name) ino =
      (d.namesOf ino).card + hit (some inode) ino := by
  rw [← card_erase_namesOf d ino name]
  by_cases h : inode = .file ino
  · have hnames : (d.insert name inode).namesOf ino =
        Insert.insert name ((d.namesOf ino).erase name) := by
      ext m
      rw [mem_namesOf, mem_insert, mem_erase, mem_namesOf]
      by_cases hm : m = name <;> simp [insert, hm, h]
    rw [hnames, card_insert_of_notMem (notMem_erase _ _)]
    simp [hit, h]
    omega
  · have hnames : (d.insert name inode).namesOf ino = (d.namesOf ino).erase name := by
      ext m
      rw [mem_namesOf, mem_erase, mem_namesOf]
      by_cases hm : m = name <;> simp [insert, hm, h]
    rw [hnames]
    simp [hit, h]

end

end DirInner

namespace Fs

/-- The number of directory entries that refer to the file. -/
def refs (fs : Fs) (ino : ℕ) : ℕ :=
  ∑ d ∈ Finset.range fs.nextIno, ((fs.dirs d).namesOf ino).card

variable {d : ℕ}

lemma setDir_refs (fs : Fs) (hd : d < fs.nextIno) (inner : DirInner) (ino : ℕ) :
    (fs.setDir d inner).refs ino + ((fs.dirs d).namesOf ino).card =
      fs.refs ino + (inner.namesOf ino).card := by
  have hmem : d ∈ range fs.nextIno := mem_range.mpr hd
  have hrest : ∀ e ∈ (range fs.nextIno).erase d,
      (((fs.setDir d inner).dirs e).namesOf ino).card = ((fs.dirs e).namesOf ino).card := by
    intro e he
    simp [ne_of_mem_erase he]
  simp only [refs, setDir_nextIno]
  rw [← add_sum_erase _ _ hmem, ← add_sum_erase _ (fun e => _) hmem, sum_congr rfl hrest]
  simp only [setDir_dirs, update_self]
  omega

lemma insert_refs (fs : Fs) (hd : d < fs.nextIno) (name : String) (inode : INode) (ino : ℕ) :
    (fs.setDir d ((fs.dirs d).insert name inode)).refs ino + hit (fs.entry d name) ino =
      fs.refs ino + hit (some inode) ino := by
  have hset := fs.setDir_refs hd ((fs.dirs d).insert name inode) ino
  have hcard := (fs.dirs d).card_insert_namesOf ino name inode
  simp only [entry]
  omega

lemma remove_refs (fs : Fs) (hd : d < fs.nextIno) (name : String) (ino : ℕ) :
    (fs.setDir d ((fs.dirs d).remove name).2).refs ino + hit (fs.entry d name) ino =
      fs.refs ino := by
  have hset := fs.setDir_refs hd ((fs.dirs d).remove name).2 ino
  have hcard := (fs.dirs d).card_remove_namesOf ino name
  simp only [entry]
  omega

lemma addLink_refs (fs : Fs) (inode : INode) (n : ℤ) (ino : ℕ) :
    (fs.addLink inode n).refs ino = fs.refs ino := by
  simp [refs]

lemma addLink_nlink (fs : Fs) (inode : INode) (n : ℤ) (ino : ℕ) :
    (fs.addLink inode n).nlink ino = fs.nlink ino + n * hit (some inode) ino := by
  cases inode with
  | file i =>
    by_cases h : i = ino
    · simp [addLink, hit, h]
    · simp [addLink, hit, h, update_of_ne (Ne.symm h)]
  | device i | dir i | symlink i => simp [addLink, hit]

end Fs

/-- The call names directories and an inode that there are. -/
def Op.Valid (fs : Fs) : Op → Prop
  | .createFile d _ | .createSymlink d _ | .createDir d _ | .unlink d _ | .rmdir d _ =>
    d < fs.nextIno
  | .link d _ linkTo => d < fs.nextIno ∧ linkTo.ino < fs.nextIno
  | .rename oldDir _ newDir _ =>
    oldDir < fs.nextIno ∧ ∀ nd, newDir = some nd → nd < fs.nextIno

/-- The entry in whose place the call puts another one. -/
def Fs.overwritten (fs : Fs) : Op → Option INode
  | .link d name _ => fs.entry d name
  | .rename oldDir oldName (some newDir) newName =>
    if (oldDir, oldName) = (newDir, newName) then none else fs.entry newDir newName
  | _ => none

/-- Entries refer to inodes that there are; what there is not yet has no entries and no
links. -/
structure Fs.Sound (fs : Fs) : Prop where
  bound : ∀ d name inode, fs.entry d name = some inode → inode.ino < fs.nextIno
  vacant : ∀ d, fs.nextIno ≤ d → fs.dirs d = .empty
  fresh : ∀ ino, fs.nextIno ≤ ino → fs.nlink ino = 0

namespace Fs

variable {fs fs' : Fs} {d : ℕ}

/-- Counting the entries over one more directory that has none. -/
lemma refs_succ (hnext : fs'.nextIno = fs.nextIno + 1)
    (hdirs : ∀ d < fs.nextIno, fs'.dirs d = fs.dirs d) (hnew : fs'.dirs fs.nextIno = .empty)
    (ino : ℕ) : fs'.refs ino = fs.refs ino := by
  rw [refs, hnext, sum_range_succ, hnew]
  have hsum : ∀ d ∈ range fs.nextIno,
      ((fs'.dirs d).namesOf ino).card = ((fs.dirs d).namesOf ino).card := by
    intro d hd
    rw [hdirs d (mem_range.mp hd)]
  rw [sum_congr rfl hsum]
  simp [refs, DirInner.namesOf, DirInner.empty]

/-- How far the link count of a file is above the number of its entries. -/
def gap (fs : Fs) (ino : ℕ) : ℤ := fs.nlink ino - fs.refs ino

/-- A call that puts an entry into a directory, of an inode that there is. -/
lemma Sound.insert (h : fs.Sound) (hd : d < fs.nextIno) (name : String) {inode : INode}
    (hino : inode.ino < fs.nextIno) :
    (fs.setDir d ((fs.dirs d).insert name inode)).Sound where
  bound a n x hx := by
    rw [insert_entry] at hx
    split at hx
    · exact some.inj hx ▸ hino
    · exact h.bound a n x hx
  vacant a ha := by
    have hne : a ≠ d := by
      simp only [setDir_nextIno] at ha
      omega
    simpa [hne] using h.vacant a ha
  fresh := h.fresh

lemma Sound.remove (h : fs.Sound) (hd : d < fs.nextIno) (name : String) :
    (fs.setDir d ((fs.dirs d).remove name).2).Sound where
  bound a n x hx := by
    rw [remove_entry] at hx
    split at hx
    · cases hx
    · exact h.bound a n x hx
  vacant a ha := by
    have hne : a ≠ d := by
      simp only [setDir_nextIno] at ha
      omega
    simpa [hne] using h.vacant a ha
  fresh := h.fresh

lemma Sound.addLink (h : fs.Sound) {inode : INode} (hino : inode.ino < fs.nextIno) (n : ℤ) :
    (fs.addLink inode n).Sound where
  bound d name x hx := by
    simp only [entry, addLink_dirs, addLink_nextIno] at hx ⊢
    exact h.bound d name x hx
  vacant d hd := by
    simpa using h.vacant d (by simpa using hd)
  fresh ino hi := by
    have hne : hit (some inode) ino = 0 := by
      simp only [hit, some.injEq, ite_eq_right_iff, one_ne_zero, imp_false]
      rintro rfl
      simp only [addLink_nextIno, INode.ino] at hi hino
      omega
    rw [addLink_nlink, hne, h.fresh ino (by simpa using hi)]
    simp

/-- The next inode number is given to a new inode, with a count of one if it is a file, and
the inode gets a name that was free. -/
lemma Sound.create (h : fs.Sound) (hd : d < fs.nextIno) (name : String) (inode : INode)
    (hino : inode.ino = fs.nextIno) (hfree : fs.entry d name = none)
    (hnext : fs'.nextIno = fs.nextIno + 1)
    (hdirs : fs'.dirs = update fs.dirs d ((fs.dirs d).insert name inode))
    (hlinks : ∀ ino, fs'.nlink ino = fs.nlink ino + hit (some inode) ino) :
    fs'.Sound ∧ ∀ ino, fs'.gap ino = fs.gap ino := by
  have hentry : ∀ a n, fs'.entry a n = if (a, n) = (d, name) then some inode else
      fs.entry a n := by
    intro a n
    rw [← insert_entry, entry, entry, setDir_dirs, hdirs]
  constructor
  · constructor
    · intro a n x hx
      rw [hentry] at hx
      split at hx
      · rw [← some.inj hx, hino, hnext]
        exact Nat.lt_succ_self _
      · exact lt_of_lt_of_le (h.bound a n x hx) (by omega)
    · intro a ha
      rw [hdirs, update_of_ne (by omega)]
      exact h.vacant a (by omega)
    · intro ino hi
      have hmiss : hit (some inode) ino = 0 := by
        simp only [hit, some.injEq, ite_eq_right_iff, one_ne_zero, imp_false]
        rintro rfl
        simp only [INode.ino] at hino
        omega
      rw [hlinks, hmiss, h.fresh ino (by omega)]
      simp
  · intro ino
    have hrefs : fs'.refs ino = (fs.setDir d ((fs.dirs d).insert name inode)).refs ino := by
      refine refs_succ (by simpa using hnext) (fun a _ => by rw [hdirs, setDir_dirs]) ?_ ino
      rw [hdirs, setDir_nextIno, update_of_ne (by omega)]
      exact h.vacant _ le_rfl
    have hins := fs.insert_refs hd name inode ino
    simp only [hfree, hit, reduceCtorEq, if_false, add_zero] at hins
    rw [gap, gap, hlinks, hrefs, hins]
    simp only [hit]
    omega

/-- What a call does to the links: it widens the gap of the file whose entry it replaces, and
no other one. -/
lemma Sound.exec {op : Op} (h : fs.Sound) (hvalid : op.Valid fs) (hexec : fs.exec op = .ok fs') :
    fs'.Sound ∧ ∀ ino, fs'.gap ino = fs.gap ino + hit (fs.overwritten op) ino := by
  cases op with
  | createFile d name =>
    simp only [Fs.exec, createFile] at hexec
    split at hexec
    · cases hexec
    · next hfree =>
      cases hexec
      simp only [overwritten, hit_none, Nat.cast_zero, add_zero]
      refine h.create hvalid name (.file fs.nextIno) rfl (by simpa using hfree) rfl rfl ?_
      intro ino
      by_cases hi : ino = fs.nextIno
      · have hzero := h.fresh fs.nextIno le_rfl
        simp [hit, hi, hzero, setDir]
      · simp [hit, hi, setDir, Ne.symm hi]
  | createSymlink d name =>
    simp only [Fs.exec, createSymlink] at hexec
    split at hexec
    · cases hexec
    · next hfree =>
      cases hexec
      simp only [overwritten, hit_none, Nat.cast_zero, add_zero]
      refine h.create hvalid name (.symlink fs.nextIno) rfl (by simpa using hfree) rfl rfl ?_
      intro ino
      simp [hit, setDir]
  | createDir d name =>
    simp only [Fs.exec, createDir] at hexec
    split at hexec
    · cases hexec
    · next hfree =>
      cases hexec
      simp only [overwritten, hit_none, Nat.cast_zero, add_zero]
      refine h.create hvalid name (.dir fs.nextIno) rfl (by simpa using hfree) rfl ?_ ?_
      · -- the new directory is as empty as its number was before
        have hne : fs.nextIno ≠ d := ne_of_gt hvalid
        simp only [setDir_dirs, setDir_nextIno]
        rw [update_eq_self_iff, update_of_ne hne]
        exact (h.vacant _ le_rfl).symm
      · intro ino
        simp [hit, setDir]
  | link d name linkTo =>
    cases hexec
    obtain ⟨hd, hino⟩ := hvalid
    have hlinked := h.addLink hino 1
    refine ⟨hlinked.insert (by simpa using hd) name (by simpa using hino), ?_⟩
    intro ino
    have hrefs := (fs.addLink linkTo 1).insert_refs (by simpa using hd) name linkTo ino
    have hlinks := fs.addLink_nlink linkTo 1 ino
    rw [addLink_refs] at hrefs
    simp only [entry, addLink_dirs] at hrefs
    simp only [gap, overwritten, entry]
    simp only [addLink_dirs, setDir] at hlinks hrefs ⊢
    omega
  | unlink d name =>
    simp only [Fs.exec, unlink] at hexec
    split at hexec
    · cases hexec
    · cases hexec
    · next inode _ hentry =>
      cases hexec
      have hd : d < fs.nextIno := hvalid
      have hino := h.bound d name inode hentry
      refine ⟨(h.addLink hino (-1)).remove (by simpa using hd) name, ?_⟩
      intro ino
      have hrefs := (fs.addLink inode (-1)).remove_refs (by simpa using hd) name ino
      have hlinks := fs.addLink_nlink inode (-1) ino
      have hsame : (fs.addLink inode (-1)).entry d name = some inode := by
        simpa [entry] using hentry
      rw [addLink_refs, hsame] at hrefs
      simp only [gap, overwritten, hit_none]
      simp only [addLink_dirs, setDir] at hlinks hrefs ⊢
      omega
  | rmdir d name =>
    simp only [Fs.exec, rmdir] at hexec
    split at hexec
    · next i hentry =>
      split at hexec
      · cases hexec
        refine ⟨h.remove hvalid name, fun ino => ?_⟩
        have hrefs := fs.remove_refs hvalid name ino
        simp only [hentry, hit] at hrefs
        simp only [gap, overwritten, hit_none, ← hrefs]
        simp [setDir]
      · cases hexec
    · cases hexec
    · cases hexec
  | rename oldDir oldName newDir newName =>
    obtain ⟨nd, inode, rfl, hentry, rfl⟩ := exec_rename_eq_ok hexec
    obtain ⟨hold, hnew⟩ := hvalid
    have hnd := hnew nd rfl
    have hino := h.bound oldDir oldName inode hentry
    refine ⟨(h.remove hold oldName).insert (by simpa using hnd) newName (by simpa using hino), ?_⟩
    intro ino
    have hrem := fs.remove_refs hold oldName ino
    have hins := (fs.setDir oldDir ((fs.dirs oldDir).remove oldName).2).insert_refs
      (by simpa using hnd) newName inode ino
    rw [remove_entry] at hins
    rw [hentry] at hrem
    have hover : fs.overwritten (.rename oldDir oldName (some nd) newName) =
        if (nd, newName) = (oldDir, oldName) then none else fs.entry nd newName := by
      simp only [overwritten, eq_comm]
    rw [hover]
    simp only [gap, move]
    simp only [setDir] at hins hrem ⊢
    omega

end Fs

/-- A run from a new file system, with every call and the state it met. -/
inductive Run : List (Fs × Op) → Fs → Prop
  | new : Run [] Fs.new
  | call (log fs op fs') : Run log fs → op.Valid fs → fs.exec op = .ok fs' →
      Run ((fs, op) :: log) fs'

/-- How many entries of the file the calls have replaced. -/
def replaced (log : List (Fs × Op)) (ino : ℕ) : ℕ :=
  (log.map fun step => hit (step.1.overwritten step.2) ino).sum

lemma Fs.new_sound : Fs.new.Sound where
  bound d name inode h := by simp [Fs.entry, Fs.new, DirInner.empty] at h
  vacant _ _ := rfl
  fresh _ _ := rfl

/-- Over a run the count is the number of entries plus the number of replaced ones. -/
lemma Run.gap_eq {log : List (Fs × Op)} {fs : Fs} (h : Run log fs) :
    fs.Sound ∧ ∀ ino, fs.gap ino = replaced log ino := by
  induction h with
  | new =>
    refine ⟨Fs.new_sound, fun ino => ?_⟩
    simp [Fs.gap, Fs.refs, Fs.new, DirInner.namesOf, DirInner.empty, replaced]
  | call log fs op fs' _ hvalid hexec ih =>
    obtain ⟨hsound, hgap⟩ := ih
    obtain ⟨hsound', hgap'⟩ := hsound.exec hvalid hexec
    refine ⟨hsound', fun ino => ?_⟩
    rw [hgap', hgap, replaced, replaced, List.map_cons, List.sum_cons]
    push_cast
    ring

/-- In every run no link count is below the number of entries of the file, and so none goes
below zero; and in a run in which no call replaces an entry the two are equal. -/
theorem nlink_eq_refs (log : List (Fs × Op)) (fs : Fs) (h : Run log fs) :
    (∀ ino, (fs.refs ino : ℤ) ≤ fs.nlink ino ∧ 0 ≤ fs.nlink ino) ∧
      ((∀ step ∈ log, step.1.overwritten step.2 = none) →
        ∀ ino, fs.nlink ino = fs.refs ino) := by
  obtain ⟨_, hgap⟩ := h.gap_eq
  constructor
  · intro ino
    have hino := hgap ino
    simp only [Fs.gap] at hino
    omega
  · intro hnone ino
    have hzero : replaced log ino = 0 := by
      rw [replaced, List.sum_eq_zero]
      intro n hn
      obtain ⟨step, hstep, rfl⟩ := List.mem_map.mp hn
      rw [hnone step hstep, hit_none]
    have hino := hgap ino
    simp only [Fs.gap] at hino
    omega

/-- A file with a second name. -/
theorem linked_file_nlink : ∃ log fs, Run log fs ∧ fs.nlink 2 = fs.refs 2 ∧ fs.refs 2 = 2 := by
  have hcreate := Run.call _ _ (.createFile 1 "a") _ Run.new (by decide : 1 < 2) rfl
  have hlink := Run.call _ _ (.link 1 "b" (.file 2)) _ hcreate
    ⟨(by decide : 1 < 3), (by decide : 2 < 3)⟩ rfl
  refine ⟨_, _, hlink, ?_, by decide⟩
  exact (nlink_eq_refs _ _ hlink).2 (by decide) 2

/-- A file is renamed onto another one, whose count stays one without an entry; and a file is
linked to its own name, with a count of two for one entry. -/
theorem replaced_file_keeps_count :
    (∃ log fs, Run log fs ∧ fs.nlink 3 = 1 ∧ fs.refs 3 = 0) ∧
      ∃ log fs, Run log fs ∧ fs.nlink 2 = 2 ∧ fs.refs 2 = 1 := by
  have ha := Run.call _ _ (.createFile 1 "a") _ Run.new (by decide : 1 < 2) rfl
  have hb := Run.call _ _ (.createFile 1 "b") _ ha (by decide : 1 < 3) rfl
  have hrename := Run.call _ _ (.rename 1 "a" (some 1) "b") _ hb
    ⟨(by decide : 1 < 4), fun nd hnd => some.inj hnd ▸ (by decide : 1 < 4)⟩ rfl
  have hself := Run.call _ _ (.link 1 "a" (.file 2)) _ ha
    ⟨(by decide : 1 < 3), (by decide : 2 < 3)⟩ rfl
  exact ⟨⟨_, _, hrename, by decide, by decide⟩, ⟨_, _, hself, by decide, by decide⟩⟩

end Kevlar.TmpFs
