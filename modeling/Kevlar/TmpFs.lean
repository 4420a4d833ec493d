import Mathlib.Tactic

/-!
# The in-memory file system

A directory keeps a map from names to inodes and, for `readdir`, the list of the names in the
order in which they came. `insert` and `remove` are the only ways to change the two, and they
keep them in step. An enumeration reads the positions one after the other with no other state
than the position: a name that is removed before it moves the later names down.
-/
namespace Kevlar.TmpFs
open Option Function List

inductive Errno
  | enoent | eexist | eisdir | enotdir | enotempty | exdev
  deriving DecidableEq

/-- What a name refers to, by inode number. A device is a file of another kind that `add_file`
has put into the directory. -/
inductive INode
  | file (ino : ℕ)
  | device (ino : ℕ)
  | dir (ino : ℕ)
  | symlink (ino : ℕ)
  deriving DecidableEq

namespace INode

def ino : INode → ℕ
  | file ino | device ino | dir ino | symlink ino => ino

def IsDir : INode → Prop
  | dir _ => True
  | _ => False

end INode

/-- The map and the list of the names, in step. -/
structure DirInner where
  files : String → Option INode
  order : List String
  nodup : order.Nodup
  mem_order : ∀ name, name ∈ order ↔ (files name).isSome

namespace DirInner

def empty : DirInner := ⟨fun _ => none, [], List.nodup_nil, by simp⟩

def insert (d : DirInner) (name : String) (inode : INode) : DirInner where
  files := update d.files name (some inode)
  order := if (d.files name).isSome then d.order else d.order ++ [name]
  nodup := by
    split
    · exact d.nodup
    · next h =>
      have hnot : name ∉ d.order := fun hm => h ((d.mem_order name).mp hm)
      simp [List.nodup_append, d.nodup]
      grind
  mem_order m := by
    by_cases hm : m = name
    · subst hm
      by_cases h : (d.files m).isSome <;> simp [h, d.mem_order]
    · by_cases h : (d.files name).isSome <;> simp [h, hm, d.mem_order]

/-- The entry that was there, and the directory without it. -/
def remove (d : DirInner) (name : String) : Option INode × DirInner :=
  (d.files name,
    { files := update d.files name none
      order := if (d.files name).isSome then d.order.filter (· ≠ name) else d.order
      nodup := by
        split
        · exact d.nodup.filter _
        · exact d.nodup
      mem_order := by
        intro m
        by_cases hm : m = name
        · subst hm
          by_cases h : (d.files m).isSome <;> simp [h, d.mem_order]
        · by_cases h : (d.files name).isSome <;> simp [h, hm, d.mem_order] })

lemma remove_order (d : DirInner) (name : String) :
    (d.remove name).2.order = d.order.filter (· ≠ name) := by
  by_cases h : (d.files name).isSome
  · simp [remove, h]
  · have hnot : name ∉ d.order := fun hm => h ((d.mem_order name).mp hm)
    simp only [remove, h, Bool.false_eq_true, if_false]
    symm
    rw [filter_eq_self]
    intro m hm
    simp only [decide_eq_true_eq]
    exact fun hmn => hnot (hmn ▸ hm)

lemma insert_order (d : DirInner) (name : String) (inode : INode) :
    d.order <+: (d.insert name inode).order := by
  simp only [insert]
  split
  · exact prefix_rfl
  · exact prefix_append _ _

end DirInner

/-- A file system: its directories and the link counts of its files by inode number, and the
next number. The root directory has number 1. -/
structure Fs where
  dirs : ℕ → DirInner
  nlink : ℕ → ℤ
  nextIno : ℕ

namespace Fs

def new : Fs := ⟨fun _ => .empty, fun _ => 0, 2⟩

def entry (fs : Fs) (d : ℕ) (name : String) : Option INode := (fs.dirs d).files name

def setDir (fs : Fs) (d : ℕ) (inner : DirInner) : Fs :=
  { fs with dirs := update fs.dirs d inner }

/-- `fetch_add` on the link count of a file of this file system. -/
def addLink (fs : Fs) (inode : INode) (n : ℤ) : Fs :=
  match inode with
  | .file ino => { fs with nlink := update fs.nlink ino (fs.nlink ino + n) }
  | _ => fs

def createFile (fs : Fs) (d : ℕ) (name : String) : Except Errno Fs :=
  if (fs.entry d name).isSome then .error .eexist
  else
    let fs := fs.setDir d ((fs.dirs d).insert name (.file fs.nextIno))
    .ok { fs with nlink := update fs.nlink fs.nextIno 1, nextIno := fs.nextIno + 1 }

def createSymlink (fs : Fs) (d : ℕ) (name : String) : Except Errno Fs :=
  if (fs.entry d name).isSome then .error .eexist
  else
    let fs := fs.setDir d ((fs.dirs d).insert name (.symlink fs.nextIno))
    .ok { fs with nextIno := fs.nextIno + 1 }

def createDir (fs : Fs) (d : ℕ) (name : String) : Except Errno Fs :=
  if (fs.entry d name).isSome then .error .eexist
  else
    let fs := fs.setDir d ((fs.dirs d).insert name (.dir fs.nextIno))
    .ok { fs.setDir fs.nextIno .empty with nextIno := fs.nextIno + 1 }

/-- `link` asks neither whether the name is taken nor whether the inode is a directory. -/
def link (fs : Fs) (d : ℕ) (name : String) (linkTo : INode) : Except Errno Fs :=
  let fs := fs.addLink linkTo 1
  .ok (fs.setDir d ((fs.dirs d).insert name linkTo))

def unlink (fs : Fs) (d : ℕ) (name : String) : Except Errno Fs :=
  match fs.entry d name with
  | some (.dir _) => .error .eisdir
  | none => .error .enoent
  | some inode =>
    let fs := fs.addLink inode (-1)
    .ok (fs.setDir d ((fs.dirs d).remove name).2)

def rmdir (fs : Fs) (d : ℕ) (name : String) : Except Errno Fs :=
  match fs.entry d name with
  | some (.dir ino) =>
    if (fs.dirs ino).order.isEmpty then .ok (fs.setDir d ((fs.dirs d).remove name).2)
    else .error .enotempty
  | some _ => .error .enotdir
  | none => .error .enoent

/-- `newDir` is `none` for a directory of a file system of another kind; one of another
in-memory file system has a number of its own here. The entry is taken out before it is known
whether there is one. -/
def rename (fs : Fs) (oldDir : ℕ) (oldName : String) (newDir : Option ℕ) (newName : String) :
    Except Errno Unit × Fs :=
  match newDir with
  | none => (.error .exdev, fs)
  | some newDir =>
    if oldDir = newDir then
      match (fs.dirs oldDir).remove oldName with
      | (none, inner) => (.error .enoent, fs.setDir oldDir inner)
      | (some entry, inner) => (.ok (), fs.setDir oldDir (inner.insert newName entry))
    else
      match (fs.dirs oldDir).remove oldName with
      | (none, inner) => (.error .enoent, fs.setDir oldDir inner)
      | (some entry, inner) =>
        let fs := fs.setDir oldDir inner
        (.ok (), fs.setDir newDir ((fs.dirs newDir).insert newName entry))

end Fs

/-- The name of the entry that `readdir` answers. -/
def Fs.readdir (fs : Fs) (d index : ℕ) : Option String :=
  match index with
  | 0 => some "."
  | 1 => some ".."
  | i + 2 => do
    let name ← (fs.dirs d).order[i]?
    let _ ← (fs.dirs d).files name
    return name

/-- The calls that change a directory. -/
inductive Op
  | createFile (d : ℕ) (name : String)
  | createSymlink (d : ℕ) (name : String)
  | createDir (d : ℕ) (name : String)
  | link (d : ℕ) (name : String) (linkTo : INode)
  | unlink (d : ℕ) (name : String)
  | rmdir (d : ℕ) (name : String)
  | rename (oldDir : ℕ) (oldName : String) (newDir : Option ℕ) (newName : String)

def Fs.exec (fs : Fs) : Op → Except Errno Fs
  | .createFile d name => fs.createFile d name
  | .createSymlink d name => fs.createSymlink d name
  | .createDir d name => fs.createDir d name
  | .link d name linkTo => fs.link d name linkTo
  | .unlink d name => fs.unlink d name
  | .rmdir d name => fs.rmdir d name
  | .rename oldDir oldName newDir newName =>
    match fs.rename oldDir oldName newDir newName with
    | (.ok _, fs') => .ok fs'
    | (.error e, _) => .error e

/-- The name that the call takes out of the directory `d`. -/
def Op.Removes (d : ℕ) (name : String) : Op → Prop
  | .unlink d' name' | .rmdir d' name' | .rename d' name' _ _ => d' = d ∧ name' = name
  | _ => False

namespace Fs

@[simp] lemma setDir_dirs (fs : Fs) (d : ℕ) (inner : DirInner) :
    (fs.setDir d inner).dirs = update fs.dirs d inner := rfl

@[simp] lemma setDir_nextIno (fs : Fs) (d : ℕ) (inner : DirInner) :
    (fs.setDir d inner).nextIno = fs.nextIno := rfl

@[simp] lemma addLink_dirs (fs : Fs) (inode : INode) (n : ℤ) :
    (fs.addLink inode n).dirs = fs.dirs := by
  cases inode <;> rfl

@[simp] lemma addLink_nextIno (fs : Fs) (inode : INode) (n : ℤ) :
    (fs.addLink inode n).nextIno = fs.nextIno := by
  cases inode <;> rfl

lemma insert_entry (fs : Fs) (d : ℕ) (name : String) (inode : INode) (a : ℕ) (n : String) :
    (fs.setDir d ((fs.dirs d).insert name inode)).entry a n =
      if (a, n) = (d, name) then some inode else fs.entry a n := by
  by_cases ha : a = d
  · subst ha
    by_cases hn : n = name <;> simp [entry, DirInner.insert, hn]
  · simp [entry, ha]

lemma remove_entry (fs : Fs) (d : ℕ) (name : String) (a : ℕ) (n : String) :
    (fs.setDir d ((fs.dirs d).remove name).2).entry a n =
      if (a, n) = (d, name) then none else fs.entry a n := by
  by_cases ha : a = d
  · subst ha
    by_cases hn : n = name <;> simp [entry, DirInner.remove, hn]
  · simp [entry, ha]

/-- The file system after an entry has moved. -/
def move (fs : Fs) (oldDir : ℕ) (oldName : String) (newDir : ℕ) (newName : String)
    (inode : INode) : Fs :=
  let fs := fs.setDir oldDir ((fs.dirs oldDir).remove oldName).2
  fs.setDir newDir ((fs.dirs newDir).insert newName inode)

variable {fs : Fs} {oldDir : ℕ} {oldName : String}

variable {newName : String} {d : ℕ} {newDir : Option ℕ} {fs' : Fs}

lemma rename_of_some {newDir : ℕ} {inode : INode} (h : fs.entry oldDir oldName = some inode) :
    fs.rename oldDir oldName (some newDir) newName =
      (.ok (), fs.move oldDir oldName newDir newName inode) := by
  have hsome : (fs.dirs oldDir).files oldName = some inode := h
  by_cases hd : oldDir = newDir
  · subst hd
    simp [rename, move, setDir, DirInner.remove, hsome]
  · simp [rename, move, hd, DirInner.remove, hsome]

/-- Taking out a name that is not there changes nothing. -/
lemma setDir_remove_of_none {name : String} (h : fs.entry d name = none) :
    fs.setDir d ((fs.dirs d).remove name).2 = fs := by
  have hnone : (fs.dirs d).files name = none := h
  have hsame : ((fs.dirs d).remove name).2 = fs.dirs d := by
    cases hdir : fs.dirs d
    simp_all [DirInner.remove]
  simp [setDir, hsame]

lemma rename_of_none (newName : String) (h : newDir = none ∨ fs.entry oldDir oldName = none) :
    ∃ e, fs.rename oldDir oldName newDir newName = (.error e, fs) := by
  cases newDir with
  | none => exact ⟨.exdev, rfl⟩
  | some nd =>
    have hentry : fs.entry oldDir oldName = none := by simpa using h
    have hsame := setDir_remove_of_none hentry
    refine ⟨.enoent, ?_⟩
    cases hremove : (fs.dirs oldDir).remove oldName with
    | mk found inner =>
      have hfound : found = none := (congrArg Prod.fst hremove).symm.trans hentry
      rw [hremove] at hsame
      simp only [rename, hremove, hfound, hsame, ite_self]

/-- What a successful `rename` does, in one directory or across two. -/
lemma exec_rename_eq_ok (h : fs.exec (.rename oldDir oldName newDir newName) = .ok fs') :
    ∃ nd inode, newDir = some nd ∧ fs.entry oldDir oldName = some inode ∧
      fs' = fs.move oldDir oldName nd newName inode := by
  by_cases hnone : newDir = none ∨ fs.entry oldDir oldName = none
  · obtain ⟨e, he⟩ := rename_of_none newName hnone
    simp [exec, he] at h
  · push Not at hnone
    obtain ⟨nd, hnd⟩ := ne_none_iff_exists'.mp hnone.1
    obtain ⟨inode, hentry⟩ := ne_none_iff_exists'.mp hnone.2
    subst hnd
    simp only [exec, rename_of_some hentry, Except.ok.injEq] at h
    exact ⟨nd, inode, rfl, hentry, h.symm⟩

/-- The names of a directory are added to at the end, after one may have gone from them. -/
def OrderStep (op : Op) (d : ℕ) (before after : List String) : Prop :=
  before <+: after ∨ ∃ name, op.Removes d name ∧ before.filter (· ≠ name) <+: after

lemma OrderStep.insert (op : Op) (fs : Fs) (d d' : ℕ) (name : String) (inode : INode) :
    OrderStep op d (fs.dirs d).order
      (update fs.dirs d' ((fs.dirs d').insert name inode) d).order := by
  left
  by_cases h : d = d'
  · simp [h, DirInner.insert_order]
  · simp [h]

lemma OrderStep.remove (op : Op) (fs : Fs) (d d' : ℕ) (name : String)
    (hop : op.Removes d' name) :
    OrderStep op d (fs.dirs d).order
      (update fs.dirs d' ((fs.dirs d').remove name).2 d).order := by
  by_cases h : d = d'
  · right
    exact ⟨name, h ▸ hop, by simp [h, DirInner.remove_order]⟩
  · left
    simp [h]

/-- What a successful call does to the names of a directory that there is. -/
lemma exec_order {op : Op} (h : fs.exec op = .ok fs') (hd : d < fs.nextIno) :
    OrderStep op d (fs.dirs d).order (fs'.dirs d).order ∧ fs.nextIno ≤ fs'.nextIno := by
  have hinsert := OrderStep.insert op fs d
  cases op with
  | createFile d' name =>
    simp only [exec, createFile] at h
    split at h
    · cases h
    · cases h
      exact ⟨hinsert d' name _, Nat.le_succ _⟩
  | createSymlink d' name =>
    simp only [exec, createSymlink] at h
    split at h
    · cases h
    · cases h
      exact ⟨hinsert d' name _, Nat.le_succ _⟩
  | createDir d' name =>
    simp only [exec, createDir] at h
    split at h
    · cases h
    · cases h
      refine ⟨?_, Nat.le_succ _⟩
      -- the new directory is not the one that is asked about
      have hne : d ≠ fs.nextIno := ne_of_lt hd
      simpa [setDir, update_of_ne hne] using hinsert d' name _
  | link d' name linkTo =>
    cases h
    simpa [link] using hinsert d' name linkTo
  | unlink d' name =>
    simp only [exec, unlink] at h
    split at h
    · cases h
    · cases h
    · cases h
      simpa using OrderStep.remove (.unlink d' name) fs d d' name ⟨rfl, rfl⟩
  | rmdir d' name =>
    simp only [exec, rmdir] at h
    split at h
    · split at h
      · cases h
        exact ⟨OrderStep.remove (.rmdir d' name) fs d d' name ⟨rfl, rfl⟩, le_rfl⟩
      · cases h
    · cases h
    · cases h
  | rename oldDir oldName newDir newName =>
    obtain ⟨nd, inode, hnd, hentry, hfs⟩ := exec_rename_eq_ok h
    have hfirst := OrderStep.remove (.rename oldDir oldName newDir newName) fs d oldDir oldName
      ⟨rfl, rfl⟩
    refine ⟨?_, by simp [hfs, move]⟩
    have hgrow : ((fs.setDir oldDir ((fs.dirs oldDir).remove oldName).2).dirs d).order <+:
        (fs'.dirs d).order := by
      rw [hfs]
      by_cases h : d = nd
      · simp [move, h, DirInner.insert_order]
      · simp [move, h]
    rcases hfirst with hpre | ⟨name, hname, hpre⟩
    · exact .inl (hpre.trans hgrow)
    · exact .inr ⟨name, hname, hpre.trans hgrow⟩

end Fs

/-- An enumeration of the directory `d` from the state `start`: the names that `readdir` has
answered so far, at positions 0, 1 and so on, and every change between two reads with the
names that had been answered before it. -/
inductive Enumeration (d : ℕ) (start : Fs) :
    List String → List (List String × Op) → Fs → Prop
  | start : Enumeration d start [] [] start
  | read (names log fs name) : Enumeration d start names log fs →
      fs.readdir d names.length = some name →
      Enumeration d start (names ++ [name]) log fs
  | change (names log fs op fs') : Enumeration d start names log fs → fs.exec op = .ok fs' →
      Enumeration d start names ((names, op) :: log) fs'

/-- The names of an enumeration without changes. -/
def Fs.listing (fs : Fs) (d : ℕ) : List String := "." :: ".." :: (fs.dirs d).order

/-- `readdir` answers the name at the position of the listing. -/
lemma Fs.readdir_name (fs : Fs) (d index : ℕ) :
    fs.readdir d index = (fs.listing d)[index]? := by
  match index with
  | 0 | 1 => rfl
  | i + 2 =>
    simp only [readdir, listing, getElem?_cons_succ, bind_eq_bind]
    cases hname : (fs.dirs d).order[i]? with
    | none => rfl
    | some name =>
      have hmem := ((fs.dirs d).mem_order name).mp (mem_of_getElem? hname)
      obtain ⟨inode, hinode⟩ := isSome_iff_exists.mp hmem
      simp [hinode]

variable {names : List String}

/-- Dropping a name that has not been read yet moves nothing that has. -/
lemma prefix_filter_of_notMem {head order : List String} {name : String}
    (h : names <+: head ++ order) (hname : name ∉ names) :
    names <+: head ++ order.filter (· ≠ name) := by
  rcases prefix_or_prefix_of_prefix h (prefix_append head order) with hshort | hlong
  · exact hshort.trans (prefix_append _ _)
  · obtain ⟨rest, hrest⟩ := hlong
    rw [← hrest, prefix_append_right_inj] at h ⊢
    have hfilter := h.filter (· ≠ name)
    rwa [filter_eq_self.mpr] at hfilter
    intro m hm
    simp only [ne_eq, decide_eq_true_eq]
    exact fun hmn => hname (hrest ▸ mem_append_right _ (hmn ▸ hm))

/-- No change takes out a name that has been answered. -/
def Settled (d : ℕ) (log : List (List String × Op)) : Prop :=
  ∀ step ∈ log, ∀ name ∈ step.1, ¬ step.2.Removes d name

variable {d : ℕ} {start fs : Fs} {log : List (List String × Op)}

/-- As long as the changes are settled, the names answered are the first ones of the listing. -/
lemma Enumeration.names_prefix (h : Enumeration d start names log fs) (hd : d < start.nextIno)
    (hlog : Settled d log) :
    names <+: fs.listing d ∧ d < fs.nextIno := by
  induction h with
  | start => exact ⟨List.nil_prefix, hd⟩
  | read names log fs name _ hread ih =>
    obtain ⟨⟨rest, hrest⟩, hnext⟩ := ih hlog
    have hname := fs.readdir_name d names.length
    rw [hread, ← hrest] at hname
    cases rest with
    | nil => simp at hname
    | cons next rest =>
      simp only [getElem?_append_right, le_refl, Nat.sub_self, getElem?_cons_zero,
        some.injEq] at hname
      exact ⟨⟨rest, by rw [← hrest, hname, append_assoc]; rfl⟩, hnext⟩
  | change names log fs op fs' _ hexec ih =>
    obtain ⟨hpre, hnext⟩ := ih fun step hstep => hlog step (mem_cons_of_mem _ hstep)
    obtain ⟨horder, hle⟩ := Fs.exec_order hexec hnext
    refine ⟨?_, Nat.lt_of_lt_of_le hnext hle⟩
    have hgrow : ∀ order, order <+: (fs'.dirs d).order → names <+: [".", ".."] ++ order →
        names <+: fs'.listing d := by
      intro order ho hn
      exact hn.trans ((prefix_append_right_inj [".", ".."]).mpr ho)
    rcases horder with hkeep | ⟨name, hremoves, hkeep⟩
    · exact hgrow _ hkeep hpre
    · refine hgrow _ hkeep (prefix_filter_of_notMem hpre ?_)
      intro hmem
      exact hlog (names, op) (by simp) name hmem hremoves

/-- Without changes nothing changes. -/
lemma Enumeration.eq_start (h : Enumeration d start names log fs) (hlog : log = []) :
    fs = start := by
  induction h with
  | start => rfl
  | read names log fs name _ _ ih => exact ih hlog
  | change => simp at hlog

/-- Three files in the root directory. -/
def threeFiles : Fs :=
  { dirs := update Fs.new.dirs 1
      (((DirInner.empty.insert "a" (.file 2)).insert "b" (.file 3)).insert "c" (.file 4))
    nlink := fun _ => 1
    nextIno := 5 }

end Kevlar.TmpFs
