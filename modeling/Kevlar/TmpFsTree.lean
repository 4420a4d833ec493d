import Kevlar.Regraft
import Kevlar.TmpFs

/-!
# Renames in the directory tree

`rename` takes the entry out of one directory and inserts it into the other under the new
name. It does not look at what the new name refers to, nor at where the new directory is. The
tree survives exactly the renames that a caller has checked before.
-/
namespace Kevlar.TmpFs
open Option Fs

open Relation (ReflTransGen TransGen)

namespace Fs

/-- The directory `b` has a name in the directory `a`. -/
def Child (fs : Fs) (a b : ℕ) : Prop := ∃ name, fs.entry a name = some (.dir b)

/-- The directory `b` is `a` or below it. -/
abbrev Reach (fs : Fs) : ℕ → ℕ → Prop := ReflTransGen fs.Child

/-- The root directory has no name, every other directory at most one, and there is no way
from a directory back to it. -/
structure IsTree (fs : Fs) : Prop where
  root : ∀ d name, fs.entry d name ≠ some (.dir 1)
  unique : ∀ d d' name name' b, fs.entry d name = some (.dir b) →
    fs.entry d' name' = some (.dir b) → d = d' ∧ name = name'
  acyclic : Regraft.Acyclic fs.Child

/-- The inode has a name in a directory that can be reached from the root. -/
def InTree (fs : Fs) (inode : INode) : Prop :=
  ∃ d name, fs.Reach 1 d ∧ fs.entry d name = some inode

def IsEmpty (fs : Fs) (d : ℕ) : Prop := ∀ name, fs.entry d name = none

/-- What a rename to the name `newName` of `newDir` may do to a tree: no directory with
entries loses its name, the new name keeps its kind, no directory comes to be below itself,
and what is in the tree stays in it unless its name was the new one. -/
structure KeepsTree (fs : Fs) (newDir : ℕ) (newName : String) (fs' : Fs) : Prop where
  keeps : ∀ d, ¬ fs.IsEmpty d → (∃ a name, fs.entry a name = some (.dir d)) →
    ∃ a name, fs'.entry a name = some (.dir d)
  kinds : ∀ x y, fs.entry newDir newName = some x → fs'.entry newDir newName = some y →
    (x.IsDir ↔ y.IsDir)
  acyclic : Regraft.Acyclic fs'.Child
  reach : ∀ x, fs.InTree x → fs.entry newDir newName ≠ some x → fs'.InTree x

/-- The checks that `rename` does not make: the new name is free or refers to something of
the kind of the entry that moves, if a directory to an empty one, and the new directory is not
below the entry. -/
structure Movable (fs : Fs) (oldDir : ℕ) (oldName : String) (newDir : ℕ) (newName : String)
    (inode : INode) : Prop where
  kind : ∀ x, (oldDir, oldName) ≠ (newDir, newName) → fs.entry newDir newName = some x →
    (x.IsDir ↔ inode.IsDir)
  emptied : ∀ b, (oldDir, oldName) ≠ (newDir, newName) →
    fs.entry newDir newName = some (.dir b) → fs.IsEmpty b
  notBelow : ∀ m, inode = .dir m → ¬ fs.Reach m newDir

end Fs

section Move

variable {fs : Fs} {oldDir newDir : ℕ} {oldName newName : String} {inode : INode}

/-- The entries after a move. -/
lemma Fs.move_entry (a : ℕ) (name : String) :
    (fs.move oldDir oldName newDir newName inode).entry a name =
      if (a, name) = (newDir, newName) then some inode
      else if (a, name) = (oldDir, oldName) then none else fs.entry a name := by
  rw [← remove_entry]
  exact insert_entry _ newDir newName inode a name

lemma Fs.move_entry_new :
    (fs.move oldDir oldName newDir newName inode).entry newDir newName = some inode := by
  simp [move_entry]

/-- An entry at neither of the two names stays. -/
lemma Fs.move_entry_of_ne {a : ℕ} {name : String} (hnew : (a, name) ≠ (newDir, newName))
    (hold : (a, name) ≠ (oldDir, oldName)) :
    (fs.move oldDir oldName newDir newName inode).entry a name = fs.entry a name := by
  rw [move_entry, if_neg hnew, if_neg hold]

/-- An edge after a move was there before, or it is that of a directory that moved. -/
lemma Fs.child_of_move {a b : ℕ}
    (h : (fs.move oldDir oldName newDir newName inode).Child a b) :
    fs.Child a b ∨ a = newDir ∧ inode = .dir b := by
  obtain ⟨name, hname⟩ := h
  rw [move_entry] at hname
  split at hname
  · next heq => exact .inr ⟨congrArg Prod.fst heq, some.inj hname⟩
  · split at hname
    · cases hname
    · exact .inl ⟨name, hname⟩

lemma Fs.Movable.acyclic (htree : fs.IsTree)
    (hmove : fs.Movable oldDir oldName newDir newName inode) :
    Regraft.Acyclic (fs.move oldDir oldName newDir newName inode).Child := by
  by_cases hdir : ∃ m, inode = .dir m
  · obtain ⟨m, hm⟩ := hdir
    refine htree.acyclic.regraft (fun a b hab => ?_) (hmove.notBelow m hm)
    rcases child_of_move hab with hold | ⟨ha, hb⟩
    · exact .inl hold
    · exact .inr ⟨ha, INode.dir.inj (hb.symm.trans hm)⟩
  · intro a ha
    have hsub : ∀ c b, (fs.move oldDir oldName newDir newName inode).Child c b →
        fs.Child c b := by
      intro c b hcb
      rcases child_of_move hcb with hold | ⟨_, hb⟩
      · exact hold
      · exact absurd ⟨b, hb⟩ hdir
    exact htree.acyclic a (TransGen.mono hsub a a ha)

/-- The directory that the new name referred to before. -/
def Fs.PutOut (fs : Fs) (oldDir : ℕ) (oldName : String) (newDir : ℕ) (newName : String)
    (b : ℕ) : Prop :=
  (oldDir, oldName) ≠ (newDir, newName) ∧ fs.entry newDir newName = some (.dir b)

/-- An edge to a directory that neither moves nor is put out stays. -/
lemma Fs.Child.move {a b : ℕ} (hentry : fs.entry oldDir oldName = some inode)
    (h : fs.Child a b) (hb : inode ≠ .dir b)
    (hout : ¬ fs.PutOut oldDir oldName newDir newName b) :
    (fs.move oldDir oldName newDir newName inode).Child a b := by
  obtain ⟨name, hname⟩ := h
  have hold : (a, name) ≠ (oldDir, oldName) := by
    intro heq
    cases heq
    exact hb (some.inj (hentry.symm.trans hname))
  have hnew : (a, name) ≠ (newDir, newName) := by
    intro heq
    have hne : (oldDir, oldName) ≠ (newDir, newName) := heq ▸ hold.symm
    cases heq
    exact hout ⟨hne, hname⟩
  exact ⟨name, (move_entry_of_ne hnew hold).trans hname⟩

section

variable (htree : fs.IsTree) (hentry : fs.entry oldDir oldName = some inode)
  (hnewDir : fs.Reach 1 newDir) (hmove : fs.Movable oldDir oldName newDir newName inode)
include htree hentry hnewDir hmove

/-- A directory that is not put out can still be reached. -/
lemma Fs.Movable.reach {d : ℕ} (hd : fs.Reach 1 d)
    (hout : ¬ fs.PutOut oldDir oldName newDir newName d) :
    (fs.move oldDir oldName newDir newName inode).Reach 1 d := by
  by_cases hdir : ∃ m, inode = .dir m
  · obtain ⟨m, rfl⟩ := hdir
    refine Regraft.reach_of_regraft (fs.PutOut oldDir oldName newDir newName)
      (fun a b hab hb hob => hab.move hentry (by simpa using hb.symm) hob)
      ⟨newName, move_entry_new⟩ ?_ ?_ hnewDir (hmove.notBelow m rfl) hd hout
    · intro a b ha ⟨name, hname⟩
      rw [hmove.emptied a ha.1 ha.2 name] at hname
      cases hname
    · intro hself
      exact htree.acyclic newDir (TransGen.single ⟨newName, hself.2⟩)
  · have hnot : ∀ b, ¬ fs.PutOut oldDir oldName newDir newName b := by
      intro b hb
      have hkind := (hmove.kind _ hb.1 hb.2).mp trivial
      cases inode with
      | dir m => exact hdir ⟨m, rfl⟩
      | file ino | device ino | symlink ino => exact hkind
    have hsub : ∀ a b, fs.Child a b →
        (fs.move oldDir oldName newDir newName inode).Child a b :=
      fun a b hab => hab.move hentry (fun hb => hdir ⟨b, hb⟩) (hnot b)
    exact ReflTransGen.mono hsub 1 d hd

/-- The checks keep the tree. -/
lemma Fs.Movable.keepsTree :
    fs.KeepsTree newDir newName (fs.move oldDir oldName newDir newName inode) where
  keeps d hd hname := by
    obtain ⟨a, name, hname⟩ := hname
    by_cases hold : (a, name) = (oldDir, oldName)
    · obtain ⟨rfl, rfl⟩ := Prod.mk.inj hold
      exact ⟨newDir, newName, by rw [move_entry_new, ← hentry, hname]⟩
    · have hnew : (a, name) ≠ (newDir, newName) := by
        intro heq
        have hne : (oldDir, oldName) ≠ (newDir, newName) := heq ▸ Ne.symm hold
        obtain ⟨rfl, rfl⟩ := Prod.mk.inj heq
        exact hd (hmove.emptied d hne hname)
      exact ⟨a, name, (move_entry_of_ne hnew hold).trans hname⟩
  kinds x y hx hy := by
    rw [move_entry_new, some.injEq] at hy
    by_cases heq : (oldDir, oldName) = (newDir, newName)
    · obtain ⟨rfl, rfl⟩ := Prod.mk.inj heq
      rw [hentry, some.injEq] at hx
      rw [← hx, ← hy]
    · rw [← hy]
      exact hmove.kind x heq hx
  acyclic := Fs.Movable.acyclic htree hmove
  reach x hx hne := by
    obtain ⟨d, name, hd, hname⟩ := hx
    have hstay : ∀ d name x, fs.entry d name = some x →
        ¬ fs.PutOut oldDir oldName newDir newName d := by
      intro d name x hx hout
      rw [hmove.emptied d hout.1 hout.2 name] at hx
      cases hx
    by_cases hold : (d, name) = (oldDir, oldName)
    · obtain ⟨rfl, rfl⟩ := Prod.mk.inj hold
      rw [hentry, some.injEq] at hname
      have hself : ¬ fs.PutOut d name newDir newName newDir := fun hout =>
        htree.acyclic newDir (TransGen.single ⟨newName, hout.2⟩)
      exact ⟨newDir, newName, Fs.Movable.reach htree hentry hnewDir hmove hnewDir hself,
        by rw [move_entry_new, hname]⟩
    · have hnew : (d, name) ≠ (newDir, newName) := by
        intro heq
        obtain ⟨rfl, rfl⟩ := Prod.mk.inj heq
        exact hne hname
      exact ⟨d, name, Fs.Movable.reach htree hentry hnewDir hmove hd (hstay d name x hname),
        (move_entry_of_ne hnew hold).trans hname⟩

end

/-- A move that keeps the tree has passed the checks. -/
lemma movable_of_keepsTree (htree : fs.IsTree) (hentry : fs.entry oldDir oldName = some inode)
    (h : fs.KeepsTree newDir newName (fs.move oldDir oldName newDir newName inode)) :
    fs.Movable oldDir oldName newDir newName inode where
  kind x _ hx := h.kinds x inode hx move_entry_new
  emptied b hne hb := by
    by_contra hfull
    obtain ⟨a, name, hname⟩ := h.keeps b hfull ⟨newDir, newName, hb⟩
    rw [move_entry] at hname
    split at hname
    · obtain ⟨rfl, rfl⟩ := htree.unique _ _ _ _ b (hentry.trans hname) hb
      exact hne rfl
    · next hnew =>
      split at hname
      · cases hname
      · obtain ⟨rfl, rfl⟩ := htree.unique _ _ _ _ b hname hb
        exact hnew rfl
  notBelow m hm hreach := by
    subst hm
    refine h.acyclic m (Regraft.transGen_self_of_reach htree.acyclic ?_
      ⟨newName, move_entry_new⟩ hreach)
    intro a b hab hb ha
    obtain ⟨name, hname⟩ := hab
    refine ⟨name, (move_entry_of_ne (fun heq => ha (congrArg Prod.fst heq)) ?_).trans hname⟩
    intro heq
    cases heq
    rw [hentry, some.injEq, INode.dir.injEq] at hname
    exact hb hname.symm

end Move

/-- A rename in a tree, to a directory of the tree or of another file system, keeps the tree if
it succeeds and changes nothing if it fails, exactly if the entry there is passes the checks. -/
theorem rename_keepsTree_iff (fs : Fs) (htree : fs.IsTree) (oldDir : ℕ) (oldName : String)
    (newDir : Option ℕ) (newName : String) (hnewDir : ∀ nd, newDir = some nd → fs.Reach 1 nd) :
    ((∀ nd fs', newDir = some nd → fs.rename oldDir oldName newDir newName = (.ok (), fs') →
        fs.KeepsTree nd newName fs') ∧
      (∀ e fs', fs.rename oldDir oldName newDir newName = (.error e, fs') → fs' = fs)) ↔
    ∀ nd inode, newDir = some nd → fs.entry oldDir oldName = some inode →
      fs.Movable oldDir oldName nd newName inode := by
  by_cases hnone : newDir = none ∨ fs.entry oldDir oldName = none
  · obtain ⟨e, he⟩ := rename_of_none newName hnone
    constructor
    · intro _ nd inode hnd hentry
      simp [hnd, hentry] at hnone
    · intro _
      simp [he, eq_comm]
  · push Not at hnone
    obtain ⟨nd, rfl⟩ := ne_none_iff_exists'.mp hnone.1
    obtain ⟨inode, hentry⟩ := ne_none_iff_exists'.mp hnone.2
    simp only [rename_of_some hentry, hentry, Prod.mk.injEq, reduceCtorEq, false_and,
      false_imp_iff, implies_true, and_true, true_and, some.injEq]
    constructor
    · rintro h _ _ rfl rfl
      exact movable_of_keepsTree htree hentry (h nd _ rfl rfl)
    · rintro h _ _ rfl rfl
      exact Fs.Movable.keepsTree htree hentry (hnewDir nd rfl) (h nd inode rfl rfl)

/-- A directory `d` with a file `g` in it, and a file `f` beside it. -/
def smallTree : Fs :=
  { dirs := Function.update (Function.update Fs.new.dirs 1
      ((DirInner.empty.insert "d" (.dir 2)).insert "f" (.file 3))) 2
      (DirInner.empty.insert "g" (.file 4))
    nlink := fun _ => 1
    nextIno := 5 }

lemma smallTree_dir {a b : ℕ} {name : String}
    (h : smallTree.entry a name = some (.dir b)) : a = 1 ∧ name = "d" ∧ b = 2 := by
  by_cases h2 : a = 2
  · by_cases hg : name = "g" <;>
      simp [smallTree, entry, DirInner.insert, DirInner.empty, h2, hg] at h
  · by_cases h1 : a = 1
    · by_cases hf : name = "f"
      · simp [smallTree, entry, DirInner.insert, h1, hf] at h
      · by_cases hd : name = "d"
        · simp [smallTree, entry, DirInner.insert, h1, hd] at h
          exact ⟨h1, hd, h.symm⟩
        · simp [smallTree, entry, DirInner.insert, DirInner.empty, h1, hf, hd] at h
    · simp [smallTree, entry, new, DirInner.empty, h1, h2] at h

lemma smallTree_isTree : smallTree.IsTree where
  root d name h := by simpa using (smallTree_dir h).2.2
  unique d d' name name' b h h' := by
    obtain ⟨rfl, rfl, _⟩ := smallTree_dir h
    obtain ⟨rfl, rfl, _⟩ := smallTree_dir h'
    exact ⟨rfl, rfl⟩
  acyclic a ha := by
    -- the only edge goes from 1 to 2
    have hends : ∀ x y, TransGen smallTree.Child x y → x = 1 ∧ y = 2 := by
      intro x y hxy
      induction hxy with
      | single hedge =>
        obtain ⟨name, hname⟩ := hedge
        exact ⟨(smallTree_dir hname).1, (smallTree_dir hname).2.2⟩
      | tail _ hedge ih =>
        obtain ⟨name, hname⟩ := hedge
        exact ⟨ih.1, (smallTree_dir hname).2.2⟩
    obtain ⟨h1, h2⟩ := hends a a ha
    omega

lemma smallTree_reach : smallTree.Reach 1 2 := ReflTransGen.single ⟨"d", rfl⟩

/-- The file may move into the directory under a free name. -/
theorem smallTree_rename_file :
    (∀ nd fs', some 2 = some nd → smallTree.rename 1 "f" (some 2) "h" = (.ok (), fs') →
        smallTree.KeepsTree nd "h" fs') ∧
      ∀ e fs', smallTree.rename 1 "f" (some 2) "h" = (.error e, fs') → fs' = smallTree := by
  refine (rename_keepsTree_iff smallTree smallTree_isTree 1 "f" (some 2) "h" ?_).mpr ?_
  · intro nd hnd
    exact some.inj hnd ▸ smallTree_reach
  · intro nd inode hnd hinode
    cases hnd
    have hfree : smallTree.entry 2 "h" = none := rfl
    have hfile : inode = .file 3 := (some.inj hinode).symm
    exact ⟨by simp [hfree], by simp [hfree], by simp [hfile]⟩

/-- The directory is moved into itself; and the file takes the name of the directory, which is
not empty. Both calls succeed. -/
theorem rename_breaks_tree :
    smallTree.IsTree ∧ smallTree.Reach 1 2 ∧
      (∃ fs', smallTree.rename 1 "d" (some 2) "c" = (.ok (), fs') ∧ fs'.Child 2 2 ∧
        ¬ smallTree.KeepsTree 2 "c" fs') ∧
      ∃ fs', smallTree.rename 1 "f" (some 1) "d" = (.ok (), fs') ∧
        fs'.entry 1 "d" = some (.file 3) ∧ ¬ smallTree.KeepsTree 1 "d" fs' := by
  refine ⟨smallTree_isTree, smallTree_reach, ⟨_, rfl, ⟨"c", rfl⟩, ?_⟩, ⟨_, rfl, rfl, ?_⟩⟩
  · intro h
    exact h.acyclic 2 (TransGen.single ⟨"c", rfl⟩)
  · intro h
    exact (h.kinds (.dir 2) (.file 3) rfl rfl).mp trivial

end Kevlar.TmpFs
