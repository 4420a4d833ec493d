import Kevlar.PathResolution

/-!
# How deep `lookup_inode` recurses

A link in the last component makes `lookup_inode` call itself for the path of its target,
with no budget. The number of nested calls is the length of the chain of these links, so
it is bounded exactly where the chain is.
-/
namespace Kevlar.Lookup

variable {I Key : Type} [DecidableEq Key]
variable {fs : RootFs I Key} {names : List Str} {target path : Str} {followSymlink : Bool}

/-- At most `n` links are replaced by their targets before a path names none. -/
inductive LinksWithin (fs : RootFs I Key) : ℕ → Str → Prop where
  | stop {n : ℕ} {path : Str} (h : ∀ target, ¬ NamesLink fs path target) : LinksWithin fs n path
  | link {n : ℕ} {path target : Str} (h : NamesLink fs path target)
      (hrest : LinksWithin fs n (linkPath path target)) : LinksWithin fs (n + 1) path

lemma stops_of_done {result : Except Errno I} (h : inodeStep fs path followSymlink = .done result)
    (n : ℕ) :
    followSymlink = false ∨ LinksWithin fs n path := by
  cases followSymlink with
  | false => exact .inl rfl
  | true =>
    refine .inr (.stop fun target hlink => ?_)
    rw [inodeStep_eq_again_iff.mpr ⟨rfl, target, hlink, rfl⟩] at h
    cases h

lemma linksWithin_of_link {n : ℕ} (h : LinksWithin fs (n + 1) path)
    (hlink : NamesLink fs path target) :
    LinksWithin fs n (linkPath path target) := by
  cases h with
  | stop hstop => exact absurd hlink (hstop target)
  | link hlink' hrest =>
    -- the walk is a function of the path, so both links give the same next path
    have hstep := inodeStep_eq_again_iff.mpr ⟨rfl, _, hlink', rfl⟩
    rw [inodeStep_eq_again_iff.mpr ⟨rfl, _, hlink, rfl⟩] at hstep
    rw [InodeStep.again.inj hstep]
    exact hrest

lemma lookupInode_isSome_iff (fs : RootFs I Key) (followSymlink : Bool) (depth : ℕ)
    (path : Str) :
    (∃ result, lookupInode fs followSymlink (depth + 1) path = some result) ↔
      followSymlink = false ∨ LinksWithin fs depth path := by
  induction depth generalizing path with
  | zero =>
    rw [lookupInode]
    cases hstep : inodeStep fs path followSymlink with
    | done result => exact iff_of_true ⟨result, rfl⟩ (stops_of_done hstep 0)
    | again p =>
      obtain ⟨rfl, target, hlink, -⟩ := inodeStep_eq_again_iff.mp hstep
      refine iff_of_false (by simp [lookupInode]) ?_
      rintro (hfalse | hwithin)
      · cases hfalse
      · cases hwithin with
        | stop hstop => exact hstop target hlink
  | succ depth ih =>
    rw [lookupInode]
    cases hstep : inodeStep fs path followSymlink with
    | done result => exact iff_of_true ⟨result, rfl⟩ (stops_of_done hstep _)
    | again p =>
      obtain ⟨rfl, target, hlink, rfl⟩ := inodeStep_eq_again_iff.mp hstep
      rw [ih]
      simp only [Bool.true_eq_false, false_or]
      exact ⟨fun h => .link hlink h, fun h => linksWithin_of_link h hlink⟩

/-- A root directory (0) with a link `a` (1) to `/a`. -/
def selfLink : RootFs ℕ Unit where
  vfs :=
    { kind := fun inode => if inode = 0 then .directory else .symlink
      lookup := fun _ name => if name = ['a'] then .ok 1 else .error .enoent
      linkedTo := fun _ => .ok ['/', 'a']
      mountKey := fun _ => .ok () }
  rootPath := .root [] 0
  cwdPath := .root [] 0
  mountPoints := []
  symlinkFollowLimit := defaultSymlinkFollowMax

end Kevlar.Lookup
