import Kevlar.PathResolution

/-!
# Confinement by `chroot`

`chroot` makes the component it looked up the new root, with the chain of its parents, and
`..` follows that chain. So the process is confined to the new root exactly when every
directory of the chain is itself inside. The lookups preserve any property of components
that the root has and that parents and entries inherit (`Closed`); being inside is one,
and having only directories above is another.
-/
namespace Kevlar.Lookup

variable {I Key : Type} [DecidableEq Key]

/-- A property of components that every step of a lookup preserves. -/
structure Closed (fs : RootFs I Key) (P : PathComponent I → Prop) : Prop where
  root : P fs.rootPath
  parent : ∀ {parentDir name inode}, P (.child parentDir name inode) → P parentDir
  entry : ∀ {parentDir : PathComponent I} {name inode}, P parentDir →
    fs.vfs.kind parentDir.inode = .directory → name ≠ ['.'] → name ≠ ['.', '.'] →
    enter fs parentDir.inode name = .ok inode → P (.child parentDir name inode)

section Closed

variable {fs : RootFs I Key} {P : PathComponent I → Prop} {followSymlink : Bool}
  {parentDir pc : PathComponent I} (h : Closed fs P)
include h

lemma Closed.stepInto {name : Str} (hparent : P parentDir) (hdot : name ≠ ['.'])
    (hstep : stepInto fs parentDir name = .ok pc) : P pc := by
  unfold Lookup.stepInto at hstep
  by_cases hup : name = ['.', '.']
  · rw [if_pos hup] at hstep
    cases hstep
    cases parentDir with
    | root name inode => exact h.root
    | child parent name inode => exact h.parent hparent
  · rw [if_neg hup] at hstep
    match hdir : fs.vfs.kind parentDir.inode with
    | .directory =>
      rw [hdir] at hstep
      obtain ⟨inode, henter, hpc⟩ := bind_eq_ok.mp hstep
      cases hpc
      exact h.entry hparent hdir hdot hup henter
    | .fileLike | .symlink =>
      rw [hdir] at hstep
      cases hstep

lemma Closed.resolves {names : List Str} (hparent : P parentDir)
    (hresolves : Resolves fs followSymlink parentDir names pc) : P pc := by
  induction hresolves with
  | nil d => exact hparent
  | dot _ ih => exact ih hparent
  | enter hdot hstep _ _ ih => exact ih (h.stepInto hparent hdot hstep)
  | link _ _ _ _ _ _ _ _ ihTarget ih =>
    refine ih (ihTarget ?_)
    unfold followFrom
    split_ifs
    · exact h.root
    · exact hparent

lemma Closed.lookupStart (hcwd : P fs.cwdPath) (path : Str) : P (lookupStart fs path) := by
  unfold Lookup.lookupStart
  split_ifs
  · exact h.root
  · exact hcwd

lemma Closed.lookupPath (hcwd : P fs.cwdPath) {path : Str}
    (hlookup : lookupPath fs path followSymlink = .ok pc) : P pc :=
  h.resolves (h.lookupStart hcwd path) (followsPaths_doLookupPath _ _ _ hlookup).2

end Closed

/-! ## Directories above -/

/-- Everything above the component is a directory. -/
def DirsAbove (kind : I → Kind) : PathComponent I → Prop
  | .root _ _ => True
  | .child parentDir _ _ => kind parentDir.inode = .directory ∧ DirsAbove kind parentDir

variable {fs : RootFs I Key} {dir : I}

lemma closed_dirsAbove (h : DirsAbove fs.vfs.kind fs.rootPath) :
    Closed fs (DirsAbove fs.vfs.kind) where
  root := h
  parent := fun hchild => hchild.2
  entry := fun hparent hdir _ _ _ => ⟨hdir, hparent⟩

/-- What happens to the view of a process: it starts at the root of a file system, directories
change, file systems are mounted, and the process changes its directory or root. -/
inductive FsRun : RootFs I Key → Prop where
  | new (vfs : Vfs I Key) (inode : I) :
      FsRun ⟨vfs, .root [] inode, .root [] inode, [], defaultSymlinkFollowMax⟩
  | files {fs : RootFs I Key} (h : FsRun fs) (vfs : Vfs I Key) (hkind : vfs.kind = fs.vfs.kind) :
      FsRun { fs with vfs }
  | mount {fs : RootFs I Key} (h : FsRun fs) (mountPoints : List (Key × Except Errno I)) :
      FsRun { fs with mountPoints }
  | setRoot {fs : RootFs I Key} (h : FsRun fs) (inode : I) :
      FsRun { fs with rootPath := .root [] inode }
  | setCwd {fs : RootFs I Key} (h : FsRun fs) : FsRun { fs with cwdPath := fs.rootPath }
  | chdir {fs fs' : RootFs I Key} {path : Str} (h : FsRun fs) (hchdir : chdir fs path = .ok fs') :
      FsRun fs'
  | chroot {fs fs' : RootFs I Key} {path : Str} (h : FsRun fs)
      (hchroot : chroot fs path = .ok fs') : FsRun fs'

lemma FsRun.dirsAbove (h : FsRun fs) :
    DirsAbove fs.vfs.kind fs.rootPath ∧ DirsAbove fs.vfs.kind fs.cwdPath := by
  induction h with
  | new vfs inode => exact ⟨trivial, trivial⟩
  | files _ vfs hkind ih =>
    rw [hkind]
    exact ih
  | mount _ mountPoints ih => exact ih
  | setRoot _ inode ih => exact ⟨trivial, ih.2⟩
  | setCwd _ ih => exact ⟨ih.1, ih.1⟩
  | chdir _ hchdir ih =>
    obtain ⟨pc, hlookup, hpc⟩ := bind_eq_ok.mp hchdir
    cases hpc
    exact ⟨ih.1, (closed_dirsAbove ih.1).lookupPath ih.2 hlookup⟩
  | chroot _ hchroot ih =>
    obtain ⟨pc, hlookup, hpc⟩ := bind_eq_ok.mp hchroot
    cases hpc
    have hdirs := (closed_dirsAbove ih.1).lookupPath ih.2 hlookup
    exact ⟨hdirs, hdirs⟩

/-! ## Inside a directory -/

/-- An entry of a directory, behind its mount point. A directory may also answer for `.` and
`..`, as those of ext2 do; these are no entries. -/
def EntryOf (fs : RootFs I Key) (dir inode : I) : Prop :=
  fs.vfs.kind dir = .directory ∧
    ∃ name, name ≠ ['.'] ∧ name ≠ ['.', '.'] ∧ enter fs dir name = .ok inode

/-- The directory itself or a descendant. -/
def Below (fs : RootFs I Key) (dir inode : I) : Prop :=
  Relation.ReflTransGen (EntryOf fs) dir inode

/-- The component and everything above it is in the set. -/
def Inside (inodes : I → Prop) : PathComponent I → Prop
  | .root _ inode => inodes inode
  | .child parentDir _ inode => Inside inodes parentDir ∧ inodes inode

lemma Inside.below {inodes : I → Prop} {pc : PathComponent I} (h : Inside inodes pc) :
    inodes pc.inode := by
  cases pc with
  | root => exact h
  | child => exact h.2

lemma closed_inside {fs : RootFs I Key} {dir : I} (h : Inside (Below fs dir) fs.rootPath) :
    Closed fs (Inside (Below fs dir)) where
  root := h
  parent := fun hchild => hchild.1
  entry := fun hparent hdir hdot hup henter =>
    ⟨hparent, hparent.below.tail ⟨hdir, _, hdot, hup, henter⟩⟩

lemma below_of_leadsTo (hroot : Inside (Below fs dir) fs.rootPath)
    (hcwd : Inside (Below fs dir) fs.cwdPath) {path : Str} {followSymlink : Bool} {inode : I}
    (h : LeadsTo fs followSymlink path inode) : Below fs dir inode := by
  induction h with
  | path _ hresolves =>
    have hclosed := closed_inside hroot
    exact (hclosed.resolves (hclosed.lookupStart hcwd _) hresolves).below
  | link _ _ ih => exact ih

/-- The states of a process that changes its directory any number of times. -/
inductive ChdirRun (fs : RootFs I Key) : RootFs I Key → Prop where
  | refl : ChdirRun fs fs
  | chdir {r r' : RootFs I Key} {path : Str} (h : ChdirRun fs r) (hchdir : chdir r path = .ok r') :
      ChdirRun fs r'

/-- Whatever a lookup returns, now or after changing directories, is inside the directory. -/
def Confined (fs : RootFs I Key) (dir : I) : Prop :=
  ∀ r, ChdirRun fs r → ∀ path followSymlink,
    (∀ pc, lookupPath r path followSymlink = .ok pc → Below fs dir pc.inode) ∧
    ∀ depth inode, lookupInode r followSymlink depth path = some (.ok inode) → Below fs dir inode

lemma ChdirRun.inside {r : RootFs I Key} (h : ChdirRun fs r)
    (hroot : Inside (Below fs dir) fs.rootPath) (hcwd : Inside (Below fs dir) fs.cwdPath) :
    ∃ cwd, r = { fs with cwdPath := cwd } ∧ Inside (Below fs dir) cwd := by
  induction h with
  | refl => exact ⟨fs.cwdPath, rfl, hcwd⟩
  | chdir _ hchdir ih =>
    obtain ⟨cwd, rfl, hinside⟩ := ih
    obtain ⟨pc, hlookup, hpc⟩ := bind_eq_ok.mp hchdir
    cases hpc
    have hclosed := @closed_inside I Key _ { fs with cwdPath := cwd } dir hroot
    exact ⟨pc, rfl, hclosed.lookupPath hinside hlookup⟩

lemma confined_of_inside (hroot : Inside (Below fs dir) fs.rootPath)
    (hcwd : Inside (Below fs dir) fs.cwdPath) : Confined fs dir := by
  intro r hrun path followSymlink
  obtain ⟨cwd, rfl, hinside⟩ := hrun.inside hroot hcwd
  constructor
  · intro pc hlookup
    exact ((@closed_inside I Key _ { fs with cwdPath := cwd } dir hroot).lookupPath hinside
      hlookup).below
  · intro depth inode hlookup
    exact @below_of_leadsTo I Key _ { fs with cwdPath := cwd } dir hroot hinside _ _ _
      (leadsTo_of_lookupInode hlookup)

/-- From a directory below another one, `..` is the directory above. -/
lemma lookupPath_up {fs : RootFs I Key} {parentDir : PathComponent I} {name : Str} {inode : I}
    (hcwd : fs.cwdPath = .child parentDir name inode)
    (hdir : fs.vfs.kind parentDir.inode = .directory) :
    lookupPath fs ['.', '.'] true = .ok parentDir := by
  have hwalk : ∀ limit nested, walk fs true limit nested fs.cwdPath [['.', '.']] =
      .ok parentDir := by
    intro limit nested
    have hstep : stepInto fs fs.cwdPath ['.', '.'] = .ok parentDir := by
      rw [hcwd]
      rfl
    rw [walk, if_neg (by decide), hstep]
    simp [lastComponent, hdir, bind, Except.bind, pure, Except.pure]
  change doLookupPath fs true fs.symlinkFollowLimit fs.cwdPath ['.', '.'] = _
  cases fs.symlinkFollowLimit with
  | zero => exact hwalk 0 _
  | succ limit => exact hwalk (limit + 1) _

/-- A process that can go up from a directory inside is confined only if all of the chain
above is inside. -/
lemma Confined.inside (h : Confined fs dir) {cwd : PathComponent I}
    (hrun : ChdirRun fs { fs with cwdPath := cwd }) (hdirs : DirsAbove fs.vfs.kind cwd)
    (hbelow : Below fs dir cwd.inode) :
    Inside (Below fs dir) cwd := by
  induction cwd with
  | root name inode => exact hbelow
  | child parentDir name inode ih =>
    have hup := @lookupPath_up I Key _ { fs with cwdPath := .child parentDir name inode }
      parentDir name inode rfl hdirs.1
    have hparent := (h _ hrun ['.', '.'] true).1 parentDir hup
    refine ⟨ih (@ChdirRun.chdir I Key _ fs _ _ ['.', '.'] hrun ?_) hdirs.2 hparent, hbelow⟩
    rw [chdir, hup]
    rfl

/-- After `chroot` a process is confined to the new root exactly when the directories above
the new root are inside it. -/
theorem chroot_confines_iff {fs jail : RootFs I Key} (hrun : FsRun fs) {path : Str}
    (hchroot : chroot fs path = .ok jail) :
    Confined jail jail.rootPath.inode ↔ Inside (Below jail jail.rootPath.inode) jail.rootPath := by
  have hdirs := (hrun.chroot hchroot).dirsAbove.1
  obtain ⟨newRoot, -, hpc⟩ := bind_eq_ok.mp hchroot
  cases hpc
  constructor
  · intro h
    exact h.inside .refl hdirs .refl
  · intro h
    exact confined_of_inside h h

/-- A `chroot` to the root of the file system confines. -/
theorem chroot_root_confines : Confined (twoDirs (.root [] 0)) 0 :=
  (chroot_confines_iff (FsRun.new (twoDirs (.root [] 0)).vfs 0)
    (show chroot (twoDirs (.root [] 0)) ['/'] = .ok (twoDirs (.root [] 0)) from rfl)).mpr .refl

/-- The view of a process after `chroot("/d")`. -/
def jailed : RootFs ℕ Unit :=
  { twoDirs (.root [] 0) with
    rootPath := .child (.root [] 0) ['d'] 1
    cwdPath := .child (.root [] 0) ['d'] 1 }

lemma below_jailed {inode : ℕ} (h : Below jailed 1 inode) : inode = 1 ∨ inode = 3 := by
  induction h with
  | refl => exact .inl rfl
  | tail _ hentry ih =>
    obtain ⟨hdir, name, -, -, henter⟩ := hentry
    obtain rfl | rfl := ih
    · by_cases hx : name = ['x']
      · subst hx
        cases henter
        exact .inr rfl
      · have herror : enter jailed 1 name = .error .enoent := by
          simp [enter, jailed, twoDirs, hx, bind, Except.bind]
        rw [herror] at henter
        cases henter
    · cases hdir

/-- `..` leads out of the new root. -/
theorem chroot_escape :
    chroot (twoDirs (.root [] 0)) ['/', 'd'] = .ok jailed ∧
    (lookupPath jailed ['.', '.'] true).map (·.inode) = .ok 0 ∧ ¬ Below jailed 1 0 := by
  refine ⟨rfl, rfl, fun h => ?_⟩
  obtain h | h := below_jailed h <;> cases h

end Kevlar.Lookup
