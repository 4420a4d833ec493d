import Mathlib.Data.List.DropRight
import Mathlib.Tactic

/-!
# Path lookup

Paths are strings; `components` splits them as the iterator of the source does, and a
path counts as absolute only if it starts with a slash and has no empty, `.` or `..`
component. Directories, links and mount points answer through a record of functions,
so that the lookups below are over an arbitrary file system, errors included.

`doLookupPath` walks the components and keeps the chain of parents; a link is followed by
a nested call with one less of the budget. `lookupInode` walks inodes only and turns a link
in the last component into a new path, for which it calls itself; one such call is
`inodeStep`, and `lookupInode` runs at most a given number of them.
-/
namespace Kevlar.Lookup

abbrev Str : Type := List Char

def startsWithSlash (s : Str) : Bool := s.head? == some '/'

def endsWithSlash (s : Str) : Bool := s.getLast? == some '/'

/-- `Path::new`: trailing slashes go, unless the path is the root. -/
def pathNew (path : Str) : Str :=
  if path = ['/'] then path else path.rdropWhile (· == '/')

/-- `Components::next` -/
def nextComponent (path : Str) : Option (Str × Str) :=
  if path.isEmpty then none
  else some (path.takeWhile (· != '/'), (path.dropWhile (· != '/')).tail)

/-- What the iterator yields; every step takes at least one character. -/
def collectComponents : ℕ → Str → List Str
  | 0, _ => []
  | n + 1, path =>
    match nextComponent path with
    | none => []
    | some (comp, rest) => comp :: collectComponents n rest

def components (path : Str) : List Str :=
  let path := if startsWithSlash path then path.tail else path
  collectComponents path.length path

def isAbsolute (path : Str) : Bool :=
  startsWithSlash path &&
    !(components path).any fun comp => comp == ['.', '.'] || comp == ['.'] || comp == []

def parentAndBasename (path : Str) : Option (Str × Str) :=
  if path = ['/'] then none
  else
    match path.reverse.dropWhile (· != '/') with
    | [] => some (pathNew ['.'], path)
    | _ :: before =>
      let parentDir := if before.isEmpty then pathNew ['/'] else pathNew before.reverse
      some (parentDir, (path.reverse.takeWhile (· != '/')).reverse)

inductive Errno where
  | enoent
  | enotdir
  | ebadf
  | eloop
  | other (code : ℕ)
  deriving DecidableEq, Repr

inductive Kind where
  | directory
  | fileLike
  | symlink
  deriving DecidableEq, Repr

/-- The inodes of a file system and what they answer. -/
structure Vfs (I Key : Type) where
  kind : I → Kind
  lookup : I → Str → Except Errno I
  linkedTo : I → Except Errno Str
  mountKey : I → Except Errno Key

/-- A looked-up name with the chain of the directories above it. -/
inductive PathComponent (I : Type) where
  | root (name : Str) (inode : I)
  | child (parentDir : PathComponent I) (name : Str) (inode : I)

namespace PathComponent

variable {I : Type}

def inode : PathComponent I → I
  | root _ inode => inode
  | child _ _ inode => inode

def parentDir : PathComponent I → Option (PathComponent I)
  | root _ _ => none
  | child parentDir _ _ => some parentDir

end PathComponent

/-- A mount point maps a key to the root directory of the mounted file system. -/
structure RootFs (I Key : Type) where
  vfs : Vfs I Key
  rootPath : PathComponent I
  cwdPath : PathComponent I
  mountPoints : List (Key × Except Errno I)
  symlinkFollowLimit : ℕ

def defaultSymlinkFollowMax : ℕ := 8

lemma bind_eq_ok {α β : Type} {x : Except Errno α} {f : α → Except Errno β} {b : β} :
    (x >>= f) = .ok b ↔ ∃ a, x = .ok a ∧ f a = .ok b := by
  cases x with
  | error e =>
    constructor
    · intro h
      cases h
    · rintro ⟨a, ha, -⟩
      cases ha
  | ok a =>
    constructor
    · exact fun h => ⟨a, rfl, h⟩
    · rintro ⟨a', ha, hf⟩
      cases ha
      exact hf

section Model

variable {I Key : Type} [DecidableEq Key]

/-- A file system mounted on a directory takes its place. -/
def crossMount (fs : RootFs I Key) (inode : I) : Except Errno I :=
  match fs.vfs.kind inode with
  | .directory => do
    let key ← fs.vfs.mountKey inode
    match fs.mountPoints.find? fun mp => mp.1 = key with
    | some mp => mp.2
    | none => pure inode
  | _ => pure inode

/-- The entry of a directory, behind its mount point. -/
def enter (fs : RootFs I Key) (dir : I) (name : Str) : Except Errno I := do
  let inode ← fs.vfs.lookup dir name
  crossMount fs inode

/-- The component that a name stands for, in a directory. -/
def stepInto (fs : RootFs I Key) (parentDir : PathComponent I) (name : Str) :
    Except Errno (PathComponent I) :=
  if name = ['.', '.'] then pure (parentDir.parentDir.getD fs.rootPath)
  else
    match fs.vfs.kind parentDir.inode with
    | .directory => do
      let inode ← enter fs parentDir.inode name
      pure (.child parentDir name inode)
    | _ => throw .ebadf

/-- A link is looked up from the root or from the directory it is in. -/
def followFrom (fs : RootFs I Key) (parentDir : PathComponent I) (linkedPath : Str) :
    PathComponent I :=
  if isAbsolute linkedPath then fs.rootPath else parentDir

/-- The target of a link, if the budget allows another one. -/
def followLink (fs : RootFs I Key) (limit : ℕ)
    (nested : PathComponent I → Str → Except Errno (PathComponent I))
    (parentDir : PathComponent I) (link : I) : Except Errno (PathComponent I) :=
  if limit = 0 then throw .eloop
  else do
    let linkedTo ← fs.vfs.linkedTo link
    nested (followFrom fs parentDir (pathNew linkedTo)) (pathNew linkedTo)

/-- The next directory, for `a` and `b` in `a/b/c`: links are followed in any case. -/
def ancestor (fs : RootFs I Key) (limit : ℕ)
    (nested : PathComponent I → Str → Except Errno (PathComponent I))
    (parentDir pathComp : PathComponent I) : Except Errno (PathComponent I) :=
  match fs.vfs.kind pathComp.inode with
  | .directory => pure pathComp
  | .symlink => do
    let dstPath ← followLink fs limit nested parentDir pathComp.inode
    match fs.vfs.kind dstPath.inode with
    | .directory => pure dstPath
    | _ => throw .enotdir
  | .fileLike => throw .enotdir

/-- The last component, `c` in `a/b/c`. -/
def lastComponent (fs : RootFs I Key) (followSymlink : Bool) (limit : ℕ)
    (nested : PathComponent I → Str → Except Errno (PathComponent I))
    (parentDir pathComp : PathComponent I) : Except Errno (PathComponent I) :=
  if fs.vfs.kind pathComp.inode = .symlink ∧ followSymlink then
    followLink fs limit nested parentDir pathComp.inode
  else pure pathComp

/-- The loop of `do_lookup_path`; `nested` is the call for a link. -/
def walk (fs : RootFs I Key) (followSymlink : Bool) (limit : ℕ)
    (nested : PathComponent I → Str → Except Errno (PathComponent I)) :
    PathComponent I → List Str → Except Errno (PathComponent I)
  | parentDir, [] => pure parentDir
  | parentDir, name :: rest =>
    if name = ['.'] then walk fs followSymlink limit nested parentDir rest
    else do
      let pathComp ← stepInto fs parentDir name
      if rest.isEmpty then lastComponent fs followSymlink limit nested parentDir pathComp
      else do
        let dir ← ancestor fs limit nested parentDir pathComp
        walk fs followSymlink limit nested dir rest

def doLookupPath (fs : RootFs I Key) (followSymlink : Bool) :
    ℕ → PathComponent I → Str → Except Errno (PathComponent I)
  | 0, lookupFrom, path =>
    if path.isEmpty then throw .enoent
    else walk fs followSymlink 0 (fun _ _ => throw .eloop) lookupFrom (components path)
  | limit + 1, lookupFrom, path =>
    if path.isEmpty then throw .enoent
    else walk fs followSymlink (limit + 1) (doLookupPath fs followSymlink limit) lookupFrom
      (components path)

def lookupPath (fs : RootFs I Key) (path : Str) (followSymlink : Bool) :
    Except Errno (PathComponent I) :=
  let lookupFrom := if isAbsolute path then fs.rootPath else fs.cwdPath
  doLookupPath fs followSymlink fs.symlinkFollowLimit lookupFrom path

/-- One call of `lookup_inode` ends with a result or with a call for another path. -/
inductive InodeStep (I : Type) where
  | done (result : Except Errno I)
  | again (path : Str)

/-- The path that stands for a link in the last component. -/
def linkPath (path target : Str) : Str :=
  if startsWithSlash target then pathNew target
  else
    match parentAndBasename path with
    | some (parent, _) =>
      pathNew ((if endsWithSlash parent then parent else parent ++ ['/']) ++ target)
    | none => pathNew target

/-- The last component of a path that `lookup_inode` walks. -/
def lastInode (fs : RootFs I Key) (path : Str) (followSymlink : Bool) (inode : I) : InodeStep I :=
  if fs.vfs.kind inode = .symlink ∧ followSymlink then
    match fs.vfs.linkedTo inode with
    | .error e => .done (.error e)
    | .ok target => .again (linkPath path target)
  else .done (pure inode)

/-- The loop of `lookup_inode`; `..` and links before the last component go to
`lookup_path`. -/
def inodeWalk (fs : RootFs I Key) (path : Str) (followSymlink : Bool) :
    I → List Str → InodeStep I
  | current, [] => .done (pure current)
  | current, name :: rest =>
    if name = ['.'] then inodeWalk fs path followSymlink current rest
    else if name = ['.', '.'] then
      .done ((lookupPath fs path followSymlink).map (·.inode))
    else if fs.vfs.kind current ≠ .directory then .done (throw .enotdir)
    else
      match enter fs current name with
      | .error e => .done (.error e)
      | .ok inode =>
        if rest.isEmpty then lastInode fs path followSymlink inode
        else
          match fs.vfs.kind inode with
          | .directory => inodeWalk fs path followSymlink inode rest
          | .symlink => .done ((lookupPath fs path followSymlink).map (·.inode))
          | .fileLike => .done (throw .enotdir)

def inodeStep (fs : RootFs I Key) (path : Str) (followSymlink : Bool) : InodeStep I :=
  if path.isEmpty then .done (throw .enoent)
  else
    let start := if isAbsolute path then fs.rootPath.inode else fs.cwdPath.inode
    inodeWalk fs path followSymlink start (components path)

/-- `lookup_inode` with at most `depth` nested calls; `none` if they do not suffice. -/
def lookupInode (fs : RootFs I Key) (followSymlink : Bool) : ℕ → Str → Option (Except Errno I)
  | 0, _ => none
  | depth + 1, path =>
    match inodeStep fs path followSymlink with
    | .done result => some result
    | .again path => lookupInode fs followSymlink depth path

def chdir (fs : RootFs I Key) (path : Str) : Except Errno (RootFs I Key) := do
  let cwdPath ← lookupPath fs path true
  pure { fs with cwdPath }

def chroot (fs : RootFs I Key) (path : Str) : Except Errno (RootFs I Key) := do
  let newRoot ← lookupPath fs path true
  pure { fs with rootPath := newRoot, cwdPath := newRoot }

/-! ## The current directory -/

lemma walk_cwd (fs : RootFs I Key) (cwd : PathComponent I) (followSymlink : Bool) (limit : ℕ)
    (nested : PathComponent I → Str → Except Errno (PathComponent I)) (names : List Str)
    (parentDir : PathComponent I) :
    walk { fs with cwdPath := cwd } followSymlink limit nested parentDir names =
      walk fs followSymlink limit nested parentDir names := by
  induction names generalizing parentDir with
  | nil => rfl
  | cons name rest ih =>
    simp only [walk, ih]
    rfl

lemma doLookupPath_cwd (fs : RootFs I Key) (cwd : PathComponent I) (followSymlink : Bool)
    (limit : ℕ) :
    doLookupPath { fs with cwdPath := cwd } followSymlink limit =
      doLookupPath fs followSymlink limit := by
  induction limit with
  | zero =>
    funext lookupFrom path
    simp only [doLookupPath, walk_cwd]
  | succ limit ih =>
    funext lookupFrom path
    simp only [doLookupPath, walk_cwd, ih]

end Model

/-- Two worlds in which every name leads back to the directory it was looked up in. -/
def mirrorFs (cwd : PathComponent Bool) : RootFs Bool Unit where
  vfs :=
    { kind := fun _ => .directory
      lookup := fun dir _ => .ok dir
      linkedTo := fun _ => .error .enoent
      mountKey := fun _ => .ok () }
  rootPath := .root [] true
  cwdPath := cwd
  mountPoints := []
  symlinkFollowLimit := defaultSymlinkFollowMax

/-- The component and `n` directories above it have this inode. -/
def Deep (b : Bool) : ℕ → PathComponent Bool → Prop
  | 0, pc => pc.inode = b
  | n + 1, pc => pc.inode = b ∧ ∃ parent, pc.parentDir = some parent ∧ Deep b n parent

variable {b : Bool} {n : ℕ} {pc : PathComponent Bool}

lemma Deep.inode_eq (h : Deep b n pc) :
    pc.inode = b := by
  cases n with
  | zero => exact h
  | succ n => exact h.1

lemma Deep.pred (h : Deep b (n + 1) pc) :
    Deep b n pc := by
  induction n generalizing pc with
  | zero => exact h.1
  | succ n ih =>
    obtain ⟨hinode, parent, hparent, hdeep⟩ := h
    exact ⟨hinode, parent, hparent, ih hdeep⟩

lemma Deep.child (h : Deep b n pc) (name : Str) :
    Deep b (n + 1) (.child pc name b) := ⟨rfl, pc, rfl, h⟩

lemma exists_deep (b : Bool) (n : ℕ) : ∃ pc, Deep b n pc := by
  induction n with
  | zero => exact ⟨.root [] b, rfl⟩
  | succ n ih =>
    obtain ⟨pc, hdeep⟩ := ih
    exact ⟨.child pc [] b, hdeep.child []⟩

lemma walk_mirrorFs (cwd : PathComponent Bool) (followSymlink : Bool) (limit : ℕ)
    (nested : PathComponent Bool → Str → Except Errno (PathComponent Bool)) {names : List Str}
    (h : Deep b names.length pc) :
    ∃ pc', walk (mirrorFs cwd) followSymlink limit nested pc names = .ok pc' ∧ pc'.inode = b := by
  induction names generalizing pc with
  | nil => exact ⟨pc, rfl, h⟩
  | cons name rest ih =>
    rw [walk]
    by_cases hdot : name = ['.']
    · rw [if_pos hdot]
      exact ih h.pred
    · rw [if_neg hdot]
      have hstep : ∃ next, stepInto (mirrorFs cwd) pc name = .ok next ∧
          Deep b rest.length next := by
        by_cases hup : name = ['.', '.']
        · obtain ⟨-, parent, hparent, hdeep⟩ := h
          exact ⟨parent, by simp [stepInto, hup, hparent]; rfl, hdeep⟩
        · refine ⟨.child pc name b, ?_, (h.pred.child name).pred⟩
          rw [stepInto, if_neg hup]
          simp only [h.inode_eq]
          rfl
      obtain ⟨next, hnext, hdeep⟩ := hstep
      rw [hnext]
      by_cases hlast : rest.isEmpty = true
      · refine ⟨next, ?_, hdeep.inode_eq⟩
        simp only [hlast]
        rfl
      · simp only [hlast]
        exact ih hdeep

lemma lookupPath_mirrorFs {path : Str} (hne : path ≠ []) (hrel : isAbsolute path = false)
    (b followSymlink : Bool) :
    ∃ cwd, (lookupPath (mirrorFs cwd) path followSymlink).map (·.inode) = .ok b := by
  obtain ⟨cwd, hdeep⟩ := exists_deep b (components path).length
  obtain ⟨pc, hwalk, hinode⟩ := walk_mirrorFs cwd followSymlink defaultSymlinkFollowMax
    (doLookupPath (mirrorFs cwd) followSymlink 7) hdeep
  refine ⟨cwd, ?_⟩
  have hlookup : lookupPath (mirrorFs cwd) path followSymlink =
      walk (mirrorFs cwd) followSymlink defaultSymlinkFollowMax
        (doLookupPath (mirrorFs cwd) followSymlink 7) cwd (components path) := by
    have hempty : path.isEmpty = false := by simpa using hne
    simp only [lookupPath, hrel]
    change doLookupPath (mirrorFs cwd) followSymlink (7 + 1) cwd path = _
    rw [doLookupPath, hempty]
    rfl
  rw [hlookup, hwalk, ← hinode]
  rfl

/-- A path, one that begins with a slash among them, is looked up independently of the current
directory exactly when it counts as absolute, or nothing is left of it. -/
theorem lookupPath_cwd_independent_iff (path : Str) :
    (∀ (I Key : Type) [DecidableEq Key] (fs : RootFs I Key) (cwd : PathComponent I)
      (followSymlink : Bool),
      (lookupPath { fs with cwdPath := cwd } (pathNew path) followSymlink).map (·.inode) =
        (lookupPath fs (pathNew path) followSymlink).map (·.inode)) ↔
      isAbsolute (pathNew path) = true ∨ pathNew path = [] := by
  constructor
  · intro h
    by_contra hnot
    rw [not_or, Bool.not_eq_true] at hnot
    obtain ⟨cwd₁, h₁⟩ := lookupPath_mirrorFs hnot.2 hnot.1 true true
    obtain ⟨cwd₂, h₂⟩ := lookupPath_mirrorFs hnot.2 hnot.1 false true
    have hsame := h Bool Unit (mirrorFs cwd₁) cwd₂ true
    change (lookupPath (mirrorFs cwd₂) (pathNew path) true).map (·.inode) = _ at hsame
    rw [h₁, h₂] at hsame
    cases hsame
  · intro h I Key _ fs cwd followSymlink
    obtain habs | hempty := h
    · simp only [lookupPath, habs, doLookupPath_cwd]
      rfl
    · rw [hempty]
      have hnone : ∀ (r : RootFs I Key) (from' : PathComponent I),
          doLookupPath r followSymlink r.symlinkFollowLimit from' [] = .error .enoent := by
        intro r from'
        cases r.symlinkFollowLimit <;> rfl
      rw [lookupPath, lookupPath, hnone, hnone]

/-- A directory `d` (1) in the root (0), and a file `x` in each of them (2 and 3). -/
def twoDirs (cwd : PathComponent ℕ) : RootFs ℕ Unit where
  vfs :=
    { kind := fun inode => if inode < 2 then .directory else .fileLike
      lookup := fun dir name =>
        if name = ['x'] then .ok (dir + 2)
        else if dir = 0 ∧ name = ['d'] then .ok 1
        else .error .enoent
      linkedTo := fun _ => .error .enoent
      mountKey := fun _ => .ok () }
  rootPath := .root [] 0
  cwdPath := cwd
  mountPoints := []
  symlinkFollowLimit := defaultSymlinkFollowMax

/-- `/./x` is the file in the current directory. -/
theorem lookupPath_dot_depends_on_cwd :
    (lookupPath (twoDirs (.root [] 0)) ['/', '.', '/', 'x'] true).map (·.inode) = .ok 2 ∧
    (lookupPath (twoDirs (.child (.root [] 0) ['d'] 1)) ['/', '.', '/', 'x'] true).map (·.inode) =
      .ok 3 := by
  decide

end Kevlar.Lookup
