import Kevlar.PathLookup

/-!
# Where a path leads

`Resolves` says, without the loops and their budget, that names lead from one component to
another through directories and links. `lookup_path` returns only what its path resolves to.
`lookup_inode` replaces a link in the last component by the path of its target (`NamesLink`)
and looks that up, so it returns what the last of these paths resolves to (`LeadsTo`).
-/
namespace Kevlar.Lookup

variable {I Key : Type} [DecidableEq Key]

/-! ## Links in the last component -/

/-- From an inode the names lead, through directories only, to a link with this target. -/
inductive LeadsToLink (fs : RootFs I Key) : I → List Str → Str → Prop where
  | dot {d : I} {rest : List Str} {target : Str} (h : LeadsToLink fs d rest target) :
      LeadsToLink fs d (['.'] :: rest) target
  | enter {d x : I} {name : Str} {rest : List Str} {target : Str} (hdot : name ≠ ['.'])
      (hup : name ≠ ['.', '.']) (hdir : fs.vfs.kind d = .directory)
      (henter : enter fs d name = .ok x) (hx : fs.vfs.kind x = .directory)
      (h : LeadsToLink fs x rest target) : LeadsToLink fs d (name :: rest) target
  | last {d x : I} {name target : Str} (hdot : name ≠ ['.']) (hup : name ≠ ['.', '.'])
      (hdir : fs.vfs.kind d = .directory) (henter : enter fs d name = .ok x)
      (hx : fs.vfs.kind x = .symlink) (hlink : fs.vfs.linkedTo x = .ok target) :
      LeadsToLink fs d [name] target

variable {fs : RootFs I Key} {names : List Str} {target path : Str} {followSymlink : Bool}

lemma LeadsToLink.names_ne_nil {d : I} (h : LeadsToLink fs d names target) : names ≠ [] := by
  cases h <;> simp

omit [DecidableEq Key] in
lemma lastInode_eq_again_iff {fs : RootFs I Key} {path p : Str} {followSymlink : Bool}
    {inode : I} :
    lastInode fs path followSymlink inode = .again p ↔
      followSymlink = true ∧ fs.vfs.kind inode = .symlink ∧
        ∃ target, fs.vfs.linkedTo inode = .ok target ∧ p = linkPath path target := by
  unfold lastInode
  by_cases hlink : fs.vfs.kind inode = .symlink ∧ followSymlink = true
  · rw [if_pos hlink]
    cases fs.vfs.linkedTo inode with
    | error e => simp
    | ok target => simp [hlink, eq_comm]
  · rw [if_neg hlink]
    simp only [reduceCtorEq, false_iff]
    rintro ⟨hfollow, hkind, -⟩
    exact hlink ⟨hkind, hfollow⟩

/-- A walk that ends in another call went through directories to a link. -/
lemma leadsToLink_of_inodeWalk {p : Str} {current : I}
    (h : inodeWalk fs path followSymlink current names = .again p) :
    followSymlink = true ∧ ∃ target, LeadsToLink fs current names target ∧
      p = linkPath path target := by
  induction names generalizing current with
  | nil => cases h
  | cons name rest ih =>
    rw [inodeWalk] at h
    by_cases hdot : name = ['.']
    · rw [if_pos hdot] at h
      obtain ⟨hfollow, target, hlink, hp⟩ := ih h
      exact ⟨hfollow, target, hdot ▸ hlink.dot, hp⟩
    rw [if_neg hdot] at h
    by_cases hup : name = ['.', '.']
    · rw [if_pos hup] at h
      cases h
    rw [if_neg hup] at h
    by_cases hdir : fs.vfs.kind current = .directory
    · rw [if_neg (not_not.mpr hdir)] at h
      cases henter : enter fs current name with
      | error e =>
        rw [henter] at h
        cases h
      | ok x =>
        rw [henter] at h
        simp only at h
        by_cases hlast : rest.isEmpty = true
        · rw [if_pos hlast] at h
          obtain ⟨hfollow, hx, target, hlink, hp⟩ := lastInode_eq_again_iff.mp h
          have hnil : rest = [] := by simpa using hlast
          exact ⟨hfollow, target, hnil ▸ .last hdot hup hdir henter hx hlink, hp⟩
        · rw [if_neg hlast] at h
          cases hx : fs.vfs.kind x with
          | directory =>
            rw [hx] at h
            obtain ⟨hfollow, target, hlink, hp⟩ := ih h
            exact ⟨hfollow, target, .enter hdot hup hdir henter hx hlink, hp⟩
          | symlink | fileLike =>
            rw [hx] at h
            cases h
    · rw [if_pos hdir] at h
      cases h

lemma LeadsToLink.inodeWalk_eq {current : I} (h : LeadsToLink fs current names target)
    (path : Str) :
    inodeWalk fs path true current names = .again (linkPath path target) := by
  induction h with
  | dot _ ih => exact ih
  | @enter d x name rest target hdot hup hdir henter hx hrest ih =>
    have hlast : ¬ rest.isEmpty = true := by simpa using hrest.names_ne_nil
    rw [inodeWalk, if_neg hdot, if_neg hup, if_neg (not_not.mpr hdir), henter]
    simp only [if_neg hlast, hx]
    exact ih
  | last hdot hup hdir henter hx hlink =>
    rw [inodeWalk, if_neg hdot, if_neg hup, if_neg (not_not.mpr hdir), henter]
    simp [lastInode, hx, hlink]

/-- The path names a link that `lookup_inode` replaces by its target. -/
def NamesLink (fs : RootFs I Key) (path target : Str) : Prop :=
  path ≠ [] ∧ LeadsToLink fs (if isAbsolute path then fs.rootPath.inode else fs.cwdPath.inode)
    (components path) target

lemma inodeStep_eq_again_iff {p : Str} :
    inodeStep fs path followSymlink = .again p ↔
      followSymlink = true ∧ ∃ target, NamesLink fs path target ∧ p = linkPath path target := by
  unfold inodeStep NamesLink
  by_cases hempty : path = []
  · simp [hempty]
  · rw [if_neg (by simpa using hempty)]
    constructor
    · intro h
      obtain ⟨hfollow, target, hlink, hp⟩ := leadsToLink_of_inodeWalk h
      exact ⟨hfollow, target, ⟨hempty, hlink⟩, hp⟩
    · rintro ⟨rfl, target, ⟨-, hlink⟩, rfl⟩
      exact hlink.inodeWalk_eq path

/-! ## Resolution -/

/-- The names lead from a component to another one, with every link on the way replaced by
what its target leads to. -/
inductive Resolves (fs : RootFs I Key) (followSymlink : Bool) :
    PathComponent I → List Str → PathComponent I → Prop where
  | nil (d : PathComponent I) : Resolves fs followSymlink d [] d
  | dot {d pc : PathComponent I} {rest : List Str} (h : Resolves fs followSymlink d rest pc) :
      Resolves fs followSymlink d (['.'] :: rest) pc
  | enter {d x pc : PathComponent I} {name : Str} {rest : List Str}
      (hdot : name ≠ ['.']) (hstep : stepInto fs d name = .ok x)
      (hx : fs.vfs.kind x.inode = .directory ∨
        rest = [] ∧ ¬ (fs.vfs.kind x.inode = .symlink ∧ followSymlink = true))
      (h : Resolves fs followSymlink x rest pc) : Resolves fs followSymlink d (name :: rest) pc
  | link {d x y pc : PathComponent I} {name target : Str} {rest : List Str}
      (hdot : name ≠ ['.']) (hstep : stepInto fs d name = .ok x)
      (hx : fs.vfs.kind x.inode = .symlink)
      (hlink : fs.vfs.linkedTo x.inode = .ok target) (htarget : pathNew target ≠ [])
      (hy : Resolves fs followSymlink (followFrom fs d (pathNew target))
        (components (pathNew target)) y)
      (hdir : fs.vfs.kind y.inode = .directory ∨ rest = [])
      (h : Resolves fs followSymlink y rest pc) : Resolves fs followSymlink d (name :: rest) pc

/-- What a nested lookup returns is what its path leads to. -/
def FollowsPaths (fs : RootFs I Key) (followSymlink : Bool)
    (nested : PathComponent I → Str → Except Errno (PathComponent I)) : Prop :=
  ∀ lookupFrom path pc, nested lookupFrom path = .ok pc →
    path ≠ [] ∧ Resolves fs followSymlink lookupFrom (components path) pc

/-- The component a lookup starts from. -/
def lookupStart (fs : RootFs I Key) (path : Str) : PathComponent I :=
  if isAbsolute path then fs.rootPath else fs.cwdPath

omit [DecidableEq Key] in
lemma lookupStart_inode (fs : RootFs I Key) (path : Str) :
    (lookupStart fs path).inode =
      if isAbsolute path then fs.rootPath.inode else fs.cwdPath.inode :=
  apply_ite _ _ _ _

section Walk

variable {limit : ℕ} {nested : PathComponent I → Str → Except Errno (PathComponent I)}
  {d x y pc : PathComponent I} {name : Str} {rest : List Str}

/-- A name for a link leads on from what the link was followed to. -/
lemma resolves_of_followLink (hnested : FollowsPaths fs followSymlink nested)
    (hdot : name ≠ ['.']) (hstep : stepInto fs d name = .ok x)
    (hx : fs.vfs.kind x.inode = .symlink)
    (hfollow : followLink fs limit nested d x.inode = .ok y)
    (hdir : fs.vfs.kind y.inode = .directory ∨ rest = [])
    (h : Resolves fs followSymlink y rest pc) : Resolves fs followSymlink d (name :: rest) pc := by
  unfold followLink at hfollow
  split_ifs at hfollow
  obtain ⟨target, hlink, hy⟩ := bind_eq_ok.mp hfollow
  obtain ⟨htarget, hy⟩ := hnested _ _ _ hy
  exact .link hdot hstep hx hlink htarget hy hdir h

lemma resolves_of_walk (hnested : FollowsPaths fs followSymlink nested)
    (hwalk : walk fs followSymlink limit nested d names = .ok pc) :
    Resolves fs followSymlink d names pc := by
  induction names generalizing d with
  | nil =>
    cases hwalk
    exact .nil _
  | cons name rest ih =>
    rw [walk] at hwalk
    by_cases hdot : name = ['.']
    · rw [if_pos hdot] at hwalk
      exact hdot ▸ (ih hwalk).dot
    rw [if_neg hdot] at hwalk
    obtain ⟨x, hstep, hrest⟩ := bind_eq_ok.mp hwalk
    by_cases hlast : rest = []
    · subst hlast
      simp only [List.isEmpty_nil, if_true, lastComponent] at hrest
      by_cases hx : fs.vfs.kind x.inode = .symlink ∧ followSymlink = true
      · rw [if_pos hx] at hrest
        exact resolves_of_followLink hnested hdot hstep hx.1 hrest (.inr rfl) (.nil pc)
      · rw [if_neg hx] at hrest
        cases hrest
        exact .enter hdot hstep (.inr ⟨rfl, hx⟩) (.nil _)
    · rw [if_neg (by simpa using hlast)] at hrest
      obtain ⟨dir, hanc, hrest⟩ := bind_eq_ok.mp hrest
      unfold ancestor at hanc
      cases hx : fs.vfs.kind x.inode with
      | directory =>
        rw [hx] at hanc
        cases hanc
        exact .enter hdot hstep (.inl hx) (ih hrest)
      | fileLike =>
        rw [hx] at hanc
        cases hanc
      | symlink =>
        rw [hx] at hanc
        obtain ⟨y, hfollow, hy⟩ := bind_eq_ok.mp hanc
        cases hdir : fs.vfs.kind y.inode with
        | directory =>
          rw [hdir] at hy
          cases hy
          exact resolves_of_followLink hnested hdot hstep hx hfollow (.inl hdir) (ih hrest)
        | fileLike | symlink =>
          rw [hdir] at hy
          cases hy

lemma followsPaths_doLookupPath : FollowsPaths fs followSymlink
    (doLookupPath fs followSymlink limit) := by
  induction limit with
  | zero =>
    intro lookupFrom path pc hlookup
    rw [doLookupPath] at hlookup
    split_ifs at hlookup with hempty
    refine ⟨by simpa using hempty, resolves_of_walk ?_ hlookup⟩
    intro _ _ _ hnested
    cases hnested
  | succ limit ih =>
    intro lookupFrom path pc hlookup
    rw [doLookupPath] at hlookup
    split_ifs at hlookup with hempty
    exact ⟨by simpa using hempty, resolves_of_walk ih hlookup⟩

lemma resolves_of_lookupPath {inode : I}
    (h : (lookupPath fs path followSymlink).map (·.inode) = .ok inode) : ∃ pc, pc.inode = inode ∧
      Resolves fs followSymlink (lookupStart fs path) (components path) pc := by
  cases hlookup : lookupPath fs path followSymlink with
  | error e =>
    rw [hlookup] at h
    cases h
  | ok pc =>
    rw [hlookup] at h
    exact ⟨pc, Except.ok.inj h, (followsPaths_doLookupPath _ _ _ hlookup).2⟩

/-- The walk over inodes ends where the names lead, if it was on their way. -/
lemma resolves_of_inodeWalk {inode : I}
    (hway : ∀ pc, Resolves fs followSymlink d names pc →
      Resolves fs followSymlink (lookupStart fs path) (components path) pc)
    (hwalk : inodeWalk fs path followSymlink d.inode names = .done (.ok inode)) :
    ∃ pc, pc.inode = inode ∧
      Resolves fs followSymlink (lookupStart fs path) (components path) pc := by
  induction names generalizing d with
  | nil =>
    cases hwalk
    exact ⟨d, rfl, hway d (.nil d)⟩
  | cons name rest ih =>
    rw [inodeWalk] at hwalk
    by_cases hdot : name = ['.']
    · rw [if_pos hdot] at hwalk
      exact ih (fun pc h => hway pc (hdot ▸ h.dot)) hwalk
    rw [if_neg hdot] at hwalk
    by_cases hup : name = ['.', '.']
    · rw [if_pos hup] at hwalk
      exact resolves_of_lookupPath (InodeStep.done.inj hwalk)
    rw [if_neg hup] at hwalk
    by_cases hdir : fs.vfs.kind d.inode = .directory
    · rw [if_neg (not_not.mpr hdir)] at hwalk
      cases henter : enter fs d.inode name with
      | error e =>
        rw [henter] at hwalk
        cases hwalk
      | ok x =>
        have hstep : stepInto fs d name = .ok (.child d name x) := by
          rw [stepInto, if_neg hup, hdir, henter]
          rfl
        rw [henter] at hwalk
        simp only at hwalk
        by_cases hlast : rest.isEmpty = true
        · rw [if_pos hlast, lastInode] at hwalk
          split_ifs at hwalk with hx
          · cases hlink : fs.vfs.linkedTo x with
            | error e | ok target =>
              rw [hlink] at hwalk
              cases hwalk
          · cases hwalk
            have hnil : rest = [] := by simpa using hlast
            exact ⟨.child d name inode, rfl,
              hway _ (.enter hdot hstep (.inr ⟨hnil, hx⟩) (hnil ▸ .nil _))⟩
        · rw [if_neg hlast] at hwalk
          cases hx : fs.vfs.kind x with
          | directory =>
            rw [hx] at hwalk
            exact ih (d := .child d name x)
              (fun pc h => hway pc (.enter hdot hstep (.inl hx) h)) hwalk
          | symlink =>
            rw [hx] at hwalk
            exact resolves_of_lookupPath (InodeStep.done.inj hwalk)
          | fileLike =>
            rw [hx] at hwalk
            cases hwalk
    · rw [if_pos hdir] at hwalk
      cases hwalk

end Walk

/-- The path leads to the inode, or names a link and the path of its target does. -/
inductive LeadsTo (fs : RootFs I Key) (followSymlink : Bool) : Str → I → Prop where
  | path {path : Str} {pc : PathComponent I} (hpath : path ≠ [])
      (h : Resolves fs followSymlink (lookupStart fs path) (components path) pc) :
      LeadsTo fs followSymlink path pc.inode
  | link {path target : Str} {inode : I} (hlink : NamesLink fs path target)
      (h : LeadsTo fs followSymlink (linkPath path target) inode) :
      LeadsTo fs followSymlink path inode

lemma leadsTo_of_lookupInode {depth : ℕ} {inode : I}
    (h : lookupInode fs followSymlink depth path = some (.ok inode)) :
    LeadsTo fs followSymlink path inode := by
  induction depth generalizing path with
  | zero => cases h
  | succ depth ih =>
    rw [lookupInode] at h
    cases hstep : inodeStep fs path followSymlink with
    | again p =>
      rw [hstep] at h
      obtain ⟨-, target, hlink, rfl⟩ := inodeStep_eq_again_iff.mp hstep
      exact .link hlink (ih h)
    | done result =>
      rw [hstep] at h
      cases h
      unfold inodeStep at hstep
      by_cases hempty : path.isEmpty = true
      · rw [if_pos hempty] at hstep
        cases hstep
      · rw [if_neg hempty, ← lookupStart_inode] at hstep
        obtain ⟨pc, rfl, hpc⟩ := resolves_of_inodeWalk (fun _ h => h) hstep
        exact .path (by simpa using hempty) hpc

end Kevlar.Lookup
