import Kevlar.Regraft

/-!
# The windows of the X server

The server keeps its windows in one map; the tree is in the parent field and the list of
children of each window. `DestroyWindow` walks the lists down and `abs_origin` the parent
fields up, both without a bound. `ReparentWindow` checks that the two windows exist and that
the parent is a new one, and nothing else.
-/
namespace Kevlar.XServer
open List

open Relation (ReflTransGen TransGen)
open Regraft (Ranked)

structure Window where
  parent : ℕ
  children : List ℕ
  x : BitVec 16
  y : BitVec 16
  deriving DecidableEq

/-- What an id refers to. -/
inductive Resource
  | window (w : Window)
  | other

structure Server where
  resources : ℕ → Option Resource

def rootWindowId : ℕ := 0x20

def Resource.mapWindow (f : Window → Window) : Resource → Resource
  | window w => window (f w)
  | other => other

namespace Server

def window (s : Server) (id : ℕ) : Option Window :=
  match s.resources id with
  | some (.window w) => some w
  | _ => none

/-- A change through `window_mut`. -/
def modify (s : Server) (id : ℕ) (f : Window → Window) : Server :=
  ⟨fun j => if j = id then (s.resources j).map (Resource.mapWindow f) else s.resources j⟩

def insert (s : Server) (id : ℕ) (w : Window) : Server :=
  ⟨fun j => if j = id then some (.window w) else s.resources j⟩

def remove (s : Server) (id : ℕ) : Server :=
  ⟨fun j => if j = id then none else s.resources j⟩

end Server

namespace Window

def pushChild (id : ℕ) (w : Window) : Window := { w with children := w.children ++ [id] }

def dropChild (id : ℕ) (w : Window) : Window :=
  { w with children := w.children.filter (· ≠ id) }

def moveTo (parent : ℕ) (x y : BitVec 16) (w : Window) : Window := { w with parent, x, y }

/-- Raise the lowest child (0) or lower the highest one (1). -/
def rotate (direction : ℕ) (w : Window) : Window :=
  if 2 ≤ w.children.length then
    match direction with
    | 0 => { w with children := w.children.getLast?.toList ++ w.children.dropLast }
    | 1 => { w with children := w.children.tail ++ w.children.head?.toList }
    | _ => w
  else w

end Window

namespace Server

def createWindow (s : Server) (client wid parent : ℕ) (x y : BitVec 16) : Server :=
  if wid / 2 ^ 21 ≠ client then s
  else if (s.resources wid).isSome then s
  else if (s.window parent).isNone then s
  else (s.modify parent (Window.pushChild wid)).insert wid ⟨parent, [], x, y⟩

def reparentWindow (s : Server) (wid newParent : ℕ) (x y : BitVec 16) : Server :=
  match s.window wid with
  | none => s
  | some w =>
    if (s.window newParent).isNone then s
    else if w.parent = newParent then s
    else
      let s := if w.parent ≠ 0 then s.modify w.parent (Window.dropChild wid) else s
      let s := s.modify wid (Window.moveTo newParent x y)
      s.modify newParent (Window.pushChild wid)

def circulateWindow (s : Server) (direction wid : ℕ) : Server :=
  match s.window wid with
  | none => s
  | some w => s.modify w.parent (Window.rotate direction)

/-- `none` stands for a recursion that is deeper than the fuel, and for the panic on a child
that is no window. -/
def destroyWindowTree : ℕ → Server → ℕ → Option Server
  | 0, _, _ => none
  | fuel + 1, s, wid => do
    let children := ((s.window wid).map Window.children).getD []
    let s ← children.foldlM (destroyWindowTree fuel) s
    let w ← s.window wid
    let s := if w.parent ≠ 0 then s.modify w.parent (Window.dropChild wid) else s
    some (s.remove wid)

def destroyWindow (fuel : ℕ) (s : Server) (wid : ℕ) : Option Server :=
  if wid = rootWindowId then some s
  else if (s.window wid).isNone then some s
  else destroyWindowTree fuel s wid

def destroySubwindows (fuel : ℕ) (s : Server) (wid : ℕ) : Option Server :=
  match s.window wid with
  | none => some s
  | some w => w.children.foldlM (destroyWindowTree fuel) s

/-- The walk from a window up the parent fields, with the sums so far. -/
def absOrigin : ℕ → Server → ℕ → BitVec 32 → BitVec 32 → Option (BitVec 32 × BitVec 32)
  | 0, _, _, _, _ => none
  | fuel + 1, s, cur, x, y =>
    match s.window cur with
    | none => some (x, y)
    | some w =>
      let x := x + w.x.signExtend 32
      let y := y + w.y.signExtend 32
      if w.parent = 0 then some (x, y) else absOrigin fuel s w.parent x y

end Server

inductive Request
  | createWindow (client wid parent : ℕ) (x y : BitVec 16)
  | reparentWindow (wid newParent : ℕ) (x y : BitVec 16)
  | destroyWindow (wid : ℕ)
  | destroySubwindows (wid : ℕ)
  | circulateWindow (direction wid : ℕ)

def Server.serve (fuel : ℕ) (s : Server) : Request → Option Server
  | .createWindow client wid parent x y => some (s.createWindow client wid parent x y)
  | .reparentWindow wid newParent x y => some (s.reparentWindow wid newParent x y)
  | .destroyWindow wid => s.destroyWindow fuel wid
  | .destroySubwindows wid => s.destroySubwindows fuel wid
  | .circulateWindow direction wid => some (s.circulateWindow direction wid)

namespace Server

@[simp] lemma window_modify (s : Server) (id : ℕ) (f : Window → Window) (j : ℕ) :
    (s.modify id f).window j = if j = id then (s.window j).map f else s.window j := by
  by_cases h : j = id
  · simp only [window, modify, h, if_true]
    match s.resources id with
    | none | some (.window w) | some .other => rfl
  · simp [window, modify, h]

@[simp] lemma window_insert (s : Server) (id : ℕ) (w : Window) (j : ℕ) :
    (s.insert id w).window j = if j = id then some w else s.window j := by
  by_cases h : j = id <;> simp [window, insert, h]

/-- The window `c` is listed by the window `p`. -/
def Child (s : Server) (p c : ℕ) : Prop := ∃ w, s.window p = some w ∧ c ∈ w.children

/-- The window `c` names `p` as its parent. -/
def Parent (s : Server) (c p : ℕ) : Prop := ∃ w, s.window c = some w ∧ w.parent = p

/-- The window `c` is `p` or below it. -/
abbrev Reach (s : Server) : ℕ → ℕ → Prop := ReflTransGen s.Child

/-- The windows form a tree: the root window has no parent, every other window is in the list
of the window that it names, once, and in no other list, and is below the root. -/
structure IsTree (s : Server) : Prop where
  zero : s.window 0 = none
  root : s.Parent rootWindowId 0
  child_iff : ∀ p c, s.Child p c ↔ c ≠ rootWindowId ∧ s.Parent c p
  nodup : ∀ p w, s.window p = some w → w.children.Nodup
  reach : ∀ c p, s.Parent c p → s.Reach rootWindowId c
  ranked : ∃ f, Ranked s.Child f

variable {c p wid : ℕ} {w : Window} {out : Set ℕ}

lemma parent_of_window {s : Server} (h : s.window c = some w) :
    s.Parent c w.parent := ⟨w, h, rfl⟩

lemma Parent.unique {s : Server} {p' : ℕ} (h : s.Parent c p) (h' : s.Parent c p') :
    p = p' := by
  obtain ⟨w, hw, rfl⟩ := h
  obtain ⟨w', hw', rfl⟩ := h'
  rw [hw, Option.some.injEq] at hw'
  rw [hw']

lemma IsTree.ne_zero {s : Server} (h : s.IsTree) (hc : s.Parent c p) : c ≠ 0 := by
  obtain ⟨w, hw, _⟩ := hc
  rintro rfl
  simp [h.zero] at hw

lemma window_eq_none_iff {s : Server} : s.window c = none ↔ ∀ p, ¬ s.Parent c p := by
  constructor
  · intro hc p ⟨w, hw, _⟩
    simp [hc] at hw
  · intro hc
    by_contra hsome
    obtain ⟨w, hw⟩ := Option.ne_none_iff_exists'.mp hsome
    exact hc _ (parent_of_window hw)

/-- Hanging a window below one that is not below it, out of the list it was in before, if it
was in one. -/
lemma IsTree.graft {s s' : Server} (h : s.IsTree) {q : ℕ} (hroot : q ≠ rootWindowId)
    (hzero : q ≠ 0) (hp : s.Reach rootWindowId p) (hbelow : ¬ s.Reach q p)
    (hchild : ∀ a c, s'.Child a c ↔ s.Child a c ∧ c ≠ q ∨ a = p ∧ c = q)
    (hparent : ∀ c a, s'.Parent c a ↔ s.Parent c a ∧ c ≠ q ∨ a = p ∧ c = q)
    (hnodup : ∀ a w, s'.window a = some w → w.children.Nodup) : s'.IsTree := by
  have hreach : ∀ c, s.Reach rootWindowId c → s'.Reach rootWindowId c := fun c hc =>
    Regraft.reach_of_regraft (fun _ => False)
      (fun a b hab hb _ => (hchild a b).mpr (.inl ⟨hab, hb⟩))
      ((hchild p q).mpr (.inr ⟨rfl, rfl⟩)) (fun _ _ hout => hout.elim) id hp hbelow hc id
  constructor
  · rw [window_eq_none_iff]
    intro a ha
    rcases (hparent 0 a).mp ha with ⟨hold, _⟩ | ⟨_, hq⟩
    · exact h.ne_zero hold rfl
    · exact hzero hq.symm
  · exact (hparent _ _).mpr (.inl ⟨h.root, hroot.symm⟩)
  · intro a c
    rw [hchild, hparent, h.child_iff]
    by_cases hc : c = q
    · simp [hc, hroot]
    · simp [hc]
  · exact hnodup
  · intro c a hc
    rcases (hparent c a).mp hc with ⟨hold, _⟩ | ⟨_, rfl⟩
    · exact hreach c (h.reach c a hold)
    · exact (hreach p hp).tail ((hchild p c).mpr (.inr ⟨rfl, rfl⟩))
  · obtain ⟨f, hf⟩ := h.ranked
    refine hf.regraft (fun a c hac => ?_) hbelow
    rcases (hchild a c).mp hac with ⟨hold, _⟩ | hnew
    · exact .inl hold
    · exact .inr hnew

/-- A window that is not listed may be added to a list. -/
lemma IsTree.nodup_pushChild {s : Server} (h : s.IsTree) (hw : s.window p = some w)
    (hc : ¬ s.Child p c) : (w.pushChild c).children.Nodup := by
  have hmem : c ∉ w.children := fun hm => hc ⟨w, hw, hm⟩
  exact (h.nodup p w hw).append (nodup_singleton c) (by simpa using hmem)

lemma IsTree.createWindow {s : Server} (h : s.IsTree) {client parent : ℕ} (x y : BitVec 16)
    (hclient : 1 ≤ client) : (s.createWindow client wid parent x y).IsTree := by
  unfold Server.createWindow
  split
  · exact h
  split
  · exact h
  split
  · exact h
  next hrange hfree hsome =>
  have hnone : s.window wid = none := by
    simp only [Option.not_isSome_iff_eq_none] at hfree
    simp [window, hfree]
  obtain ⟨v, hv⟩ : ∃ v, s.window parent = some v := by
    simpa [Option.isNone_iff_eq_none, ← ne_eq, Option.ne_none_iff_exists'] using hsome
  have hne : parent ≠ wid := by
    rintro rfl
    simp [hnone] at hv
  -- the ids of clients are above those of the root window and of no window
  have hunlisted : ∀ a, ¬ s.Child a wid := by
    intro a ha
    obtain ⟨_, u, hu, _⟩ := (h.child_iff a wid).mp ha
    simp [hnone] at hu
  have hreach := h.reach parent _ (parent_of_window hv)
  refine h.graft (q := wid) (by simp [rootWindowId]; omega) (by omega) hreach
    ?_ ?_ ?_ ?_
  · intro hbelow
    rcases ReflTransGen.cases_head hbelow with heq | ⟨c, ⟨w, hw, _⟩, _⟩
    · exact hne heq.symm
    · simp [hnone] at hw
  · intro a c
    have hkeep : s.Child a c ∧ c ≠ wid ↔ s.Child a c := by
      simp only [and_iff_left_iff_imp]
      rintro hac rfl
      exact hunlisted a hac
    rw [hkeep]
    by_cases ha : a = wid
    · simp [Child, ha, hnone, hne.symm]
    · by_cases ha' : a = parent <;> simp [Child, ha, ha', hne, hv, Window.pushChild]
  · intro c a
    by_cases hc : c = wid
    · simp [Parent, hc, hnone, eq_comm]
    · by_cases hc' : c = parent <;> simp [Parent, hc, hc', hne, hv, Window.pushChild]
  · intro a w hw
    by_cases ha : a = wid
    · simp only [window_insert, ha, if_true, Option.some.injEq] at hw
      simp [← hw]
    · by_cases ha' : a = parent
      · simp only [window_insert, ha', hne, window_modify, if_true, if_false, hv,
          Option.map_some, Option.some.injEq] at hw
        exact hw ▸ h.nodup_pushChild hv (hunlisted parent)
      · simp only [window_insert, ha, window_modify, ha', if_false] at hw
        exact h.nodup a w hw

/-- What a request that moves `wid` from its parent to `newParent` does to the windows; `w`,
`v` and `u` are the window, its new and its old parent before. -/
structure Reparented (s s' : Server) (wid newParent : ℕ) (x y : BitVec 16) (w v u : Window) :
    Prop where
  moved_eq : s.window wid = some w
  target_eq : s.window newParent = some v
  source_eq : s.window w.parent = some u
  target_ne : newParent ≠ wid
  source_ne : w.parent ≠ wid
  changes : w.parent ≠ newParent
  listed : ∀ a, s.Child a wid ↔ a = w.parent
  window : ∀ j, s'.window j = if j = newParent then some (v.pushChild wid)
    else if j = wid then some (w.moveTo newParent x y)
    else if j = w.parent then some (u.dropChild wid) else s.window j

namespace Reparented

variable {s s' : Server} {wid newParent : ℕ} {x y : BitVec 16} {w v u : Window}
  (hr : Reparented s s' wid newParent x y w v u)

include hr

lemma child_iff (a c : ℕ) :
    s'.Child a c ↔ s.Child a c ∧ c ≠ wid ∨ a = newParent ∧ c = wid := by
  have hchild : s'.Child a c ↔ ∃ w', s'.window a = some w' ∧ c ∈ w'.children := .rfl
  rw [hchild, hr.window]
  have hnot : a ≠ w.parent → s.Child a c → c ≠ wid := by
    rintro ha hac rfl
    exact ha ((hr.listed a).mp hac)
  by_cases ha : a = newParent
  · have hc : s.Child a c ↔ c ∈ v.children := by simp [Child, ha, hr.target_eq]
    have hnc := hnot (ha ▸ hr.changes.symm)
    simp only [ha, if_true, Option.some.injEq, exists_eq_left', Window.pushChild,
      mem_append, mem_singleton, true_and] at hc hnc ⊢
    rw [hc] at hnc ⊢
    exact ⟨Or.imp_left fun hm => ⟨hm, hnc hm⟩, Or.imp_left And.left⟩
  · simp only [ha, if_false, false_and, or_false]
    by_cases ha' : a = wid
    · have hc : s.Child a c ↔ c ∈ w.children := by simp [Child, ha', hr.moved_eq]
      have hnc := hnot (ha' ▸ hr.source_ne.symm)
      simp only [ha', if_true, Option.some.injEq, exists_eq_left', Window.moveTo] at hc hnc ⊢
      rw [hc] at hnc ⊢
      exact ⟨fun hm => ⟨hm, hnc hm⟩, And.left⟩
    · by_cases ha'' : a = w.parent
      · simp [ha'', hr.source_ne, Child, hr.source_eq, Window.dropChild]
      · simp only [ha', ha'', if_false]
        exact ⟨fun hac => ⟨hac, hnot ha'' hac⟩, And.left⟩

lemma parent_iff (c a : ℕ) :
    s'.Parent c a ↔ s.Parent c a ∧ c ≠ wid ∨ a = newParent ∧ c = wid := by
  have hparent : s'.Parent c a ↔ ∃ w', s'.window c = some w' ∧ w'.parent = a := .rfl
  rw [hparent, hr.window]
  by_cases hc : c = newParent
  · simp [hc, hr.target_ne, Parent, hr.target_eq, Window.pushChild]
  · by_cases hc' : c = wid
    · simp [hc', hr.target_ne.symm, Window.moveTo, eq_comm]
    · by_cases hc'' : c = w.parent
      · simp [hc'', hr.changes, hr.source_ne, Parent, hr.source_eq, Window.dropChild]
      · simp [hc, hc', hc'', Parent]

lemma nodup (h : s.IsTree) (a : ℕ) (w' : Window) (hw' : s'.window a = some w') :
    w'.children.Nodup := by
  rw [hr.window] at hw'
  split at hw'
  · rw [← Option.some.inj hw']
    exact h.nodup_pushChild hr.target_eq fun hlist => hr.changes ((hr.listed _).mp hlist).symm
  split at hw'
  · rw [← Option.some.inj hw']
    exact h.nodup wid w hr.moved_eq
  split at hw'
  · rw [← Option.some.inj hw']
    exact (h.nodup _ u hr.source_eq).filter _
  · exact h.nodup a w' hw'

end Reparented

lemma IsTree.reparentWindow {s : Server} (h : s.IsTree) {newParent : ℕ} (x y : BitVec 16)
    (hsafe : ∀ w v, s.window wid = some w → s.window newParent = some v →
      w.parent ≠ newParent → wid ≠ rootWindowId ∧ ¬ s.Reach wid newParent) :
    (s.reparentWindow wid newParent x y).IsTree := by
  unfold Server.reparentWindow
  split
  · exact h
  next w hw =>
  split
  · exact h
  next hsome =>
  split
  · exact h
  next hold =>
  obtain ⟨v, hv⟩ : ∃ v, s.window newParent = some v := by
    simpa [Option.isNone_iff_eq_none, ← ne_eq, Option.ne_none_iff_exists'] using hsome
  obtain ⟨hroot, hbelow⟩ := hsafe w v hw hv hold
  have hwid := parent_of_window hw
  have hne : newParent ≠ wid := by
    rintro rfl
    exact hbelow .refl
  have hlisted : ∀ a, s.Child a wid ↔ a = w.parent := by
    intro a
    rw [h.child_iff]
    exact ⟨fun ha => ha.2.unique hwid, fun ha => ha ▸ ⟨hroot, hwid⟩⟩
  obtain ⟨u, hu, _⟩ := (hlisted w.parent).mpr rfl
  have hpos : w.parent ≠ 0 := by
    intro hzero
    simp [hzero, h.zero] at hu
  have hself : w.parent ≠ wid := by
    intro hloop
    obtain ⟨f, hf⟩ := h.ranked
    exact lt_irrefl _ (hf _ _ (hloop ▸ (hlisted w.parent).mpr rfl))
  simp only [hpos, ne_eq, not_false_eq_true, if_true]
  have hr : Reparented s (((s.modify w.parent (Window.dropChild wid)).modify wid
      (Window.moveTo newParent x y)).modify newParent (Window.pushChild wid)) wid newParent x y
      w v u := by
    refine ⟨hw, hv, hu, hne, hself, hold, hlisted, fun j => ?_⟩
    by_cases hj : j = newParent
    · simp [hj, hne, Ne.symm hold, hv]
    · by_cases hj' : j = wid
      · simp [hj', hne.symm, hself.symm, hw]
      · by_cases hj'' : j = w.parent <;> simp [hj, hj', hj'', hself, hold, hu]
  exact h.graft hroot (h.ne_zero hwid) (h.reach newParent _ (parent_of_window hv)) hbelow
    hr.child_iff hr.parent_iff (hr.nodup h)

/-- The order of the children does not matter. -/
lemma IsTree.circulateWindow {s : Server} (h : s.IsTree) (direction wid : ℕ) :
    (s.circulateWindow direction wid).IsTree := by
  unfold Server.circulateWindow
  split
  · exact h
  next v _ =>
  have hperm : ∀ w : Window, (w.rotate direction).children.Perm w.children ∧
      (w.rotate direction).parent = w.parent := by
    intro w
    unfold Window.rotate
    split
    · next hlen =>
      have hne : w.children ≠ [] := by
        rintro hnil
        simp [hnil] at hlen
      split
      · refine ⟨?_, rfl⟩
        have hlast := dropLast_append_getLast hne
        conv_rhs => rw [← hlast]
        rw [getLast?_eq_some_getLast hne]
        exact perm_append_comm
      · refine ⟨?_, rfl⟩
        obtain ⟨c, cs, hcs⟩ := exists_cons_of_ne_nil hne
        simp [hcs]
      · exact ⟨.rfl, rfl⟩
    · exact ⟨.rfl, rfl⟩
  have hchild : (s.modify v.parent (Window.rotate direction)).Child = s.Child := by
    ext p c
    by_cases hp : p = v.parent <;> simp [Child, hp, (hperm _).1.mem_iff]
  have hparent : (s.modify v.parent (Window.rotate direction)).Parent = s.Parent := by
    ext c p
    by_cases hc : c = v.parent <;> simp [Parent, hc, (hperm _).2]
  constructor
  · rw [window_eq_none_iff, hparent, ← window_eq_none_iff]
    exact h.zero
  · rw [hparent]
    exact h.root
  · rw [hchild, hparent]
    exact h.child_iff
  · intro p w hw
    rw [window_modify] at hw
    split at hw
    · obtain ⟨w', hw', rfl⟩ := Option.map_eq_some_iff.mp hw
      exact (hperm w').1.nodup_iff.mpr (h.nodup p w' hw')
    · exact h.nodup p w hw
  · rw [Reach, hchild, hparent]
    exact h.reach
  · rw [hchild]
    exact h.ranked

open Classical in
/-- The server without the windows of a set. -/
noncomputable def prune (s : Server) (out : Set ℕ) : Server :=
  ⟨fun j => if j ∈ out then none else (s.resources j).map (Resource.mapWindow fun w =>
    { w with children := w.children.filter (· ∉ out) })⟩

section Prune

variable {s : Server} {out : Set ℕ}

open Classical in
lemma window_prune (j : ℕ) :
    (s.prune out).window j = if j ∈ out then none else
      (s.window j).map fun w => { w with children := w.children.filter (· ∉ out) } := by
  by_cases h : j ∈ out
  · simp [window, prune, h]
  · simp only [window, prune, h, if_false]
    match s.resources j with
    | none | some (.window w) | some .other => rfl

lemma prune_empty (s : Server) : s.prune ∅ = s := by
  cases s with
  | mk resources =>
    simp only [prune, Set.mem_empty_iff_false, if_false, not_false_eq_true, decide_true,
      filter_true, Server.mk.injEq]
    funext j
    match hj : resources j with
    | none | some (.window w) | some .other => rfl

lemma prune_prune (s : Server) (out out' : Set ℕ) :
    (s.prune out).prune out' = s.prune (out ∪ out') := by
  simp only [prune, Server.mk.injEq]
  funext j
  by_cases h' : j ∈ out'
  · simp [h']
  by_cases h : j ∈ out
  · simp [h]
  · match s.resources j with
    | none => simp [h, h']
    | some .other => simp [h, h', Resource.mapWindow]
    | some (.window w) =>
      simp only [h, h', Set.mem_union, or_self, if_false, Option.map_some, Resource.mapWindow,
        filter_filter]
      congr 4
      funext c
      by_cases hc : c ∈ out <;> by_cases hc' : c ∈ out' <;> simp [hc, hc']

variable {a c : ℕ}

lemma prune_child_iff :
    (s.prune out).Child a c ↔ s.Child a c ∧ a ∉ out ∧ c ∉ out := by
  simp only [Child, window_prune]
  by_cases h : a ∈ out
  · simp [h]
  · simp [h, ← exists_and_right, and_assoc]

lemma prune_parent_iff : (s.prune out).Parent c a ↔ s.Parent c a ∧ c ∉ out := by
  simp only [Parent, window_prune]
  by_cases h : c ∈ out <;> simp [h]

/-- The set holds what is below its windows. -/
def Closed (s : Server) (out : Set ℕ) : Prop := ∀ a c, a ∈ out → s.Child a c → c ∈ out

lemma IsTree.prune (h : s.IsTree) (hclosed : s.Closed out) (hroot : rootWindowId ∉ out) :
    (s.prune out).IsTree := by
  constructor
  · rw [window_eq_none_iff]
    intro p hp
    exact h.ne_zero (prune_parent_iff.mp hp).1 rfl
  · exact prune_parent_iff.mpr ⟨h.root, hroot⟩
  · intro p c
    rw [prune_child_iff, prune_parent_iff, h.child_iff]
    constructor
    · exact fun ⟨⟨hc, hp⟩, _, hout⟩ => ⟨hc, hp, hout⟩
    · intro ⟨hc, hp, hout⟩
      exact ⟨⟨hc, hp⟩, fun hpout => hout (hclosed p c hpout ((h.child_iff p c).mpr ⟨hc, hp⟩)), hout⟩
  · intro p w hw
    rw [window_prune] at hw
    split at hw
    · simp at hw
    · obtain ⟨w', hw', rfl⟩ := Option.map_eq_some_iff.mp hw
      exact (h.nodup p w' hw').filter _
  · intro c p hc
    obtain ⟨hparent, hout⟩ := prune_parent_iff.mp hc
    -- all that is above a window that stays, stays
    have hpath := h.reach c p hparent
    clear hparent hc
    induction hpath with
    | refl => exact .refl
    | tail _ hedge ih =>
      have hup := fun hin => hout (hclosed _ _ hin hedge)
      exact (ih hup).tail (prune_child_iff.mpr ⟨hedge, hup, hout⟩)
  · obtain ⟨f, hf⟩ := h.ranked
    exact ⟨f, fun a c hac => hf a c (prune_child_iff.mp hac).1⟩

/-- Taking a window out of the list of its parent and out of the map. -/
lemma IsTree.unlink_eq_prune (h : s.IsTree) {wid p : ℕ} (hp : s.Parent wid p) :
    (s.modify p (Window.dropChild wid)).remove wid = s.prune {wid} := by
  have hdrop : (fun w : Window => { w with children := w.children.filter (· ∉ ({wid} : Set ℕ)) }) =
      Window.dropChild wid := by
    funext w
    simp only [Window.dropChild, Window.mk.injEq, true_and, and_true]
    exact filter_congr fun c _ => by simp
  simp only [remove, modify, Server.prune, Server.mk.injEq]
  funext j
  by_cases hj : j = wid
  · simp [hj]
  · have hmap : (s.resources j).map (Resource.mapWindow (Window.dropChild wid)) =
        if j = p then (s.resources j).map (Resource.mapWindow (Window.dropChild wid))
        else s.resources j := by
      by_cases hjp : j = p
      · simp [hjp]
      · -- a window that is not the parent does not list it
        rw [if_neg hjp]
        match hres : s.resources j with
        | none | some .other => rfl
        | some (.window w) =>
          have hnot : wid ∉ w.children := by
            intro hmem
            have hw : s.window j = some w := by simp [window, hres]
            exact hjp (((h.child_iff j wid).mp ⟨w, hw, hmem⟩).2.unique hp)
          have hfilter : w.dropChild wid = w := by
            simp only [Window.dropChild]
            rw [filter_eq_self.mpr]
            intro c hc
            have hcw : c ≠ wid := fun hcw => hnot (hcw ▸ hc)
            simpa using hcw
          simp [Resource.mapWindow, hfilter]
    rw [← hmap, ← hdrop]
    simp only [Set.mem_singleton_iff]

end Prune

/-- A window and everything below it. -/
def below (s : Server) (wid : ℕ) : Set ℕ := {c | s.Reach wid c}

lemma below_closed (s : Server) (wid : ℕ) : s.Closed (s.below wid) :=
  fun _ _ ha hac => ReflTransGen.tail ha hac

lemma Closed.union {s : Server} {out' : Set ℕ} (h : s.Closed out) (h' : s.Closed out') :
    s.Closed (out ∪ out') := by
  intro a c ha hac
  rcases ha with ha | ha
  · exact .inl (h a c ha hac)
  · exact .inr (h' a c ha hac)

/-- Everything below some windows, and the windows. -/
def belowAll (s : Server) (cs : List ℕ) : Set ℕ := {x | ∃ c ∈ cs, s.Reach c x}

lemma belowAll_closed (s : Server) (cs : List ℕ) : s.Closed (s.belowAll cs) := by
  rintro a b ⟨c, hc, hca⟩ hab
  exact ⟨c, hc, hca.tail hab⟩

/-- What is below a window, seen after other windows have gone. -/
lemma union_below_prune {s : Server} (hclosed : s.Closed out) (c : ℕ) :
    out ∪ (s.prune out).below c = out ∪ s.below c := by
  ext x
  constructor
  · rintro (hx | hx)
    · exact .inl hx
    · exact .inr (ReflTransGen.mono (fun a b hab => (prune_child_iff.mp hab).1) _ _ hx)
  · rintro (hx | hx)
    · exact .inl hx
    · have hpath : s.Reach c x := hx
      clear hx
      induction hpath with
      | refl => exact .inr .refl
      | @tail a x _ hedge ih =>
        by_cases hx : x ∈ out
        · exact .inl hx
        · have ha : a ∉ out := fun ha => hx (hclosed a x ha hedge)
          have hpath : (s.prune out).Reach c a := ih.resolve_left ha
          exact .inr (hpath.tail (prune_child_iff.mpr ⟨hedge, ha, hx⟩))

section Destroy

variable {s : Server} {f : ℕ → ℕ}

variable {p c fuel : ℕ} {w : Window}

lemma IsTree.root_notMem_below (h : s.IsTree) (hc : s.Child p c) :
    rootWindowId ∉ s.below c := by
  intro hroot
  rcases ReflTransGen.cases_tail hroot with heq | ⟨a, _, ha⟩
  · exact ((h.child_iff p c).mp hc).1 heq.symm
  · exact ((h.child_iff a _).mp ha).1 rfl

lemma parent_notMem_below (hf : Ranked s.Child f) (hc : s.Child p c) :
    p ∉ s.below c := by
  intro hp
  exact hf.acyclic p (TransGen.head' hc hp)

/-- Two children of one window have nothing below them in common. -/
lemma IsTree.sibling_notMem_below (h : s.IsTree) (hf : Ranked s.Child f) {c' : ℕ}
    (hc : s.Child p c) (hc' : s.Child p c') (hne : c ≠ c') : c' ∉ s.below c := by
  intro hreach
  rcases ReflTransGen.cases_tail hreach with heq | ⟨a, ha, hac⟩
  · exact hne heq.symm
  · have hap : a = p := ((h.child_iff a c').mp hac).2.unique ((h.child_iff p c').mp hc').2
    exact parent_notMem_below hf hc (hap ▸ ha)

/-- The recursion takes out what is below each of the children, one after the other. -/
lemma foldlM_destroyWindowTree
    (ih : ∀ s c, s.IsTree → Ranked s.Child f → s.Child p c → f c < fuel →
      destroyWindowTree fuel s c = some (s.prune (s.below c))) (h : s.IsTree)
    (hf : Ranked s.Child f) (cs : List ℕ) (hcs : cs.Nodup) (out : Set ℕ) (hclosed : s.Closed out)
    (hroot : rootWindowId ∉ out) (hp : p ∉ out)
    (hchild : ∀ c ∈ cs, s.Child p c ∧ c ∉ out ∧ f c < fuel) :
    cs.foldlM (destroyWindowTree fuel) (s.prune out) =
      some (s.prune (out ∪ s.belowAll cs)) := by
  induction cs generalizing out with
  | nil => simp [belowAll]
  | cons c cs ihcs =>
    obtain ⟨hc, hcout, hfuel⟩ := hchild c (by simp)
    have hstep := ih (s.prune out) c (h.prune hclosed hroot) (fun a b hab => hf a b
      (prune_child_iff.mp hab).1) (prune_child_iff.mpr ⟨hc, hp, hcout⟩) hfuel
    rw [prune_prune, union_below_prune hclosed c] at hstep
    rw [foldlM_cons, hstep, Option.bind_eq_bind, Option.bind_some]
    rw [ihcs hcs.of_cons _ (hclosed.union (s.below_closed c))
      (by simp [hroot, h.root_notMem_below hc]) (by simp [hp, parent_notMem_below hf hc])]
    · congr 2
      ext x
      simp [below, belowAll, or_assoc]
    · intro c' hc'
      obtain ⟨hchild', hout', hfuel'⟩ := hchild c' (by simp [hc'])
      have hne : c ≠ c' := fun heq => (nodup_cons.mp hcs).1 (heq ▸ hc')
      exact ⟨hchild', by simp [hout', h.sibling_notMem_below hf hc hchild' hne], hfuel'⟩

/-- The loop over all children of a window. -/
lemma IsTree.foldlM_children (h : s.IsTree) (hf : Ranked s.Child f) (hw : s.window p = some w)
    (hfuel : f p ≤ fuel) (ih : ∀ s c, s.IsTree → Ranked s.Child f → s.Child p c → f c < fuel →
      destroyWindowTree fuel s c = some (s.prune (s.below c))) :
    w.children.foldlM (destroyWindowTree fuel) s = some (s.prune (s.belowAll w.children)) ∧
      (s.prune (s.belowAll w.children)).IsTree := by
  have hloop := foldlM_destroyWindowTree ih h hf w.children (h.nodup p w hw) ∅
    (fun _ _ ha => ha.elim) (by simp) (by simp) (fun c hc => ?_)
  · rw [prune_empty, Set.empty_union] at hloop
    refine ⟨hloop, h.prune (s.belowAll_closed _) ?_⟩
    rintro ⟨c, hc, hroot⟩
    exact h.root_notMem_below ⟨w, hw, hc⟩ hroot
  · have hpc : s.Child p c := ⟨w, hw, hc⟩
    exact ⟨hpc, by simp, (hf p c hpc).trans_le hfuel⟩

/-- With more fuel than the height of the window, it goes with everything below it. -/
lemma IsTree.destroyWindowTree_eq (h : s.IsTree) (hf : Ranked s.Child f) (hc : s.Child p c)
    (hfuel : f c < fuel) :
    destroyWindowTree fuel s c = some (s.prune (s.below c)) := by
  induction fuel generalizing s p c with
  | zero => omega
  | succ fuel ih =>
    obtain ⟨_, w, hw, hparent⟩ := (h.child_iff p c).mp hc
    obtain ⟨u, hu, _⟩ := hc
    have hpos : p ≠ 0 := by
      rintro rfl
      simp [h.zero] at hu
    obtain ⟨hloop, hrest⟩ := h.foldlM_children hf hw (Nat.le_of_lt_succ hfuel)
      (fun s d h hf hd hlt => ih h hf hd hlt)
    have hself : c ∉ s.belowAll w.children := by
      rintro ⟨d, hd, hdc⟩
      exact parent_notMem_below hf ⟨w, hw, hd⟩ hdc
    have hunlink := hrest.unlink_eq_prune (prune_parent_iff.mpr ⟨⟨w, hw, hparent⟩, hself⟩)
    have hwindow : (s.prune (s.belowAll w.children)).window c = _ := window_prune c
    simp only [hself, if_false, hw, Option.map_some] at hwindow
    simp only [destroyWindowTree, hw, Option.map_some, Option.getD_some, hloop,
      Option.bind_eq_bind, Option.bind_some, hwindow, hparent, ne_eq, hpos, not_false_eq_true,
      if_true, hunlink, prune_prune]
    congr 2
    ext x
    constructor
    · rintro (⟨d, hd, hdx⟩ | rfl)
      · exact .head ⟨w, hw, hd⟩ hdx
      · exact .refl
    · intro hx
      rcases ReflTransGen.cases_head hx with heq | ⟨d, ⟨w', hw', hd⟩, hdx⟩
      · exact .inr heq.symm
      · rw [hw, Option.some.injEq] at hw'
        exact .inl ⟨d, hw' ▸ hd, hdx⟩

/-- The walk up the parent fields ends at the root. -/
lemma IsTree.absOrigin_isSome (h : s.IsTree) (wid : ℕ) :
    ∃ fuel, ∀ x y, (absOrigin fuel s wid x y).isSome := by
  cases hwid : s.window wid with
  | none => exact ⟨1, fun x y => by simp [absOrigin, hwid]⟩
  | some w =>
    have hreach := h.reach wid _ (parent_of_window hwid)
    clear hwid
    induction hreach with
    | refl =>
      obtain ⟨v, hv, hparent⟩ := h.root
      exact ⟨1, fun x y => by simp [absOrigin, hv, hparent]⟩
    | @tail a c _ hedge ih =>
      obtain ⟨fuel, hfuel⟩ := ih
      obtain ⟨_, v, hv, hparent⟩ := (h.child_iff a c).mp hedge
      obtain ⟨u, hu, _⟩ := hedge
      have ha : a ≠ 0 := by
        rintro rfl
        simp [h.zero] at hu
      exact ⟨fuel + 1, fun x y => by simpa [absOrigin, hv, hparent, ha] using hfuel _ _⟩

/-- From a window that names itself the walk does not end. -/
lemma absOrigin_eq_none {wid : ℕ} (hw : s.window wid = some w) (hself : w.parent = wid)
    (hne : wid ≠ 0) (fuel : ℕ) (x y : BitVec 32) :
    absOrigin fuel s wid x y = none := by
  induction fuel generalizing x y with
  | zero => rfl
  | succ fuel ih =>
    simp only [absOrigin, hw, hself, hne, if_false]
    exact ih _ _

end Destroy

end Server

/-- The request is served, with this result, by every recursion that may go deep enough. -/
def Serves (s : Server) (request : Request) (s' : Server) : Prop :=
  ∃ depth, ∀ fuel, depth ≤ fuel → s.serve fuel request = some s'

variable {request : Request}

lemma Serves.unique {s s₁ s₂ : Server} (h₁ : Serves s request s₁) (h₂ : Serves s request s₂) :
    s₁ = s₂ := by
  obtain ⟨d₁, h₁⟩ := h₁
  obtain ⟨d₂, h₂⟩ := h₂
  have h := h₁ (max d₁ d₂) (le_max_left _ _)
  rw [h₂ _ (le_max_right _ _), Option.some.injEq] at h
  exact h.symm

/-- The ids of clients start at one. -/
def Request.FromClient : Request → Prop
  | .createWindow client _ _ _ _ => 1 ≤ client
  | _ => True

/-- The check that `ReparentWindow` does not make: the window is not the root, and the new
parent is neither the window nor below it. -/
def Safe (s : Server) : Request → Prop
  | .reparentWindow wid newParent _ _ =>
    ∀ w v, s.window wid = some w → s.window newParent = some v → w.parent ≠ newParent →
      wid ≠ rootWindowId ∧ ¬ s.Reach wid newParent
  | _ => True

/-- The windows right after the start. -/
def Booted (s : Server) : Prop :=
  ∃ x y, s.window rootWindowId = some ⟨0, [], x, y⟩ ∧
    ∀ id, id ≠ rootWindowId → s.window id = none

/-- The states that requests lead to, of which each meets the condition `ok`. -/
inductive Reachable (ok : Server → Request → Prop) : Server → Prop
  | boot (s) : Booted s → Reachable ok s
  | step (s request s') : Reachable ok s → request.FromClient → ok s request →
      Serves s request s' → Reachable ok s'

lemma Booted.isTree {s : Server} (h : Booted s) : s.IsTree := by
  obtain ⟨x, y, hroot, hnone⟩ := h
  have hchild : ∀ p c, ¬ s.Child p c := by
    intro p c ⟨w, hw, hc⟩
    by_cases hp : p = rootWindowId
    · rw [hp, hroot, Option.some.injEq] at hw
      simp [← hw] at hc
    · simp [hnone p hp] at hw
  have hparent : ∀ c p, s.Parent c p → c = rootWindowId := by
    intro c p ⟨w, hw, _⟩
    by_contra hc
    simp [hnone c hc] at hw
  constructor
  · exact hnone 0 (by decide)
  · exact ⟨_, hroot, rfl⟩
  · intro p c
    simp only [hchild, false_iff, not_and]
    exact fun hc hp => hc (hparent c p hp)
  · intro p w hw
    by_cases hp : p = rootWindowId
    · rw [hp, hroot, Option.some.injEq] at hw
      simp [← hw]
    · simp [hnone p hp] at hw
  · intro c p hc
    exact hparent c p hc ▸ .refl
  · exact ⟨fun _ => 0, fun p c hpc => absurd hpc (hchild p c)⟩

/-- In a tree every request is served, and the safe ones keep the tree. -/
lemma Server.IsTree.serve {s : Server} (h : s.IsTree) (hclient : request.FromClient)
    (hsafe : Safe s request) :
    ∃ s', Serves s request s' ∧ s'.IsTree := by
  obtain ⟨f, hf⟩ := h.ranked
  cases request with
  | createWindow client wid parent x y => exact ⟨_, ⟨0, fun _ _ => rfl⟩, h.createWindow x y hclient⟩
  | reparentWindow wid newParent x y => exact ⟨_, ⟨0, fun _ _ => rfl⟩, h.reparentWindow x y hsafe⟩
  | circulateWindow direction wid => exact ⟨_, ⟨0, fun _ _ => rfl⟩, h.circulateWindow direction wid⟩
  | destroyWindow wid =>
    by_cases hroot : wid = rootWindowId
    · exact ⟨s, ⟨0, fun _ _ => by simp [Server.serve, Server.destroyWindow, hroot]⟩, h⟩
    · cases hw : s.window wid with
      | none => exact ⟨s, ⟨0, fun _ _ => by simp [Server.serve, Server.destroyWindow, hw]⟩, h⟩
      | some w =>
        have hchild := (h.child_iff w.parent wid).mpr ⟨hroot, Server.parent_of_window hw⟩
        refine ⟨_, ⟨f wid + 1, fun fuel hfuel => ?_⟩,
          h.prune (s.below_closed wid) (h.root_notMem_below hchild)⟩
        simp only [Server.serve, Server.destroyWindow, hroot, hw, Option.isNone_some,
          Bool.false_eq_true, if_false]
        exact h.destroyWindowTree_eq hf hchild hfuel
  | destroySubwindows wid =>
    cases hw : s.window wid with
    | none => exact ⟨s, ⟨0, fun _ _ => by simp [Server.serve, Server.destroySubwindows, hw]⟩, h⟩
    | some w =>
      have hloop := fun fuel hfuel => h.foldlM_children hf hw (hfuel : f wid ≤ fuel)
        fun s d h hf hd hlt => h.destroyWindowTree_eq hf hd hlt
      refine ⟨_, ⟨f wid, fun fuel hfuel => ?_⟩, (hloop (f wid) le_rfl).2⟩
      simp only [Server.serve, Server.destroySubwindows, hw]
      exact (hloop fuel hfuel).1

/-- In every state that requests lead to of which no `ReparentWindow` moves the root or hangs a
window below itself, the windows form a tree below the root and `abs_origin` ends. -/
theorem windows_form_tree (s : Server) (h : Reachable Safe s) :
    s.IsTree ∧ ∀ wid, ∃ fuel, ∀ x y, (Server.absOrigin fuel s wid x y).isSome := by
  have htree : s.IsTree := by
    induction h with
    | boot s hboot => exact hboot.isTree
    | step s request s' _ hclient hsafe hserves ih =>
      obtain ⟨s'', hserves', htree⟩ := ih.serve hclient hsafe
      exact hserves.unique hserves' ▸ htree
  exact ⟨htree, htree.absOrigin_isSome⟩

/-- The root window alone. -/
def bootServer : Server :=
  ⟨fun id => if id = rootWindowId then some (.window ⟨0, [], 0, 0⟩) else none⟩

lemma bootServer_booted : Booted bootServer := by
  refine ⟨0, 0, rfl, fun id hid => ?_⟩
  simp [Server.window, bootServer, hid]

/-- The first two windows of the first client, the second hung below the first. -/
theorem created_window_form_tree :
    (((bootServer.createWindow 1 0x200001 rootWindowId 5 5).createWindow 1 0x200002 rootWindowId
      5 5).reparentWindow 0x200002 0x200001 0 0).IsTree := by
  have hone := Reachable.step _ (.createWindow 1 0x200001 rootWindowId 5 5) _
    (.boot _ bootServer_booted : Reachable Safe _) (le_refl 1) trivial ⟨0, fun _ _ => rfl⟩
  have htwo := Reachable.step _ (.createWindow 1 0x200002 rootWindowId 5 5) _ hone (le_refl 1)
    trivial ⟨0, fun _ _ => rfl⟩
  refine (windows_form_tree _ (.step _ (.reparentWindow 0x200002 0x200001 0 0) _ htwo trivial
    (fun _ _ _ _ _ => ⟨by decide, fun hreach => ?_⟩) ⟨0, fun _ _ => rfl⟩)).1
  rcases ReflTransGen.cases_head hreach with heq | ⟨c, ⟨w, hw, hc⟩, -⟩
  · cases heq
  · cases hw
    cases hc

/-- The window is hung below itself, and the walk up from it never ends. -/
theorem reparent_to_self : ∃ s, Reachable (fun _ _ => True) s ∧ s.Parent 0x200001 0x200001 ∧
    ¬ s.Reach rootWindowId 0x200001 ∧
    ∀ fuel, Server.absOrigin fuel s 0x200001 0 0 = none := by
  have hcreate := Reachable.step _ (.createWindow 1 0x200001 rootWindowId 5 5) _ (.boot _
    bootServer_booted : Reachable (fun _ _ => True) _) (le_refl 1) trivial ⟨0, fun _ _ => rfl⟩
  have hreparent := Reachable.step _ (.reparentWindow 0x200001 0x200001 0 0) _ hcreate trivial
    trivial ⟨0, fun _ _ => rfl⟩
  have hwindow : ((bootServer.createWindow 1 0x200001 rootWindowId 5 5).reparentWindow 0x200001
      0x200001 0 0).window 0x200001 = some ⟨0x200001, [0x200001], 0, 0⟩ := by decide
  have hroot : ((bootServer.createWindow 1 0x200001 rootWindowId 5 5).reparentWindow 0x200001
      0x200001 0 0).window rootWindowId = some ⟨0, [], 0, 0⟩ := by decide
  refine ⟨_, hreparent, ⟨_, hwindow, rfl⟩, ?_, ?_⟩
  · intro hreach
    rcases ReflTransGen.cases_head hreach with heq | ⟨c, ⟨w, hw, hc⟩, _⟩
    · simp [rootWindowId] at heq
    · rw [hroot, Option.some.injEq] at hw
      simp [← hw] at hc
  · exact fun fuel => Server.absOrigin_eq_none hwindow rfl (by decide) fuel 0 0

end Kevlar.XServer
