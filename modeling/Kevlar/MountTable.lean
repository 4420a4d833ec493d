import Kevlar.PathLookup

/-!
# The mount that owns a path

`MountTable` keeps the mounts in the order in which they were added and answers for a path from
the mount that owns it. Two of its searches match a mount point only up to the end of a
component of the path, in a loop that goes on to a mount point at least as long as the best so
far; the other two take any textual prefix and the last of the longest. Strings are lists of
characters; the lengths compared are those of prefixes of one path, so they compare as the
lengths in bytes do.
-/
namespace Kevlar.Mounts
open List

open Lookup (Str startsWithSlash)

/-! ## The last of the largest -/

section

variable {α : Type*} {key : α → ℕ} {l : List α} {x : α}

/-- `Iterator::max_by_key`. -/
def maxByKey (key : α → ℕ) (l : List α) : Option α :=
  l.foldl (fun best x => match best with
    | none => some x
    | some y => if key y ≤ key x then some x else some y) none

lemma maxByKey_concat : maxByKey key (l ++ [x]) = match maxByKey key l with
      | none => some x
      | some y => if key y ≤ key x then some x else some y := by
  simp only [maxByKey, foldl_append, foldl_cons, foldl_nil]

lemma maxByKey_eq_none_iff : maxByKey key l = none ↔ l = [] := by
  induction l using reverseRecOn with
  | nil => simp [maxByKey]
  | append_singleton l x ih =>
    rw [maxByKey_concat]
    cases maxByKey key l with
    | none => simp
    | some y =>
      dsimp only
      split_ifs <;> simp

/-- The largest so far and everything after it smaller. -/
lemma maxByKey_eq_some_iff : maxByKey key l = some x ↔ ∃ before after,
    l = before ++ x :: after ∧ (∀ y ∈ before, key y ≤ key x) ∧ ∀ y ∈ after, key y < key x := by
  induction l using reverseRecOn generalizing x with
  | nil => simp [maxByKey]
  | append_singleton l z ih =>
    rw [maxByKey_concat]
    constructor
    · intro h
      cases hl : maxByKey key l with
      | none =>
        rw [hl] at h
        cases h
        rw [maxByKey_eq_none_iff.mp hl]
        exact ⟨[], [], rfl, by simp, by simp⟩
      | some y =>
        rw [hl] at h
        obtain ⟨before, after, rfl, hbefore, hafter⟩ := ih.mp hl
        dsimp only at h
        split_ifs at h with hle
        · cases h
          refine ⟨before ++ y :: after, [], rfl, fun w hw => ?_, by simp⟩
          rcases mem_append.mp hw with hw | hw
          · exact (hbefore w hw).trans hle
          · rcases mem_cons.mp hw with rfl | hw
            · exact hle
            · exact (hafter w hw).le.trans hle
        · cases h
          refine ⟨before, after ++ [z], by simp, hbefore, fun w hw => ?_⟩
          rcases mem_append.mp hw with hw | hw
          · exact hafter w hw
          · rw [mem_singleton.mp hw]
            omega
    · rintro ⟨before, after, heq, hbefore, hafter⟩
      induction after using reverseRecOn with
      | nil =>
        obtain ⟨rfl, hz⟩ := append_inj' heq rfl
        cases hz
        cases hl : maxByKey key l with
        | none => rfl
        | some y =>
          have hmem : y ∈ l := by
            obtain ⟨b, a, rfl, -⟩ := ih.mp hl
            simp
          exact if_pos (hbefore y hmem)
      | append_singleton after w =>
        have hsplit : l ++ [z] = (before ++ x :: after) ++ [w] := by simpa using heq
        obtain ⟨rfl, hz⟩ := append_inj' hsplit rfl
        cases hz
        have hl := ih.mpr ⟨before, after, rfl, hbefore, fun y hy => hafter y (by simp [hy])⟩
        rw [hl]
        exact if_neg (hafter z (by simp)).not_ge

lemma mem_of_maxByKey (h : maxByKey key l = some x) : x ∈ l := by
  obtain ⟨before, after, rfl, -⟩ := maxByKey_eq_some_iff.mp h
  simp

/-- A choice among more elements that falls on one of the fewer. -/
lemma maxByKey_filter_of_imp {p q : α → Bool} (hpq : ∀ y ∈ l, q y = true → p y = true)
    (h : maxByKey key (l.filter p) = some x) (hx : q x = true) :
    maxByKey key (l.filter q) = some x := by
  have hfilter : l.filter q = (l.filter p).filter q := by
    rw [filter_filter]
    apply filter_congr
    intro y hy
    cases hq : q y with
    | false => rfl
    | true => rw [hpq y hy hq]; rfl
  obtain ⟨before, after, heq, hbefore, hafter⟩ := maxByKey_eq_some_iff.mp h
  rw [hfilter, heq, filter_append, filter_cons_of_pos hx]
  rw [maxByKey_eq_some_iff]
  exact ⟨before.filter q, after.filter q, rfl, fun y hy => hbefore y (mem_of_mem_filter hy),
    fun y hy => hafter y (mem_of_mem_filter hy)⟩

/-! ## Parts between separators -/

lemma intercalate_append {sep : List α} {xs ys : List (List α)} (hx : xs ≠ []) (hy : ys ≠ []) :
    sep.intercalate (xs ++ ys) = sep.intercalate xs ++ sep ++ sep.intercalate ys := by
  induction xs with
  | nil => exact absurd rfl hx
  | cons x rest ih =>
    by_cases hrest : rest = []
    · simp [hrest, intercalate_cons_of_ne_nil hy]
    · rw [cons_append, intercalate_cons_of_ne_nil (by simp [hrest]), ih hrest,
        intercalate_cons_of_ne_nil hrest]
      simp only [append_assoc]

/-- The parts of a list are those of a prefix if the prefix ends at a separator. -/
lemma splitOn_prefix_iff [DecidableEq α] (c : α) {xs ys : List α} :
    xs.splitOn c <+: ys.splitOn c ↔ xs = ys ∨ xs ++ [c] <+: ys := by
  constructor
  · rintro ⟨rest, hrest⟩
    have hys : ys = [c].intercalate (xs.splitOn c ++ rest) := by
      rw [hrest, intercalate_splitOn]
    by_cases hnil : rest = []
    · left
      rw [hys, hnil, append_nil, intercalate_splitOn]
    · right
      rw [hys, intercalate_append (splitOn_ne_nil c xs) hnil, intercalate_splitOn]
      exact prefix_append _ _
  · rintro (rfl | ⟨rest, rfl⟩)
    · exact prefix_rfl
    · rw [append_assoc, singleton_append, splitOn_append_cons_self]
      exact prefix_append _ _

end

/-! ## The table -/

structure MountEntry where
  mountId : BitVec 32
  parentId : BitVec 32
  fstype : Str
  mountpoint : Str
  readonly : Bool
  deriving DecidableEq

structure MountTable where
  entries : List MountEntry
  nextMountId : BitVec 32

namespace MountTable

/-- The search of `add_with_flags` and `is_readonly`. -/
def longestPrefix (entries : List MountEntry) (path : Str) : Option MountEntry :=
  maxByKey (·.mountpoint.length) (entries.filter (·.mountpoint.isPrefixOf path))

def addWithFlags (t : MountTable) (fstype mountpoint : Str) (readonly : Bool) : MountTable where
  entries := t.entries ++ [{
    mountId := t.nextMountId
    parentId := ((longestPrefix t.entries mountpoint).map (·.mountId)).getD 0
    fstype := fstype
    mountpoint := mountpoint
    readonly := readonly }]
  nextMountId := t.nextMountId + 1

def isReadonly (t : MountTable) (path : Str) : Bool :=
  ((longestPrefix t.entries path).map (·.readonly)).getD false

/-- What the loops of `mount_id_for_path` and `fstype_for_path` take for a match. -/
def pathMatches (path : Str) (e : MountEntry) : Bool :=
  if e.mountpoint = ['/'] then true
  else e.mountpoint.isPrefixOf path &&
    (path.length == e.mountpoint.length || path[e.mountpoint.length]? == some '/')

/-- The two loops; `get` is what they keep of an entry, next to the length of its mount point. -/
def bestMatch {α : Type} (get : MountEntry → α) (init : α) (entries : List MountEntry)
    (path : Str) : α :=
  (entries.foldl (fun (best : ℕ × α) e =>
    if pathMatches path e && decide (best.1 ≤ e.mountpoint.length) then
      (e.mountpoint.length, get e)
    else best) (0, init)).2

/-- The identifier is cast to `i32`. -/
def mountIdForPath (t : MountTable) (path : Str) : ℤ :=
  bestMatch (·.mountId.toInt) 0 t.entries path

def fstypeForPath (t : MountTable) (path : Str) : Option Str :=
  bestMatch (some ·.fstype) none t.entries path

end MountTable

/-! ## Ownership -/

/-- The parts of a path between its slashes; the root has none. -/
def pieces (path : Str) : List Str := if path = ['/'] then [] else path.splitOn '/'

/-- The mount point is a component-wise prefix of the path. -/
def Covers (path : Str) (e : MountEntry) : Prop := pieces e.mountpoint <+: path.splitOn '/'

instance (path : Str) : DecidablePred (Covers path) :=
  fun _ => inferInstanceAs (Decidable (_ <+: _))

/-- The mount that owns a path: the last one added among those whose mount point is the longest
component-wise prefix. -/
def owner (entries : List MountEntry) (path : Str) : Option MountEntry :=
  maxByKey (·.mountpoint.length) (entries.filter (Covers path ·))

variable {t : MountTable} {entries : List MountEntry} {path : Str} {e : MountEntry}

lemma covers_iff : Covers path e ↔ e.mountpoint = ['/'] ∨
    e.mountpoint = path ∨ e.mountpoint ++ ['/'] <+: path := by
  unfold Covers pieces
  by_cases hroot : e.mountpoint = ['/']
  · simp [hroot]
  · rw [if_neg hroot, splitOn_prefix_iff]
    simp [hroot]

lemma append_prefix_iff {mp : Str} {c : Char} :
    mp ++ [c] <+: path ↔ mp <+: path ∧ path[mp.length]? = some c := by
  constructor
  · rintro ⟨rest, rfl⟩
    exact ⟨⟨c :: rest, by simp⟩, by simp⟩
  · rintro ⟨⟨rest, rfl⟩, hget⟩
    rw [getElem?_append_right le_rfl, Nat.sub_self] at hget
    cases rest with
    | nil => cases hget
    | cons d rest =>
      cases hget
      exact ⟨rest, by simp⟩

lemma MountTable.pathMatches_iff : MountTable.pathMatches path e = true ↔ Covers path e := by
  rw [covers_iff, append_prefix_iff]
  unfold MountTable.pathMatches
  split_ifs with hroot
  · simp [hroot]
  · simp only [hroot, false_or, Bool.and_eq_true, Bool.or_eq_true, beq_iff_eq,
      List.isPrefixOf_iff_prefix]
    constructor
    · rintro ⟨hpre, hlen | hslash⟩
      · exact .inl (hpre.eq_of_length hlen.symm)
      · exact .inr ⟨hpre, hslash⟩
    · rintro (rfl | ⟨hpre, hslash⟩)
      · exact ⟨prefix_rfl, .inl rfl⟩
      · exact ⟨hpre, .inr hslash⟩

lemma owner_concat (l : List MountEntry) (x : MountEntry) : owner (l ++ [x]) path =
      if Covers path x then
        match owner l path with
        | none => some x
        | some y => if y.mountpoint.length ≤ x.mountpoint.length then some x else some y
      else owner l path := by
  unfold owner
  rw [filter_append]
  split_ifs with hx
  · rw [filter_cons_of_pos (by simpa using hx), filter_nil, maxByKey_concat]
    generalize maxByKey _ (l.filter _) = best
    cases best <;> rfl
  · rw [filter_cons_of_neg (by simpa using hx), filter_nil, append_nil]

/-- The loops find the owner. -/
lemma MountTable.bestMatch_eq {α : Type} (get : MountEntry → α) (init : α) :
    MountTable.bestMatch get init entries path = ((owner entries path).map get).getD init := by
  have hloop : entries.foldl (fun (best : ℕ × α) e =>
      if pathMatches path e && decide (best.1 ≤ e.mountpoint.length) then
        (e.mountpoint.length, get e)
      else best) (0, init) =
      ((owner entries path).map fun e => (e.mountpoint.length, get e)).getD (0, init) := by
    induction entries using reverseRecOn with
    | nil => rfl
    | append_singleton l x ih =>
      rw [foldl_append, ih, owner_concat]
      by_cases hx : Covers path x
      · have hmatch := pathMatches_iff.mpr hx
        cases owner l path with
        | none => simp [hmatch, hx]
        | some y =>
          by_cases hle : y.mountpoint.length ≤ x.mountpoint.length
          · simp [hmatch, hx, hle]
          · simp [hx, hle]
      · have hmatch : pathMatches path x = false := by
          rw [← Bool.not_eq_true, pathMatches_iff]
          exact hx
        simp [hmatch, hx]
  rw [bestMatch, hloop]
  cases owner entries path with
  | none | some e => rfl

/-! ## The four searches -/

/-- All questions about a path are answered for its owner; the last is the parent of a mount that
is added there. -/
structure AnswersForOwner (t : MountTable) (path : Str) : Prop where
  readonly : t.isReadonly path = ((owner t.entries path).map (·.readonly)).getD false
  mountId : t.mountIdForPath path = ((owner t.entries path).map (·.mountId.toInt)).getD 0
  fstype : t.fstypeForPath path = (owner t.entries path).map (·.fstype)
  parent : ∀ fstype readonly, ((t.addWithFlags fstype path readonly).entries.getLast?).map
    (·.parentId) = some (((owner t.entries path).map (·.mountId)).getD 0)

/-- The longest textual prefix among the mount points ends with a component of the path, or its
mount cannot be told from the owner. -/
def LongestPrefixCovers (t : MountTable) (path : Str) : Prop :=
  ∀ e, MountTable.longestPrefix t.entries path = some e → Covers path e ∨
    (e.readonly = ((owner t.entries path).map (·.readonly)).getD false ∧
      e.mountId = ((owner t.entries path).map (·.mountId)).getD 0)

/-- Mounts with different numbers can be told apart. -/
lemma longestPrefixCovers_iff (hids : (0 :: t.entries.map (·.mountId)).Nodup) :
    LongestPrefixCovers t path ↔
      ∀ e, MountTable.longestPrefix t.entries path = some e → Covers path e := by
  refine ⟨fun h e he => (h e he).elim id fun hsame => ?_, fun h e he => .inl (h e he)⟩
  obtain ⟨hzero, hnodup⟩ := nodup_cons.mp hids
  have hmem : e ∈ t.entries := mem_of_mem_filter (mem_of_maxByKey he)
  cases howner : owner t.entries path with
  | none =>
    rw [howner] at hsame
    exact absurd (mem_map.mpr ⟨e, hmem, hsame.2⟩) hzero
  | some o =>
    rw [howner] at hsame
    obtain ⟨ho, hcovers⟩ := mem_filter.mp (mem_of_maxByKey howner)
    rw [inj_on_of_nodup_map hnodup hmem ho hsame.2]
    exact of_decide_eq_true hcovers

section

variable (hpath : startsWithSlash path = true)
include hpath

lemma prefix_of_covers (h : Covers path e) : e.mountpoint <+: path := by
  rcases covers_iff.mp h with hroot | rfl | hslash
  · rw [hroot]
    cases path with
    | nil => cases hpath
    | cons c rest =>
      have hc : c = '/' := by simpa [startsWithSlash] using hpath
      rw [hc]
      exact ⟨rest, rfl⟩
  · exact prefix_rfl
  · exact (prefix_append _ _).trans hslash

lemma owner_of_longestPrefix (h : MountTable.longestPrefix entries path = some e)
    (hcovers : Covers path e) : owner entries path = some e := by
  refine maxByKey_filter_of_imp (fun x _ hx => ?_) h (by simpa using hcovers)
  rw [List.isPrefixOf_iff_prefix]
  exact prefix_of_covers hpath (by simpa using hx)

lemma owner_eq_none (h : MountTable.longestPrefix entries path = none) :
    owner entries path = none := by
  rw [MountTable.longestPrefix, maxByKey_eq_none_iff, filter_eq_nil_iff] at h
  rw [owner, maxByKey_eq_none_iff, filter_eq_nil_iff]
  intro x hx hcovers
  apply h x hx
  rw [List.isPrefixOf_iff_prefix]
  exact prefix_of_covers hpath (by simpa using hcovers)

end

/-- All four searches answer for the owner of the path exactly if the longest textual prefix among
the mount points ends with a component of the path, where the mounts have numbers of their own. -/
theorem answersForOwner_iff (t : MountTable) (hpath : startsWithSlash path = true) :
    (AnswersForOwner t path ↔ LongestPrefixCovers t path) ∧
      ((0 :: t.entries.map (·.mountId)).Nodup → (LongestPrefixCovers t path ↔
        ∀ e, MountTable.longestPrefix t.entries path = some e → Covers path e)) := by
  refine ⟨?_, longestPrefixCovers_iff⟩
  constructor
  · intro h e he
    have hreadonly := h.readonly
    have hparent := h.parent [] false
    rw [MountTable.isReadonly, he] at hreadonly
    rw [MountTable.addWithFlags, he] at hparent
    exact .inr ⟨by simpa using hreadonly, by simpa using hparent⟩
  · intro h
    have hfstype : t.fstypeForPath path = (owner t.entries path).map (·.fstype) := by
      rw [MountTable.fstypeForPath, MountTable.bestMatch_eq]
      cases owner t.entries path <;> rfl
    have hpick : t.isReadonly path = ((owner t.entries path).map (·.readonly)).getD false ∧
        ((MountTable.longestPrefix t.entries path).map (·.mountId)).getD 0 =
          ((owner t.entries path).map (·.mountId)).getD 0 := by
      rw [MountTable.isReadonly]
      cases hlongest : MountTable.longestPrefix t.entries path with
      | none =>
        rw [owner_eq_none hpath hlongest]
        exact ⟨rfl, rfl⟩
      | some e =>
        rcases h e hlongest with hcovers | hsame
        · rw [owner_of_longestPrefix hpath hlongest hcovers]
          exact ⟨rfl, rfl⟩
        · exact hsame
    refine ⟨hpick.1, MountTable.bestMatch_eq _ _, hfstype, fun fstype readonly => ?_⟩
    rw [← hpick.2]
    simp [MountTable.addWithFlags]

/-! ## A mount at `/a` and the path `/ab` -/

/-- The root file system, and a read-only mount at `/a`. -/
def readonlyAt (mountpoint : String) : MountTable :=
  (MountTable.addWithFlags ⟨[], 1⟩ "initramfs".toList ['/'] false).addWithFlags
    "ext2".toList mountpoint.toList true

theorem answersForOwner_below_mount :
    (readonlyAt "/a").isReadonly "/a/b".toList = true ∧
      AnswersForOwner (readonlyAt "/a") "/a/b".toList := by
  refine ⟨by decide +kernel, (answersForOwner_iff _ (by decide)).1.mpr fun e he => .inl ?_⟩
  cases he
  decide +kernel

/-- The mount makes `/ab` read-only, which belongs to the root, and is recorded as the parent of a
mount there. -/
theorem isReadonly_ends_inside_component :
    let t := readonlyAt "/a"
    (owner t.entries "/ab".toList).map (·.mountId) = some 1 ∧
    t.mountIdForPath "/ab".toList = 1 ∧ t.fstypeForPath "/ab".toList = some "initramfs".toList ∧
    t.isReadonly "/ab".toList = true ∧
    (t.addWithFlags "tmpfs".toList "/ab".toList false).entries.getLast?.map (·.parentId) =
      some 2 := by
  decide +kernel

end Kevlar.Mounts
