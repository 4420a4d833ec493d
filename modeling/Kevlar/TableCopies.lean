import Kevlar.PageRefcount
import Kevlar.RadixTree

/-!
# Copying page tables

A fork copies the tables of the user half. Each table is first copied as it is; then the
words that lead to tables are made to lead to copies of them, and the leaves of user pages
lose the WRITABLE bit in both trees while the reference counts of their pages grow. A ghost
fork counts no references, marks the leaves instead and notes their addresses.
-/
namespace Kevlar
open List

/-- The page tables, the pages for new tables, the reference counts, and the addresses that a
ghost fork has noted. -/
structure PtMemory extends Machine where
  refs : Frame → ℕ
  cowAddrs : List ℕ

def PageAttrs.clearWritable (a : PageAttrs) : PageAttrs := { a with writable := false }

/-- `PTE_WAS_WRITABLE`, a bit that the processor ignores. -/
def pteWasWritable : BitVec 64 := 1 <<< 10

namespace Entry

/-- The entry without WRITABLE. -/
def cow (e : Entry) : Entry := ⟨e.frame, e.attrs.clearWritable⟩

def cowGhost (e : Entry) : Entry :=
  ⟨e.frame, { e.attrs.clearWritable with rest := e.attrs.rest ||| pteWasWritable }⟩

end Entry

/-- `0..ENTRIES_PER_TABLE`. -/
@[irreducible] def entryIndices : List ℕ := List.range 512

namespace PtMemory

def write (s : PtMemory) (table : Frame) (index : ℕ) (e : Entry) : PtMemory :=
  { s with toMachine := s.toMachine.write table index e }

/-- `alloc_pt_page`; what the page holds does not matter, as it is overwritten. -/
def allocPtPage (s : PtMemory) : Option (Frame × PtMemory) :=
  match s.free with
  | [] => none
  | f :: fs => some (f, { s with free := fs })

/-- `copy_nonoverlapping` of a whole table. -/
def copyTable (s : PtMemory) (orig new : Frame) : PtMemory :=
  { s with mem := Function.update s.mem new (s.mem orig) }

/-- Take WRITABLE from an entry of both tables. -/
def writeBoth (s : PtMemory) (orig new : Frame) (i : ℕ) (e : Entry) : PtMemory :=
  (s.write orig i e).write new i e

/-! ## Fork -/

/-- What `duplicate_table` does to a leaf: `inc` counts the reference. -/
def shareEntry (inc : (Frame → ℕ) → Frame → Frame → ℕ) (orig new : Frame) (i : ℕ)
    (s : PtMemory) : PtMemory :=
  let entry := s.mem orig i
  if entry.attrs.user then
    let s' := { s with refs := inc s.refs entry.frame }
    if entry.attrs.writable then s'.writeBoth orig new i entry.cow else s'
  else s

def sharePage (orig new : Frame) (i : ℕ) (s : PtMemory) : PtMemory :=
  if (s.mem orig i).frame = 0 then s else shareEntry PageRef.inc orig new i s

/-- Eight entries at a time: a batch of zero words is skipped. -/
def shareBatch (orig new : Frame) (s : PtMemory) (batch : ℕ) : PtMemory :=
  if ∀ j < 8, s.mem orig (batch * 8 + j) = 0 then s
  else (List.range 8).foldl (fun s j => sharePage orig new (batch * 8 + j) s) s

def shareLeaves (orig new : Frame) (s : PtMemory) : PtMemory :=
  (List.range 64).foldl (shareBatch orig new) s

/-- What `duplicate_table_ghost` does to a leaf. -/
def ghostEntry (addr : ℕ) (orig new : Frame) (i : ℕ) (s : PtMemory) : PtMemory :=
  let entry := s.mem orig i
  if entry.attrs.user && entry.attrs.writable then
    { s.writeBoth orig new i entry.cowGhost with cowAddrs := s.cowAddrs ++ [addr] }
  else s

def ghostLeaves (base : ℕ) (orig new : Frame) (s : PtMemory) : PtMemory :=
  entryIndices.foldl (fun s i =>
    if (s.mem orig i).frame = 0 then s else ghostEntry (base ||| i <<< 12) orig new i s) s

/-- A loop that ends at the first error. -/
def forEntries (body : ℕ → PtMemory → Bool × PtMemory) : List ℕ → PtMemory → Bool × PtMemory
  | [], s => (true, s)
  | i :: rest, s =>
    match body i s with
    | (true, s') => forEntries body rest s'
    | (false, s') => (false, s')

/-- How the two kinds of fork treat the leaves of a page table and a 2 MB leaf; the first
argument is the virtual address. -/
structure Sharing where
  leaves : ℕ → Frame → Frame → PtMemory → PtMemory
  huge : ℕ → Frame → Frame → ℕ → PtMemory → PtMemory

/-- One turn of the loop over the entries of an upper table; `dup` is the recursive call. -/
def duplicateEntry (how : Sharing) (level base : ℕ)
    (dup : ℕ → Frame → PtMemory → Option Frame × PtMemory) (orig new : Frame) (i : ℕ)
    (s : PtMemory) : Bool × PtMemory :=
  let entry := s.mem orig i
  let childBase := base ||| i <<< ((level - 1) * 9 + 12)
  if level = 4 ∧ 0x80 ≤ i then (true, s)
  else if entry.frame = 0 then (true, s)
  else if level = 2 ∧ entry.isHugePagePde then (true, how.huge childBase orig new i s)
  else
    match dup childBase entry.frame s with
    | (none, s') => (false, s')
    | (some child, s') => (true, s'.write new i ⟨child, entry.attrs⟩)

/-- The recursion of `duplicate_table` and `duplicate_table_ghost`. There is no table of
level 0. -/
def duplicateWith (how : Sharing) : ℕ → ℕ → Frame → PtMemory → Option Frame × PtMemory
  | 0, _, _, s => (none, s)
  | level + 1, base, orig, s =>
    match s.allocPtPage with
    | none => (none, s)
    | some (new, s₁) =>
      let s₂ := s₁.copyTable orig new
      if level = 0 then (some new, how.leaves base orig new s₂)
      else
        match forEntries (duplicateEntry how (level + 1) base (duplicateWith how level) orig new)
          entryIndices s₂ with
        | (true, s') => (some new, s')
        | (false, s') => (none, s')

def forkSharing : Sharing where
  leaves _ := shareLeaves
  huge _ := shareEntry PageRef.incHuge

/-- `duplicate_table`. -/
def duplicateTable (level : ℕ) (orig : Frame) (s : PtMemory) : Option Frame × PtMemory :=
  duplicateWith forkSharing level 0 orig s

def ghostSharing : Sharing where
  leaves := ghostLeaves
  huge childBase := ghostEntry (childBase ||| 1)

/-- `duplicate_table_ghost`. -/
def duplicateTableGhost (level base : ℕ) (orig : Frame) (s : PtMemory) :
    Option Frame × PtMemory :=
  duplicateWith ghostSharing level base orig s

/-! ## The words that lead to tables -/

/-- The table that the walks go on to from a word of a table. -/
def followed (level i : ℕ) (e : Entry) : Option Frame :=
  if e.frame = 0 ∨ level ≤ 1 ∨ (level = 4 ∧ 0x80 ≤ i) ∨ (level = 2 ∧ e.isHugePagePde = true)
  then none else some e.frame

/-- The tables under a root. -/
abbrev tables (mem : Frame → ℕ → Entry) (level : ℕ) (root : Frame) : List Frame :=
  Radix.nodes 512 followed mem level root

/-! ## A fork that fails -/

/-- Leaves are treated without taking or giving back pages. -/
structure Sharing.KeepsFree (how : Sharing) : Prop where
  leaves : ∀ base orig new s, (how.leaves base orig new s).free = s.free
  huge : ∀ base orig new i s, (how.huge base orig new i s).free = s.free

lemma foldl_free {f : PtMemory → ℕ → PtMemory} (h : ∀ s i, (f s i).free = s.free) (is : List ℕ)
    (s : PtMemory) : (is.foldl f s).free = s.free := by
  induction is generalizing s with
  | nil => rfl
  | cons i rest ih => rw [foldl_cons, ih, h]

lemma shareEntry_free (inc : (Frame → ℕ) → Frame → Frame → ℕ) (orig new : Frame) (i : ℕ)
    (s : PtMemory) : (shareEntry inc orig new i s).free = s.free := by
  unfold shareEntry
  dsimp only
  split_ifs <;> rfl

lemma ghostEntry_free (addr : ℕ) (orig new : Frame) (i : ℕ) (s : PtMemory) :
    (ghostEntry addr orig new i s).free = s.free := by
  unfold ghostEntry
  dsimp only
  split_ifs <;> rfl

lemma forkSharing_keepsFree : forkSharing.KeepsFree where
  leaves base orig new s := by
    apply foldl_free
    intro s batch
    unfold shareBatch
    split_ifs
    · rfl
    · apply foldl_free
      intro s j
      unfold sharePage
      split_ifs
      · rfl
      · exact shareEntry_free _ _ _ _ _
  huge base orig new i s := shareEntry_free _ _ _ _ _

lemma ghostSharing_keepsFree : ghostSharing.KeepsFree where
  leaves base orig new s := by
    apply foldl_free
    intro s i
    split_ifs
    · rfl
    · exact ghostEntry_free _ _ _ _ _
  huge base orig new i s := ghostEntry_free _ _ _ _ _

variable {s : PtMemory} {how : Sharing} {f : Frame} {fs : List Frame}

/-- What every turn of the loop keeps holds after it, also if it ends with an error. -/
lemma forEntries_keeps {body : ℕ → PtMemory → Bool × PtMemory} {P : PtMemory → Prop}
    (h : ∀ i s, P s → P (body i s).2) (is : List ℕ) (hs : P s) :
    P (forEntries body is s).2 := by
  induction is generalizing s with
  | nil => exact hs
  | cons i rest ih =>
    have hbody := h i s hs
    unfold forEntries
    split
    · rename_i s' heq
      rw [heq] at hbody
      exact ih hbody
    · rename_i s' heq
      rw [heq] at hbody
      exact hbody

lemma duplicateEntry_free (hhow : how.KeepsFree) (level base : ℕ)
    {dup : ℕ → Frame → PtMemory → Option Frame × PtMemory}
    (hdup : ∀ base t s, (dup base t s).2.free <:+ s.free) (orig new : Frame) (i : ℕ)
    (s : PtMemory) : (duplicateEntry how level base dup orig new i s).2.free <:+ s.free := by
  unfold duplicateEntry
  dsimp only
  split_ifs
  · exact suffix_refl _
  · exact suffix_refl _
  · rw [hhow.huge]
  · have h := hdup (base ||| i <<< ((level - 1) * 9 + 12)) (s.mem orig i).frame s
    split
    · rename_i s' heq
      rw [heq] at h
      exact h
    · rename_i child s' heq
      rw [heq] at h
      exact h

lemma duplicateWith_of_no_page (how : Sharing) (level base : ℕ) (orig : Frame) (h : s.free = []) :
    duplicateWith how (level + 1) base orig s = (none, s) := by
  have halloc : s.allocPtPage = none := by rw [allocPtPage, h]
  simp only [duplicateWith, halloc]

/-- The state in which the entries of a new table are gone through. -/
def fresh (s : PtMemory) (orig new : Frame) (fs : List Frame) : PtMemory :=
  copyTable { s with free := fs } orig new

lemma duplicateWith_one (how : Sharing) (base : ℕ) (orig : Frame) (h : s.free = f :: fs) :
    duplicateWith how 1 base orig s = (some f, how.leaves base orig f (s.fresh orig f fs)) := by
  have halloc : s.allocPtPage = some (f, { s with free := fs }) := by rw [allocPtPage, h]
  rw [duplicateWith, halloc]
  dsimp only
  rw [if_pos rfl, fresh]

lemma duplicateWith_succ (how : Sharing) (level base : ℕ) (orig : Frame) (h : s.free = f :: fs) :
    duplicateWith how (level + 2) base orig s =
      match forEntries (duplicateEntry how (level + 2) base (duplicateWith how (level + 1)) orig f)
        entryIndices (s.fresh orig f fs) with
      | (true, s') => (some f, s')
      | (false, s') => (none, s') := by
  have halloc : s.allocPtPage = some (f, { s with free := fs }) := by rw [allocPtPage, h]
  have hlevel : ¬level + 1 = 0 := Nat.succ_ne_zero level
  rw [duplicateWith, halloc]
  simp only [if_neg hlevel, fresh]

/-- A copy takes its first page at once, and gives none back. -/
lemma duplicateWith_free (hhow : how.KeepsFree) (level base : ℕ) (orig : Frame) (s : PtMemory) :
    (duplicateWith how (level + 1) base orig s).2.free <:+ s.free.tail := by
  induction level generalizing base orig s with
  | zero =>
    cases hfree : s.free with
    | nil => rw [duplicateWith_of_no_page how 0 base orig hfree, hfree, tail_nil]
    | cons f fs =>
      rw [duplicateWith_one how base orig hfree, hhow.leaves]
      exact suffix_refl _
  | succ level ih =>
    cases hfree : s.free with
    | nil => rw [duplicateWith_of_no_page how _ base orig hfree, hfree, tail_nil]
    | cons f fs =>
      have hdup : ∀ base t s, (duplicateWith how (level + 1) base t s).2.free <:+ s.free :=
        fun base t s => (ih base t s).trans (tail_suffix _)
      have hloop := forEntries_keeps (P := fun s' => s'.free <:+ fs)
        (fun i s' hs' => (duplicateEntry_free hhow (level + 2) base hdup orig f i s').trans hs')
        entryIndices (s := s.fresh orig f fs) (suffix_refl _)
      rw [duplicateWith_succ how level base orig hfree]
      split
      all_goals
        rename_i s' heq
        rw [heq] at hloop
        exact hloop

/-- The reference counts, the WRITABLE bits of the parent's entries and the pages that are
free are as before. -/
structure NoEffect (root : Frame) (s s' : PtMemory) : Prop where
  refs : s'.refs = s.refs
  writable : ∀ t ∈ tables s.mem 4 root, ∀ i,
    (s'.mem t i).attrs.writable = (s.mem t i).attrs.writable
  free : s'.free.Perm s.free

lemma noEffect_duplicateWith_iff (hhow : how.KeepsFree) (base : ℕ) (root : Frame) (s : PtMemory) :
    NoEffect root s (duplicateWith how 4 base root s).2 ↔ s.free = [] := by
  constructor
  · intro h
    have hsuffix := (duplicateWith_free hhow 3 base root s).length_le
    have hlen := h.free.length_eq
    rw [hlen, length_tail] at hsuffix
    exact eq_nil_of_length_eq_zero (by omega)
  · intro hfree
    rw [duplicateWith_of_no_page how 3 base root hfree]
    exact ⟨rfl, fun _ _ _ => rfl, List.Perm.refl _⟩

/-- A fork that fails has no effect exactly if its first allocation fails. -/
theorem failed_fork_noEffect_iff (root : Frame) (s : PtMemory) :
    ((duplicateTable 4 root s).1 = none →
      (NoEffect root s (duplicateTable 4 root s).2 ↔ s.free = [])) ∧
    ((duplicateTableGhost 4 0 root s).1 = none →
      (NoEffect root s (duplicateTableGhost 4 0 root s).2 ↔ s.free = [])) :=
  ⟨fun _ => noEffect_duplicateWith_iff forkSharing_keepsFree 0 root s,
    fun _ => noEffect_duplicateWith_iff ghostSharing_keepsFree 0 root s⟩

/-- A writable page in one page table, and a second page table, with the given free pages. -/
def twoPageTables (free : List Frame) : PtMemory where
  mem t i :=
    match t, i with
    | 1, 0 => ⟨2, .intermediate⟩
    | 2, 0 => ⟨3, .intermediate⟩
    | 3, 0 => ⟨4, .intermediate⟩
    | 3, 1 => ⟨5, .intermediate⟩
    | 4, 0 => ⟨100, .intermediate⟩
    | _, _ => 0
  free := free
  refs f := if f = 100 then 1 else 0
  cowAddrs := []

theorem failed_fork_noEffect_without_pages :
    NoEffect 1 (twoPageTables []) (duplicateTable 4 1 (twoPageTables [])).2 ∧
      NoEffect 1 (twoPageTables []) (duplicateTableGhost 4 0 1 (twoPageTables [])).2 :=
  ⟨((failed_fork_noEffect_iff 1 (twoPageTables [])).1 (by decide +kernel)).mpr rfl,
    ((failed_fork_noEffect_iff 1 (twoPageTables [])).2 (by decide +kernel)).mpr rfl⟩

/-- The fifth allocation fails, that of the copy of the second page table. The page is
counted twice and can no longer be written by the parent, and four pages are lost. -/
theorem failed_fork_leaves_traces :
    let s := twoPageTables [10, 11, 12, 13]
    let forked := duplicateTable 4 1 s
    let ghost := duplicateTableGhost 4 0 1 s
    (s.refs 100 = 1 ∧ (s.mem 4 0).attrs.writable = true) ∧
    (forked.1 = none ∧ forked.2.refs 100 = 2 ∧ (forked.2.mem 4 0).attrs.writable = false ∧
      forked.2.free = []) ∧
    (ghost.1 = none ∧ (ghost.2.mem 4 0).attrs.writable = false ∧ ghost.2.free = []) := by
  decide +kernel

end PtMemory

end Kevlar
