import Kevlar.PageTable
import Kevlar.RadixTree

/-!
# Well-formed page tables and what they map

The tables below a root form a radix tree of fan-out 512. `Tree` says that the
tables of the user half are distinct, that every intermediate entry is empty,
a permissive link to a table or (in a page directory) a present 2 MB leaf, and
that the allocator's frames are outside the tree. `view` is the abstract
address space: for each 2 MB region nothing, a table of 512 entries or a 2 MB
leaf. The walks of the kernel are then read as operations on the view.
-/
namespace Kevlar
open Entry Radix Function Option

namespace PageAttrs

/-- The permissions a leaf keeps under an intermediate entry. -/
def restrict (upper a : PageAttrs) : PageAttrs :=
  { a with
    writable := upper.writable && a.writable
    user := upper.user && a.user
    noExecute := upper.noExecute || a.noExecute }

structure Permissive (a : PageAttrs) : Prop where
  present : a.present = true
  writable : a.writable = true
  user : a.user = true
  executable : a.noExecute = false
  not_huge : a.hugePage = false

lemma intermediate_permissive : intermediate.Permissive := ⟨rfl, rfl, rfl, rfl, rfl⟩

lemma Permissive.restrict {upper : PageAttrs} (h : upper.Permissive) (a : PageAttrs) :
    upper.restrict a = a := by
  simp [PageAttrs.restrict, h.writable, h.user, h.executable]

end PageAttrs

/-- The translation of a page by the MMU: the frame and the effective flags. -/
def translate (mem : Frame → ℕ → Entry) (pml4 : Frame) (page : ℕ) : Option Entry :=
  let e4 := mem pml4 (page / 512 / 512 / 512 % 512)
  let e3 := mem e4.frame (page / 512 / 512 % 512)
  let e2 := mem e3.frame (page / 512 % 512)
  let e1 := mem e2.frame (page % 512)
  if e4.attrs.present && e3.attrs.present && e2.attrs.present then
    if e2.attrs.hugePage then
      some ⟨e2.frame + page % 512, e4.attrs.restrict (e3.attrs.restrict e2.attrs.clearHuge)⟩
    else if e1.attrs.present then
      some ⟨e1.frame, e4.attrs.restrict (e3.attrs.restrict (e2.attrs.restrict e1.attrs))⟩
    else none
  else none

/-- What one 2 MB region holds. -/
inductive PdeView
  | empty
  | table (entries : ℕ → Entry)
  | huge (entry : Entry)

/-- An abstract address space, by region number. -/
abbrev Space := ℕ → PdeView

namespace Space

/-- The translation of a page in an abstract address space. -/
def translate (s : Space) (page : ℕ) : Option Entry :=
  match s (page / 512) with
  | .empty => none
  | .table pt => if (pt (page % 512)).attrs.present then some (pt (page % 512)) else none
  | .huge e => some ⟨e.frame + page % 512, e.attrs.clearHuge⟩

section

variable {s : Space} {page : ℕ}

lemma translate_of_empty (h : s (page / 512) = .empty) : s.translate page = none := by
  simp only [translate, h]

lemma translate_of_table {pt : ℕ → Entry} (h : s (page / 512) = .table pt) :
    s.translate page =
      if (pt (page % 512)).attrs.present then some (pt (page % 512)) else none := by
  simp only [translate, h]

lemma translate_of_huge {e : Entry} (h : s (page / 512) = .huge e) :
    s.translate page = some ⟨e.frame + page % 512, e.attrs.clearHuge⟩ := by
  simp only [translate, h]

end

end Space

/-- A 2 MB leaf: present, with PS, on a 2 MB boundary. -/
structure Entry.IsHugeLeaf (e : Entry) : Prop where
  present : e.attrs.present = true
  huge : e.attrs.hugePage = true
  frame_ne : e.frame ≠ 0
  aligned : e.frame % 512 = 0

/-- A link to a table. -/
structure Entry.IsLink (e : Entry) : Prop where
  frame_ne : e.frame ≠ 0
  permissive : e.attrs.Permissive

/-- The table an entry of depth `d` at position `q` refers to. Entries of the
kernel half are not followed, nor are the page directory entries in `X`. -/
def childTable (X : Finset ℕ) (d q : ℕ) (e : Entry) : Option Frame :=
  if e.frame = 0 ∨ 3 ≤ d ∨ (d = 0 ∧ 256 ≤ q) ∨ (d = 2 ∧ (e.attrs.hugePage = true ∨ q ∈ X))
  then none else some e.frame

/-- Positions whose entries are part of the tree. -/
structure InTree (X : Finset ℕ) (d q : ℕ) : Prop where
  depth : d < 3
  user : d = 0 → q < 256
  kept : d = 2 → q ∉ X

def SlotOk (d : ℕ) (e : Entry) : Prop := e = 0 ∨ e.IsLink ∨ (d = 2 ∧ e.IsHugeLeaf)

section

variable (X : Finset ℕ) (mc : Machine) (root : Frame)

/-- The table of depth `d` at position `q`: depth 0 is the root, 1 a page
directory pointer table, 2 a page directory, 3 a leaf page table. -/
abbrev tableAt (d q : ℕ) : Option Frame := Radix.node 512 (childTable X) mc.mem root d q

abbrev IsTable (f : Frame) : Prop := Radix.IsNode 512 (childTable X) mc.mem root f

/-- The 2 MB leaf of a region. -/
def hugeAt (r : ℕ) : Option Entry :=
  (tableAt X mc root 2 (r / 512)).bind fun pd =>
    if (mc.mem pd (r % 512)).isHugePagePde then some (mc.mem pd (r % 512)) else none

def view : Space := fun r =>
  match hugeAt X mc root r with
  | some e => .huge e
  | none =>
    match tableAt X mc root 3 r with
    | some pt => .table (mc.mem pt)
    | none => .empty

/-- A well-formed page table, apart from the page directory entries in `X`. -/
structure Tree : Prop where
  distinct : Radix.Distinct 512 (childTable X) mc.mem root
  slot : ∀ d q t, InTree X d q → tableAt X mc root d (q / 512) = some t →
    SlotOk d (mc.mem t (q % 512))
  free_nodup : mc.free.Nodup
  free_ne_zero : 0 ∉ mc.free
  free_apart : ∀ f ∈ mc.free, ¬IsTable X mc root f

end

variable {X : Finset ℕ} {mc mc' : Machine} {root t : Frame} {d q r : ℕ} {e : Entry}

@[simp] lemma childTable_zero : childTable X d q 0 = none := by
  simp [childTable]

@[simp] lemma childTable_three : childTable X 3 q e = none := by
  simp [childTable]

lemma childTable_link (hq : InTree X d q) (he : e.IsLink) :
    childTable X d q e = some e.frame := by
  have hd := hq.depth
  have hu := hq.user
  have hk := hq.kept
  have hn := he.frame_ne
  have hh := he.permissive.not_huge
  rw [childTable, if_neg]
  rintro (h | h | ⟨h, h'⟩ | ⟨h, h' | h'⟩)
  · exact hn h
  · omega
  · have := hu h
    omega
  · simp [hh] at h'
  · exact hk h h'

lemma childTable_huge (he : e.IsHugeLeaf) : childTable X 2 q e = none := by
  simp [childTable, he.huge]

lemma isHugePagePde_iff (h : SlotOk 2 e) : e.isHugePagePde = true ↔ e.IsHugeLeaf := by
  rcases h with rfl | h | ⟨-, h⟩
  · constructor
    · intro h
      simp [isHugePagePde, PageAttrs.empty] at h
    · intro h
      exact absurd rfl h.frame_ne
  · constructor
    · intro hh
      simp [isHugePagePde, h.permissive.not_huge] at hh
    · intro hh
      have := hh.huge
      simp [h.permissive.not_huge] at this
  · simp [isHugePagePde, h.huge, h.present, h]

variable {f pt pd c : Frame} {p : ℕ}

lemma intermediate_isLink (hf : f ≠ 0) : (⟨f, .intermediate⟩ : Entry).IsLink :=
  ⟨hf, PageAttrs.intermediate_permissive⟩

lemma Machine.write_mem (i j : ℕ) :
    (mc.write t i e).mem f j = if f = t ∧ j = i then e else mc.mem f j := by
  by_cases hf : f = t
  · subst hf
    by_cases hj : j = i
    all_goals simp [Machine.write, hj]
  · simp [Machine.write, hf]

@[simp] lemma Machine.write_free (i : ℕ) : (mc.write t i e).free = mc.free := by
  rw [write]

lemma Machine.write_mem_ne (mc : Machine) {t : Frame} (i : ℕ) (e : Entry) (h : f ≠ t) :
    (mc.write t i e).mem f = mc.mem f := by
  simp [Machine.write, h]

section

variable (T : Tree X mc root) (ht : tableAt X mc root d (q / 512) = some t)
  (hchild : childTable X d q e = childTable X d q (mc.mem t (q % 512)))
include T ht hchild

/-- Rewriting an entry without changing what it refers to keeps all tables. -/
lemma Tree.tableAt_write : tableAt X (mc.write t (q % 512) e) root = tableAt X mc root := by
  apply node_congr
  intro d' q' t' ht'
  rw [Machine.write_mem]
  split_ifs with h
  · obtain ⟨rfl, hmod⟩ := h
    obtain ⟨rfl, hdiv⟩ := T.distinct _ _ _ _ _ ht' ht
    have hq : q' = q := by omega
    rw [hq, hchild]
  · rfl

lemma Tree.write (hslot : InTree X d q → SlotOk d e) : Tree X (mc.write t (q % 512) e) root := by
  have htab := T.tableAt_write ht hchild
  refine ⟨T.distinct.congr htab, ?_, T.free_nodup, T.free_ne_zero, ?_⟩
  · intro d' q' t' hin ht'
    rw [htab] at ht'
    rw [Machine.write_mem]
    split_ifs with h
    · obtain ⟨rfl, hmod⟩ := h
      obtain ⟨rfl, hdiv⟩ := T.distinct _ _ _ _ _ ht' ht
      have hq : q' = q := by omega
      exact hslot (hq ▸ hin)
    · exact T.slot d' q' t' hin ht'
  · intro f hf htable
    exact T.free_apart f hf ((isNode_congr htab f).mp htable)

lemma Tree.hugeAt_write (r : ℕ) : hugeAt X (mc.write t (q % 512) e) root r =
      if d = 2 ∧ r = q then (if e.isHugePagePde then some e else none)
      else hugeAt X mc root r := by
  unfold hugeAt
  rw [T.tableAt_write ht hchild]
  cases hpd : tableAt X mc root 2 (r / 512) with
  | none =>
    have hne : ¬(d = 2 ∧ r = q) := by
      rintro ⟨rfl, rfl⟩
      rw [hpd] at ht
      cases ht
    rw [if_neg hne]
    rfl
  | some pd =>
    simp only [bind_some, Machine.write_mem]
    by_cases h : pd = t ∧ r % 512 = q % 512
    · obtain ⟨rfl, hmod⟩ := h
      obtain ⟨rfl, hdiv⟩ := T.distinct _ _ _ _ _ hpd ht
      rw [if_pos (show pd = pd ∧ r % 512 = q % 512 from ⟨rfl, hmod⟩),
        if_pos (show 2 = 2 ∧ r = q by omega)]
    · have hne : ¬(d = 2 ∧ r = q) := by
        rintro ⟨rfl, rfl⟩
        rw [hpd] at ht
        exact h ⟨some.inj ht, rfl⟩
      rw [if_neg h, if_neg hne]

end

/-- Linking a fresh frame into an empty position adds exactly that table. -/
structure Linked (X : Finset ℕ) (root : Frame) (mc mc' : Machine) (d q : ℕ) (t c : Frame) :
    Prop where
  inTree : InTree X d q
  parent : tableAt X mc root d (q / 512) = some t
  missing : tableAt X mc root (d + 1) q = none
  fresh : c ∈ mc.free
  free : mc'.free = mc.free.erase c
  entry : mc'.mem t (q % 512) = ⟨c, .intermediate⟩
  zero : d < 2 → mc'.mem c = 0
  other : ∀ f i, f ≠ c → ¬(f = t ∧ i = q % 512) → mc'.mem f i = mc.mem f i

namespace Linked

variable {c : Frame}

lemma tableAt_eq (T : Tree X mc root) (L : Linked X root mc mc' d q t c) (d' q' : ℕ) :
    tableAt X mc' root d' q' = if d' = d + 1 ∧ q' = q then some c else tableAt X mc root d' q' := by
  have hc0 : c ≠ 0 := fun h => T.free_ne_zero (h ▸ L.fresh)
  apply node_link T.distinct L.parent (T.free_apart c L.fresh)
  · rw [← node_succ L.parent]
    exact L.missing
  · rw [L.entry, childTable_link L.inTree (intermediate_isLink hc0)]
  · intro q' i
    have hd := L.inTree.depth
    by_cases h : d < 2
    · simp [L.zero h]
    · have h3 : d + 1 = 3 := by omega
      rw [h3, childTable_three]
  · exact L.other

variable {f : Frame}

section

variable (T : Tree X mc root) (L : Linked X root mc mc' d q t c)
include T L

lemma tables {d' q' : ℕ} (h : tableAt X mc root d' q' = some f) :
    tableAt X mc' root d' q' = some f := by
  rw [L.tableAt_eq T, if_neg, h]
  rintro ⟨rfl, rfl⟩
  rw [L.missing] at h
  cases h

lemma isTable (h : IsTable X mc' root f) : f = c ∨ IsTable X mc root f := by
  obtain ⟨d', q', h'⟩ := h
  rw [show node 512 _ _ _ d' q' = _ from L.tableAt_eq T d' q'] at h'
  split_ifs at h' with hq
  · exact .inl (some.inj h').symm
  · exact .inr ⟨d', q', h'⟩

lemma tree : Tree X mc' root := by
  have hc0 : c ≠ 0 := fun h => T.free_ne_zero (h ▸ L.fresh)
  have hnotin : c ∉ mc'.free := by
    rw [L.free]
    exact fun h => (T.free_nodup.mem_erase_iff.mp h).1 rfl
  refine ⟨T.distinct.link (T.free_apart c L.fresh) (L.tableAt_eq T), ?_, ?_, ?_, ?_⟩
  · intro d' q' f hin hf
    rw [L.tableAt_eq T] at hf
    split_ifs at hf with hq
    · have hfc := some.inj hf
      have hd := hin.depth
      rw [← hfc, L.zero (by omega)]
      exact .inl rfl
    · have hfc : f ≠ c := fun h => T.free_apart c L.fresh ⟨d', q' / 512, h ▸ hf⟩
      by_cases hslot : f = t ∧ q' % 512 = q % 512
      · rw [hslot.1, hslot.2, L.entry]
        exact .inr (.inl (intermediate_isLink hc0))
      · rw [L.other f _ hfc hslot]
        exact T.slot d' q' f hin hf
  · rw [L.free]
    exact T.free_nodup.erase c
  · rw [L.free]
    exact fun h => T.free_ne_zero (List.mem_of_mem_erase h)
  · intro f hf htab
    rcases L.isTable T htab with rfl | h
    · exact hnotin hf
    · rw [L.free] at hf
      exact T.free_apart f (List.mem_of_mem_erase hf) h

lemma hugeAt_eq (r : ℕ) :
    hugeAt X mc' root r = if d = 2 ∧ r = q then none else hugeAt X mc root r := by
  unfold hugeAt
  rw [L.tableAt_eq T]
  by_cases hnew : 2 = d + 1 ∧ r / 512 = q
  · have hmiss : tableAt X mc root 2 (r / 512) = none := by
      rw [hnew.1, hnew.2]
      exact L.missing
    rw [if_pos hnew, if_neg (by omega), hmiss, bind_some, L.zero (by omega)]
    rfl
  · rw [if_neg hnew]
    cases hpd : tableAt X mc root 2 (r / 512) with
    | none =>
      split_ifs <;> rfl
    | some pd =>
      have hpc : pd ≠ c := fun h => T.free_apart c L.fresh ⟨2, r / 512, h ▸ hpd⟩
      simp only [bind_some]
      by_cases hslot : pd = t ∧ r % 512 = q % 512
      · obtain ⟨hd, hdiv⟩ := T.distinct _ _ _ _ _ hpd (hslot.1 ▸ L.parent)
        rw [hslot.1, hslot.2, L.entry, if_pos (show d = 2 ∧ r = q by omega)]
        rfl
      · have hne : ¬(d = 2 ∧ r = q) := by
          rintro ⟨rfl, rfl⟩
          rw [L.parent] at hpd
          exact hslot ⟨(some.inj hpd).symm, rfl⟩
        rw [if_neg hne, L.other pd _ hpc hslot]

end

end Linked

lemma view_huge (h : hugeAt X mc root r = some e) : view X mc root r = .huge e := by
  simp [view, h]

lemma hugeAt_eq_none_of_table (h : tableAt X mc root 3 r = some pt) :
    hugeAt X mc root r = none := by
  obtain ⟨pd, hpd, hchild⟩ := exists_parent h
  have hnot : (mc.mem pd (r % 512)).attrs.hugePage = false := by
    by_contra hcon
    simp [childTable, hcon] at hchild
  simp [hugeAt, tableAt, hpd, isHugePagePde, hnot]

lemma view_table (h : tableAt X mc root 3 r = some pt) :
    view X mc root r = .table (mc.mem pt) := by
  simp only [view, hugeAt_eq_none_of_table h, h]

lemma view_empty (hh : hugeAt X mc root r = none) (ht : tableAt X mc root 3 r = none) :
    view X mc root r = .empty := by
  simp only [view, hh, ht]

lemma view_congr {X' : Finset ℕ} (hh : hugeAt X' mc' root r = hugeAt X mc root r)
    (ht : tableAt X' mc' root 3 r = tableAt X mc root 3 r)
    (hpt : ∀ pt, tableAt X mc root 3 r = some pt → mc'.mem pt = mc.mem pt) :
    view X' mc' root r = view X mc root r := by
  simp only [view, hh, ht]
  cases h : tableAt X mc root 3 r with
  | none => rfl
  | some pt => simp only [hpt pt h]

section

variable (T : Tree X mc root)
include T

/-- An entry above the leaf tables that keeps its reference and does not touch
a 2 MB leaf leaves the view alone. -/
lemma Tree.view_write_link (hq : InTree X d q) (ht : tableAt X mc root d (q / 512) = some t)
    (hold : (mc.mem t (q % 512)).IsLink) (hnew : e.IsLink)
    (hframe : e.frame = (mc.mem t (q % 512)).frame) :
    view X (mc.write t (q % 512) e) root = view X mc root := by
  have hchild : childTable X d q e = childTable X d q (mc.mem t (q % 512)) := by
    rw [childTable_link hq hnew, childTable_link hq hold, hframe]
  have hd := hq.depth
  funext r
  apply view_congr
  · rw [T.hugeAt_write ht hchild]
    split_ifs with h h'
    · simp [isHugePagePde, hnew.permissive.not_huge] at h'
    · rw [h.1] at ht
      simp [hugeAt, h.2, ht, isHugePagePde, hold.permissive.not_huge]
    · rfl
  · rw [T.tableAt_write ht hchild]
  · intro pt hpt
    apply Machine.write_mem_ne
    rintro rfl
    have := (T.distinct _ _ _ _ _ hpt ht).1
    omega

/-- A leaf table entry is written in the view of its region. -/
lemma Tree.view_write_pte (hpt : tableAt X mc root 3 (p / 512) = some pt) (e : Entry) :
    Tree X (mc.write pt (p % 512) e) root ∧
      view X (mc.write pt (p % 512) e) root = update (view X mc root) (p / 512)
        (.table (update (mc.mem pt) (p % 512) e)) := by
  have hchild : childTable X 3 p e = childTable X 3 p (mc.mem pt (p % 512)) := by simp
  have htab := T.tableAt_write hpt hchild
  refine ⟨T.write hpt hchild fun h => absurd h.depth (by omega), ?_⟩
  funext r
  by_cases hr : r = p / 512
  · have hpt' : tableAt X (mc.write pt (p % 512) e) root 3 r = some pt := by
      rw [htab, hr]
      exact hpt
    rw [hr, update_self, view_table (hr ▸ hpt')]
    simp [Machine.write]
  · rw [update_of_ne hr]
    apply view_congr
    · rw [T.hugeAt_write hpt hchild, if_neg (by omega)]
    · rw [htab]
    · intro pt' hpt'
      apply Machine.write_mem_ne
      rintro rfl
      exact hr (T.distinct _ _ _ _ _ hpt' hpt).2

/-- A page directory entry that refers to no table before and after is written
in the view of its region. -/
lemma Tree.view_write_pde (hpd : tableAt X mc root 2 (r / 512) = some pd)
    (hnone : tableAt X mc root 3 r = none) (he : e.IsHugeLeaf) :
    Tree X (mc.write pd (r % 512) e) root ∧
      view X (mc.write pd (r % 512) e) root =
        update (view X mc root) r (.huge e) := by
  have hchild : childTable X 2 r e = childTable X 2 r (mc.mem pd (r % 512)) := by
    rw [childTable_huge he, ← node_succ hpd]
    exact hnone.symm
  have hhuge : e.isHugePagePde = true := by
    simp [isHugePagePde, he.huge, he.present]
  refine ⟨T.write hpd hchild fun _ => .inr (.inr ⟨rfl, he⟩), ?_⟩
  funext r'
  by_cases hr : r' = r
  · rw [hr, update_self]
    apply view_huge
    rw [T.hugeAt_write hpd hchild, if_pos ⟨rfl, rfl⟩, if_pos hhuge]
  · rw [update_of_ne hr]
    apply view_congr
    · rw [T.hugeAt_write hpd hchild, if_neg (by omega)]
    · rw [T.tableAt_write hpd hchild]
    · intro pt hpt
      apply Machine.write_mem_ne
      rintro rfl
      have := (T.distinct _ _ _ _ _ hpt hpd).1
      omega

/-- A fresh table of depth 3 shows as the table it holds, and a fresh empty
table higher up shows nothing. -/
lemma Linked.view_eq (L : Linked X root mc mc' d q t c) : view X mc' root =
      if d = 2 then update (view X mc root) q (.table (mc'.mem c))
      else view X mc root := by
  have hd := L.inTree.depth
  have hsame : ∀ r, ¬(d = 2 ∧ r = q) → view X mc' root r = view X mc root r := by
    intro r hr
    apply view_congr
    · rw [L.hugeAt_eq T, if_neg hr]
    · rw [L.tableAt_eq T, if_neg (by omega)]
    · intro pt hpt
      funext i
      have hpc : pt ≠ c := fun h => T.free_apart c L.fresh ⟨3, r, h ▸ hpt⟩
      apply L.other pt i hpc
      rintro ⟨rfl, -⟩
      have := (T.distinct _ _ _ _ _ hpt L.parent).1
      omega
  split_ifs with h2
  · funext r
    by_cases hr : r = q
    · rw [hr, update_self]
      apply view_table
      rw [L.tableAt_eq T, if_pos ⟨by omega, rfl⟩]
    · rw [update_of_ne hr, hsame r (by omega)]
  · funext r
    exact hsame r (by omega)

end

/-- A root whose user half is empty is a well-formed table that maps nothing. -/
lemma tree_of_empty_root (X : Finset ℕ) (mc : Machine) (root : Frame)
    (hroot : ∀ i < 256, mc.mem root i = 0) (hnodup : mc.free.Nodup) (hzero : 0 ∉ mc.free)
    (hfree : root ∉ mc.free) :
    Tree X mc root ∧ view X mc root = fun _ => .empty := by
  have hnone : ∀ d q, tableAt X mc root (d + 1) q = none := by
    intro d
    induction d with
    | zero =>
      intro q
      by_cases hq : q / 512 = 0
      · have hparent : tableAt X mc root 0 (q / 512) = some root := by rw [hq]; rfl
        rw [show tableAt X mc root 1 q = _ from node_succ hparent]
        by_cases hq' : q < 256
        · rw [hroot _ (by omega), childTable_zero]
        · rw [childTable, if_pos (by omega)]
      · exact node_succ_none (if_neg hq)
    | succ d ih =>
      intro q
      exact node_succ_none (ih _)
  have honly : ∀ d q t, tableAt X mc root d q = some t → d = 0 ∧ q = 0 ∧ t = root := by
    intro d q t ht
    cases d with
    | zero =>
      have hq : q = 0 := by
        by_contra hcon
        rw [show tableAt X mc root 0 q = none from if_neg hcon] at ht
        cases ht
      rw [hq] at ht
      exact ⟨rfl, hq, (some.inj ht).symm⟩
    | succ d =>
      rw [hnone] at ht
      cases ht
  refine ⟨⟨?_, ?_, hnodup, hzero, ?_⟩, ?_⟩
  · intro d q d' q' t h h'
    obtain ⟨hd, hq, -⟩ := honly d q t h
    obtain ⟨hd', hq', -⟩ := honly d' q' t h'
    exact ⟨hd.trans hd'.symm, hq.trans hq'.symm⟩
  · intro d q t hin ht
    obtain ⟨rfl, hq, rfl⟩ := honly d _ t ht
    rw [hroot _ (by have := hin.user rfl; omega)]
    exact .inl rfl
  · rintro f hf ⟨d, q, h⟩
    exact hfree ((honly d q f h).2.2 ▸ hf)
  · funext r
    exact view_empty (by simp [hugeAt, hnone 1]) (hnone 2 r)

lemma Tree.isHugeLeaf (T : Tree X mc root) (hX : r ∉ X) (h : hugeAt X mc root r = some e) :
    e.IsHugeLeaf := by
  obtain ⟨pd, hpd, he⟩ := bind_eq_some_iff.mp h
  split_ifs at he with hh
  have hslot := T.slot 2 r pd ⟨by omega, by omega, fun _ => hX⟩ hpd
  rw [← some.inj he]
  exact (isHugePagePde_iff hslot).mp hh

/-- What every walk and every leaf write does to the rest of memory: tables
stay tables, new ones come from the allocator, data frames are not written. -/
structure Grows (X : Finset ℕ) (root : Frame) (mc mc' : Machine) : Prop where
  tree : Tree X mc' root
  tables : ∀ d q t, tableAt X mc root d q = some t → tableAt X mc' root d q = some t
  taken : ∀ f, IsTable X mc' root f ∨ f ∈ mc'.free → IsTable X mc root f ∨ f ∈ mc.free
  data : ∀ f, ¬(IsTable X mc root f ∨ f ∈ mc.free) → mc'.mem f = mc.mem f
  exempt : ∀ r ∈ X, ∀ pd, tableAt X mc root 2 (r / 512) = some pd →
    mc'.mem pd (r % 512) = mc.mem pd (r % 512)
  upper : ∀ i, 256 ≤ i → mc'.mem root i = mc.mem root i

lemma Grows.refl (T : Tree X mc root) : Grows X root mc mc :=
  ⟨T, fun _ _ _ h => h, fun _ h => h, fun _ _ => rfl, fun _ _ _ _ => rfl, fun _ _ => rfl⟩

lemma Grows.trans {mc₁ mc₂ mc₃ : Machine} (h : Grows X root mc₁ mc₂)
    (h' : Grows X root mc₂ mc₃) : Grows X root mc₁ mc₃ where
  tree := h'.tree
  tables d q t ht := h'.tables d q t (h.tables d q t ht)
  taken f hf := h.taken f (h'.taken f hf)
  data f hf := (h'.data f fun h₂ => hf (h.taken f h₂)).trans (h.data f hf)
  exempt r hr pd hpd := (h'.exempt r hr pd (h.tables 2 _ pd hpd)).trans (h.exempt r hr pd hpd)
  upper i hi := (h'.upper i hi).trans (h.upper i hi)

section

variable (T : Tree X mc root)
include T

lemma Tree.grows_write (ht : tableAt X mc root d (q / 512) = some t)
    (hchild : childTable X d q e = childTable X d q (mc.mem t (q % 512)))
    (hslot : d < 3 → InTree X d q ∧ SlotOk d e) : Grows X root mc (mc.write t (q % 512) e) := by
  have htab := T.tableAt_write ht hchild
  refine ⟨T.write ht hchild fun h => (hslot h.depth).2, ?_, ?_, ?_, ?_, ?_⟩
  · intro d' q' t' h
    rw [htab]
    exact h
  · rintro f (hf | hf)
    · exact .inl ((isNode_congr htab f).mp hf)
    · exact .inr hf
  · intro f hf
    apply Machine.write_mem_ne
    rintro rfl
    exact hf (.inl ⟨d, q / 512, ht⟩)
  · intro r hr pd hpd
    rw [Machine.write_mem, if_neg]
    rintro ⟨rfl, hmod⟩
    obtain ⟨rfl, hdiv⟩ := T.distinct _ _ _ _ _ hpd ht
    exact (hslot (by omega)).1.kept rfl (by rwa [show q = r by omega])
  · intro i hi
    rw [Machine.write_mem, if_neg]
    rintro ⟨rfl, rfl⟩
    obtain ⟨rfl, hdiv⟩ := T.distinct 0 0 _ _ _ rfl ht
    have := (hslot (by omega)).1.user rfl
    omega

lemma Tree.grows_write_pte (hpt : tableAt X mc root 3 (p / 512) = some pt) (e : Entry) :
    Grows X root mc (mc.write pt (p % 512) e) :=
  T.grows_write hpt (by simp) fun h => absurd h (by omega)

lemma Tree.grows_write_pde (hpd : tableAt X mc root 2 (r / 512) = some pd)
    (hnone : tableAt X mc root 3 r = none) (he : e.IsHugeLeaf) (hX : r ∉ X) :
    Grows X root mc (mc.write pd (r % 512) e) := by
  refine T.grows_write hpd ?_ fun _ =>
    ⟨⟨by omega, by omega, fun _ => hX⟩, .inr (.inr ⟨rfl, he⟩)⟩
  rw [childTable_huge he, ← node_succ hpd]
  exact hnone.symm

lemma Linked.grows (L : Linked X root mc mc' d q t c) : Grows X root mc mc' := by
  refine ⟨L.tree T, fun _ _ _ => L.tables T, ?_, ?_, ?_, ?_⟩
  · rintro f (hf | hf)
    · rcases L.isTable T hf with rfl | hf
      · exact .inr L.fresh
      · exact .inl hf
    · rw [L.free] at hf
      exact .inr (List.mem_of_mem_erase hf)
  · intro f hf
    funext i
    apply L.other
    · rintro rfl
      exact hf (.inr L.fresh)
    · rintro ⟨rfl, -⟩
      exact hf (.inl ⟨d, q / 512, L.parent⟩)
  · intro r hr pd hpd
    apply L.other
    · rintro rfl
      exact T.free_apart pd L.fresh ⟨2, _, hpd⟩
    · rintro ⟨rfl, hmod⟩
      obtain ⟨hd, hdiv⟩ := T.distinct _ _ _ _ _ hpd L.parent
      exact L.inTree.kept hd.symm (by rwa [show q = r by omega])
  · intro i hi
    apply L.other
    · rintro rfl
      exact T.free_apart root L.fresh ⟨0, 0, rfl⟩
    · rintro ⟨rfl, rfl⟩
      obtain ⟨hd, hdiv⟩ := T.distinct 0 0 _ _ _ rfl L.parent
      have := L.inTree.user hd.symm
      omega

end

end Kevlar
