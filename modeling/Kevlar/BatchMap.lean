import Kevlar.PageWalk

/-!
# Mapping a batch of pages

`batch_try_map_user_pages_with_prot` walks to a leaf table with
`traverse_to_pt`, which takes a 2 MB leaf for a link: it rewrites the page
directory entry and returns the first data frame of the leaf as the table. The
regions this happened to are kept in a set `X`; outside of `X` the tables stay
a well-formed tree.
-/
namespace Kevlar
open Nat Machine Space Radix PageAttrs PageTable Finset Function Option

variable {X : Finset ℕ} {mc mc' : Machine} {root f t : Frame} {r i : ℕ} {e : Entry}

/-- A word outside the tables can be written without changing what is mapped. -/
lemma Tree.write_data (T : Tree X mc root) (hf : ¬IsTable X mc root f) (i : ℕ) (e : Entry) :
    tableAt X (mc.write f i e) root = tableAt X mc root ∧ Tree X (mc.write f i e) root ∧
      hugeAt X (mc.write f i e) root = hugeAt X mc root ∧
      view X (mc.write f i e) root = view X mc root := by
  have hmem : ∀ d q t, tableAt X mc root d q = some t → (mc.write f i e).mem t = mc.mem t := by
    intro d q t ht
    apply write_mem_ne
    rintro rfl
    exact hf ⟨d, q, ht⟩
  have htab : tableAt X (mc.write f i e) root = tableAt X mc root := by
    apply node_congr
    intro d q t ht
    rw [hmem d _ t ht]
  have hhuge : hugeAt X (mc.write f i e) root = hugeAt X mc root := by
    funext r
    unfold hugeAt
    rw [htab]
    cases hpd : tableAt X mc root 2 (r / 512) with
    | none => rfl
    | some pd => simp only [bind_some, hmem _ _ pd hpd]
  refine ⟨htab, ⟨T.distinct.congr htab, ?_, T.free_nodup, T.free_ne_zero, ?_⟩, hhuge, ?_⟩
  · intro d q t hin ht
    rw [htab] at ht
    rw [hmem d _ t ht]
    exact T.slot d q t hin ht
  · intro g hg hnode
    exact T.free_apart g hg ((isNode_congr htab g).mp hnode)
  · funext r
    exact view_congr (by rw [hhuge]) (by rw [htab]) fun pt hpt => hmem _ _ pt hpt

/-- Rewriting a 2 MB leaf into a link takes its region out of the tree and
changes nothing else. -/
lemma Tree.hijack (T : Tree X mc root) (hr : r ∉ X) {pd : Frame}
    (hpd : tableAt X mc root 2 (r / 512) = some pd) (hleaf : (mc.mem pd (r % 512)).IsHugeLeaf)
    (e : Entry) :
    tableAt (insert r X) (mc.write pd (r % 512) e) root = tableAt X mc root ∧
      Tree (insert r X) (mc.write pd (r % 512) e) root ∧
      ∀ r' ≠ r,
        hugeAt (insert r X) (mc.write pd (r % 512) e) root r' = hugeAt X mc root r' ∧
        view (insert r X) (mc.write pd (r % 512) e) root r' = view X mc root r' := by
  have hslot : ∀ d q t, tableAt X mc root d (q / 512) = some t →
      (t = pd ∧ q % 512 = r % 512) → d = 2 ∧ q = r := by
    rintro d q t ht ⟨rfl, hmod⟩
    obtain ⟨hd, hdiv⟩ := T.distinct _ _ _ _ _ ht hpd
    exact ⟨hd, by omega⟩
  have hchild : ∀ d q (e' : Entry), ¬(d = 2 ∧ q = r) →
      childTable (insert r X) d q e' = childTable X d q e' := by
    intro d q e' hne
    have hiff : (d = 2 ∧ (e'.attrs.hugePage = true ∨ q ∈ insert r X)) ↔
        (d = 2 ∧ (e'.attrs.hugePage = true ∨ q ∈ X)) := by
      rw [mem_insert]
      constructor
      · rintro ⟨hd, h | h | h⟩
        · exact ⟨hd, .inl h⟩
        · exact absurd ⟨hd, h⟩ hne
        · exact ⟨hd, .inr h⟩
      · rintro ⟨hd, h | h⟩
        · exact ⟨hd, .inl h⟩
        · exact ⟨hd, .inr (.inr h)⟩
    simp only [childTable, hiff]
  have htab : tableAt (insert r X) (mc.write pd (r % 512) e) root = tableAt X mc root := by
    apply node_congr
    intro d q t ht
    rw [write_mem]
    split_ifs with h
    · obtain ⟨rfl, rfl⟩ := hslot d q t ht h
      rw [h.1, childTable_huge hleaf]
      simp [childTable]
    · by_cases hq : d = 2 ∧ q = r
      · obtain ⟨rfl, rfl⟩ := hq
        exact absurd ⟨some.inj (ht.symm.trans hpd), rfl⟩ h
      · exact hchild d q _ hq
  refine ⟨htab, ⟨T.distinct.congr htab, ?_, T.free_nodup, T.free_ne_zero, ?_⟩, ?_⟩
  · intro d q t hin ht
    rw [htab] at ht
    have hne : ¬(t = pd ∧ q % 512 = r % 512) := by
      intro h
      obtain ⟨rfl, rfl⟩ := hslot d q t ht h
      exact hin.kept rfl (mem_insert_self _ _)
    rw [write_mem, if_neg hne]
    exact T.slot d q t ⟨hin.depth, hin.user, fun hd hX => hin.kept hd (mem_insert_of_mem hX)⟩ ht
  · intro g hg hnode
    exact T.free_apart g hg ((isNode_congr htab g).mp hnode)
  · intro r' hr'
    have hhuge : hugeAt (insert r X) (mc.write pd (r % 512) e) root r' = hugeAt X mc root r' := by
      unfold hugeAt
      rw [htab]
      cases hpd' : tableAt X mc root 2 (r' / 512) with
      | none => rfl
      | some pd' =>
        have hne : ¬(pd' = pd ∧ r' % 512 = r % 512) := fun h => hr' (hslot 2 r' pd' hpd' h).2
        simp only [bind_some, write_mem, if_neg hne]
    refine ⟨hhuge, ?_⟩
    refine view_congr hhuge (by rw [htab]) fun pt hpt => ?_
    apply write_mem_ne
    rintro rfl
    have := (T.distinct _ _ _ _ _ hpt hpd).1
    omega

namespace PageTable

/-- The allocating walk to a leaf table: first to the page directory, then one
step without regard to the PS bit. -/
lemma traverseToPt_split (T : Tree X mc root) {vaddr : ℕ} (hv : vaddr < 2 ^ 47)
    {res : Option Frame} (h : traverseToPt mc root vaddr true = some (res, mc')) :
    ∃ pd mc₁, Grows X root mc mc₁ ∧ view X mc₁ root = view X mc root ∧
      tableAt X mc₁ root 2 (region vaddr / 512) = some pd ∧
      descend mc₁ pd (region vaddr % 512) true = some (res, mc') := by
  rw [traverseToPt, show [4, 3, 2] = [4, 3] ++ [2] from rfl, walk_append] at h
  cases hw : walk vaddr true [4, 3] mc root with
  | none => simp [hw] at h
  | some out =>
    obtain ⟨pd, mc₁⟩ := out
    obtain ⟨hg, hpd, hsome, hview⟩ := walk_to_pd T hv hw
    obtain ⟨pd, rfl⟩ := isSome_iff_exists.mp (hsome rfl)
    refine ⟨pd, mc₁, hg, hview, hpd.symm, ?_⟩
    rw [hw] at h
    simp only [walk, index_two] at h
    cases hd : descend mc₁ pd (region vaddr % 512) true with
    | none => simp [hd] at h
    | some out =>
      obtain ⟨pt, mc₂⟩ := out
      cases pt <;> simpa [hd] using h

end PageTable

lemma hugeEntry_touched (v : PdeView) : v.touched.hugeEntry = v.hugeEntry := by
  cases v <;> rfl

lemma Space.translate_touch (s : Space) (r page : ℕ) :
    (s.touch r).translate page = s.translate page := by
  by_cases hr : page / 512 = r
  · subst hr
    cases hs : s (page / 512) with
    | empty =>
      have htouch : s.touch (page / 512) (page / 512) = .table 0 := by
        simp [touch, hs, PdeView.touched]
      rw [translate_of_empty hs, translate_of_table htouch]
      rfl
    | table pt | huge e => rw [touch_of_ne (by simp [hs])]
  · simp only [translate, touch, update_of_ne hr]

/-- The state of a batch over the pages `[first, stop)` that has come to `cur`,
compared with the machine `base` it started from. -/
structure BatchInv (base : Machine) (root : Frame) (first cur stop : ℕ) (X : Finset ℕ)
    (mc : Machine) : Prop where
  tree : Tree X mc root
  taken : ∀ f, IsTable X mc root f ∨ f ∈ mc.free → IsTable ∅ base root f ∨ f ∈ base.free
  hijacked : ∀ r ∈ X, ∃ e pd, hugeAt ∅ base root r = some e ∧
    tableAt X mc root 2 (r / 512) = some pd ∧ mc.mem pd (r % 512) = ⟨e.frame, .intermediate⟩
  inRange : ∀ r ∈ X, ∃ page, first ≤ page ∧ page < stop ∧ page / 512 = r
  huge : ∀ r, r ∉ X → hugeAt X mc root r = hugeAt ∅ base root r
  reached : ∀ page, first ≤ page → page < cur → page / 512 ∉ X →
    hugeAt ∅ base root (page / 512) = none
  leaf : ∀ page, page / 512 ∉ X →
    (view X mc root).translate page = (view ∅ base root).translate page ∨
      (first ≤ page ∧ page < cur ∧ (view ∅ base root).translate page = none)
  data : ∀ f, ¬(IsTable ∅ base root f ∨ f ∈ base.free) → ∀ j,
    mc.mem f j = base.mem f j ∨
      (base.mem f j = 0 ∧ j < 512 ∧ ∃ r ∈ X, ∃ e, hugeAt ∅ base root r = some e ∧ f = e.frame)
  upper : ∀ i, 256 ≤ i → mc.mem root i = base.mem root i

/-- The block a chunk of the batch writes to: the leaf table of the region, or
the first data frame of a 2 MB leaf that was taken for a link. -/
def BatchTarget (base : Machine) (root : Frame) (X : Finset ℕ) (mc : Machine) (r : ℕ)
    (pt : Frame) : Prop :=
  (r ∉ X ∧ tableAt X mc root 3 r = some pt) ∨
    (r ∈ X ∧ ∃ e, hugeAt ∅ base root r = some e ∧ pt = e.frame)

namespace BatchInv

variable {base : Machine} {first cur stop : ℕ}

lemma start (T : Tree ∅ base root) : BatchInv base root first first stop ∅ base where
  tree := T
  taken _ h := h
  hijacked r hr := absurd hr (notMem_empty r)
  inRange r hr := absurd hr (notMem_empty r)
  huge _ _ := rfl
  reached page h h' := by omega
  leaf _ _ := .inl rfl
  data _ _ _ := .inl rfl
  upper _ _ := rfl

/-- A step that only grows the tree, and changes translations only as the
invariant allows. -/
lemma grow (I : BatchInv base root first cur stop X mc) (hg : Grows X root mc mc')
    (hhuge : hugeAt X mc' root = hugeAt X mc root)
    (hleaf : ∀ page, page / 512 ∉ X →
      (view X mc' root).translate page = (view X mc root).translate page ∨
        (first ≤ page ∧ page < cur ∧ (view ∅ base root).translate page = none)) :
    BatchInv base root first cur stop X mc' where
  tree := hg.tree
  taken f hf := I.taken f (hg.taken f hf)
  hijacked r hr := by
    obtain ⟨e, pd, he, hpd, hmem⟩ := I.hijacked r hr
    exact ⟨e, pd, he, hg.tables 2 _ pd hpd, (hg.exempt r hr pd hpd).trans hmem⟩
  inRange := I.inRange
  huge r hr := by rw [hhuge, I.huge r hr]
  reached := I.reached
  leaf page hp := by
    rcases hleaf page hp with h | h
    · rw [h]
      exact I.leaf page hp
    · exact .inr h
  data f hf j := by
    rw [hg.data f fun h => hf (I.taken f h)]
    exact I.data f hf j
  upper i hi := (hg.upper i hi).trans (I.upper i hi)

lemma advance (I : BatchInv base root first cur stop X mc)
    (hh : cur / 512 ∉ X → hugeAt ∅ base root (cur / 512) = none) :
    BatchInv base root first (cur + 1) stop X mc where
  tree := I.tree
  taken := I.taken
  hijacked := I.hijacked
  inRange := I.inRange
  huge := I.huge
  reached page h h' hX := by
    by_cases hp : page = cur
    · rw [hp] at hX ⊢
      exact hh hX
    · exact I.reached page h (by omega) hX
  leaf page hp := by
    rcases I.leaf page hp with h | ⟨h, h', hn⟩
    · exact .inl h
    · exact .inr ⟨h, by omega, hn⟩
  data := I.data
  upper := I.upper

section

variable (I : BatchInv base root first cur stop X mc)
include I

/-- A region whose 2 MB leaf is rewritten into a link leaves the tree. -/
lemma hijack (hr : r ∉ X) {pd : Frame} (hpd : tableAt X mc root 2 (r / 512) = some pd)
    (he : hugeAt X mc root r = some e) (hin : ∃ page, first ≤ page ∧ page < stop ∧ page / 512 = r) :
    BatchInv base root first cur stop (insert r X)
      (mc.write pd (r % 512) ⟨e.frame, .intermediate⟩) := by
  have hslot : mc.mem pd (r % 512) = e := by
    simp only [hugeAt, hpd, bind_some] at he
    split_ifs at he
    exact some.inj he
  have hleaf := I.tree.isHugeLeaf hr he
  obtain ⟨htab, htree, hother⟩ := I.tree.hijack hr hpd (hslot ▸ hleaf) ⟨e.frame, .intermediate⟩
  have htable := isNode_congr htab
  have hout : ∀ {r'}, r' ∉ insert r X → r' ≠ r ∧ r' ∉ X := fun h =>
    ⟨fun heq => h (heq ▸ mem_insert_self r X), fun hX => h (mem_insert_of_mem hX)⟩
  refine ⟨htree, ?_, ?_, ?_, ?_, ?_, ?_, ?_, ?_⟩
  · rintro f (hf | hf)
    · exact I.taken f (.inl ((htable f).mp hf))
    · exact I.taken f (.inr hf)
  · intro r' hr'
    rw [htab]
    rcases mem_insert.mp hr' with rfl | hX
    · refine ⟨e, pd, ?_, hpd, ?_⟩
      · rw [← I.huge _ hr, he]
      · rw [write_mem, if_pos ⟨rfl, rfl⟩]
    · obtain ⟨e', pd', he', hpd', hmem⟩ := I.hijacked r' hX
      refine ⟨e', pd', he', hpd', ?_⟩
      rw [write_mem, if_neg, hmem]
      rintro ⟨rfl, hmod⟩
      have hdiv := (I.tree.distinct _ _ _ _ _ hpd' hpd).2
      exact hr (by rwa [show r = r' by omega])
  · intro r' hr'
    rcases mem_insert.mp hr' with rfl | hX
    · exact hin
    · exact I.inRange r' hX
  · intro r' hr'
    rw [(hother r' (hout hr').1).1, I.huge r' (hout hr').2]
  · intro page h h' hX
    exact I.reached page h h' (hout hX).2
  · intro page hX
    have hsame : (view (insert r X) (mc.write pd (r % 512) ⟨e.frame, .intermediate⟩) root).translate
        page = (view X mc root).translate page := by
      simp only [Space.translate, (hother _ (hout hX).1).2]
    rw [hsame]
    exact I.leaf page (hout hX).2
  · intro f hf j
    have hne : f ≠ pd := fun h => hf (I.taken f (.inl (h ▸ ⟨2, _, hpd⟩)))
    rw [write_mem_ne _ _ _ hne]
    rcases I.data f hf j with h | ⟨h, hj, r', hr', hbase⟩
    · exact .inl h
    · exact .inr ⟨h, hj, r', mem_insert_of_mem hr', hbase⟩
  · intro i hi
    rw [write_mem_ne, I.upper i hi]
    rintro rfl
    have := (I.tree.distinct 0 0 _ _ _ rfl hpd).1
    omega

/-- The walk of one chunk, to the leaf table of its region or into the data of
its 2 MB leaf. -/
lemma walk (hfirst : first ≤ cur) (hstop : cur < stop) (hv : cur * pageSize < 2 ^ 47)
    (hX : cur / 512 ∉ X) {res : Option Frame}
    (h : traverseToPt mc root (cur * pageSize) true = some (res, mc')) :
    ∃ X' pt, res = some pt ∧ X' ⊆ insert (cur / 512) X ∧
      BatchInv base root first cur stop X' mc' ∧ BatchTarget base root X' mc' (cur / 512) pt := by
  obtain ⟨pd, mc₁, hg, hview, hpd, hdesc⟩ := traverseToPt_split I.tree hv h
  have hregion : region (cur * pageSize) = cur / 512 := by
    rw [region, Nat.mul_div_cancel cur pageSize_pos]
  rw [hregion] at hpd hdesc
  have hhuge : hugeAt X mc₁ root = hugeAt X mc root := by
    funext r
    rw [← hugeEntry_view, ← hugeEntry_view, hview]
  have I₁ := I.grow hg hhuge fun page _ => .inl (by rw [hview])
  have hin : InTree X 2 (cur / 512) := ⟨by omega, by omega, fun _ => hX⟩
  cases he : hugeAt X mc₁ root (cur / 512) with
  | none =>
    obtain ⟨hg', hres, hsome, hview'⟩ := descend_spec hg.tree hin hpd (fun _ => he) hdesc
    rw [if_pos ⟨rfl, rfl⟩] at hview'
    obtain ⟨pt, rfl⟩ := isSome_iff_exists.mp (hsome rfl)
    refine ⟨X, pt, rfl, subset_insert _ _, ?_, .inl ⟨hX, hres.symm⟩⟩
    refine I₁.grow hg' ?_ fun page _ => .inl (by rw [hview', translate_touch])
    funext r
    rw [← hugeEntry_view, ← hugeEntry_view, hview']
    by_cases hr : r = cur / 512
    · rw [hr, touch, update_self, hugeEntry_touched]
    · rw [touch, update_of_ne hr]
  | some e =>
    have hleaf := hg.tree.isHugeLeaf hX he
    have hslot : mc₁.mem pd (cur / 512 % 512) = e := by
      simp only [hugeAt, hpd, bind_some] at he
      split_ifs at he
      exact some.inj he
    have hne : e ≠ ⟨e.frame, .intermediate⟩ := by
      intro heq
      have hps := hleaf.huge
      rw [heq] at hps
      exact absurd hps (by simp [intermediate, empty])
    simp only [descend, hslot, if_neg hleaf.frame_ne, if_neg hne] at hdesc
    cases hdesc
    refine ⟨insert (cur / 512) X, e.frame, rfl, subset_rfl, I₁.hijack hX hpd he ⟨cur, hfirst, hstop,
      rfl⟩, .inr ⟨mem_insert_self _ _, e, ?_, rfl⟩⟩
    rw [← I₁.huge _ hX, he]

/-- One compare-and-swap of the chunk. -/
lemma compareExchange (hfirst : first ≤ cur) (hdata : ∀ r e, hugeAt ∅ base root r = some e →
      ¬(IsTable ∅ base root e.frame ∨ e.frame ∈ base.free)) {pt : Frame}
    (ht : BatchTarget base root X mc (cur / 512) pt) (v : Entry) :
    BatchInv base root first (cur + 1) stop X
        (compareExchangeZero mc pt (cur % 512) v).2 ∧
      BatchTarget base root X (compareExchangeZero mc pt (cur % 512) v).2
        (cur / 512) pt := by
  have I' : BatchInv base root first (cur + 1) stop X mc := by
    refine I.advance fun hX => ?_
    rcases ht with ⟨-, hpt⟩ | ⟨hcon, -⟩
    · rw [← I.huge _ hX, hugeAt_eq_none_of_table hpt]
    · exact absurd hcon hX
  unfold compareExchangeZero
  split_ifs with hzero
  · rcases ht with ⟨hX, hpt⟩ | ⟨hX, e, he, rfl⟩
    · have hbefore : (view X mc root).translate cur = none := by
        rw [Space.translate_of_table (view_table hpt), hzero]
        rfl
      have hbase : (view ∅ base root).translate cur = none := by
        rcases I.leaf cur hX with h | ⟨-, hlt, -⟩
        · rw [← h, hbefore]
        · omega
      have hview := (I.tree.view_write_pte hpt v).2
      have htab : tableAt X (mc.write pt (cur % 512) v) root = tableAt X mc root :=
        I.tree.tableAt_write hpt (by simp)
      refine ⟨I'.grow (I.tree.grows_write_pte hpt v) ?_ ?_, .inl ⟨hX, by rw [htab, hpt]⟩⟩
      · funext r
        rw [I.tree.hugeAt_write hpt (by simp), if_neg (by omega)]
      · intro page hp
        by_cases hcur : page = cur
        · exact .inr ⟨by omega, by omega, by rw [hcur, hbase]⟩
        · left
          by_cases hr : page / 512 = cur / 512
          · have hnow : view X (mc.write pt (cur % 512) v) root (page / 512) =
                .table (update (mc.mem pt) (cur % 512) v) := by
              rw [hview, hr, update_self]
            have hwas : view X mc root (page / 512) = .table (mc.mem pt) := by
              rw [hr, view_table hpt]
            rw [Space.translate_of_table hnow, Space.translate_of_table hwas,
              update_of_ne (by omega)]
          · simp only [Space.translate, hview, update_of_ne hr]
    · have hnot : ¬IsTable X mc root e.frame := fun h =>
        hdata _ e he (I.taken _ (.inl h))
      obtain ⟨htab, htree, hhuge, hview⟩ := I.tree.write_data hnot (cur % 512) v
      refine ⟨⟨htree, ?_, ?_, I.inRange, ?_, I'.reached, ?_, ?_, ?_⟩, .inr ⟨hX, e, he, rfl⟩⟩
      · rintro f (hf | hf)
        · exact I.taken f (.inl ((isNode_congr htab f).mp hf))
        · exact I.taken f (.inr hf)
      · intro r hr
        obtain ⟨e', pd, he', hpd, hmem⟩ := I.hijacked r hr
        refine ⟨e', pd, he', by rw [htab, hpd], ?_⟩
        rw [write_mem_ne, hmem]
        rintro rfl
        exact hnot ⟨2, _, hpd⟩
      · intro r hr
        rw [hhuge, I.huge r hr]
      · rw [hview]
        exact I'.leaf
      · intro f hf j
        rw [write_mem]
        split_ifs with hslot
        · obtain ⟨rfl, rfl⟩ := hslot
          refine .inr ⟨?_, mod_lt _ (by omega), _, hX, e, he, rfl⟩
          rcases I.data _ hf (cur % 512) with h | ⟨h, -⟩
          · rw [← h, hzero]
          · exact h
        · exact I.data f hf j
      · intro i hi
        rw [write_mem_ne, I.upper i hi]
        rintro rfl
        exact hnot ⟨0, 0, rfl⟩
  · exact ⟨I', ht⟩

end

/-- The inner loop of the batch. -/
lemma chunk (hdata : ∀ r e, hugeAt ∅ base root r = some e →
      ¬(IsTable ∅ base root e.frame ∨ e.frame ∈ base.free)) {pt : Frame} (paddrs : ℕ → Frame)
    (attrs : PageAttrs) {n idx : ℕ} (i : ℕ) (mapped : List ℕ) (hfirst : first ≤ r * 512 + idx)
    (hidx : idx + n ≤ 512) (I : BatchInv base root first (r * 512 + idx) stop X mc)
    (ht : BatchTarget base root X mc r pt) :
    BatchInv base root first (r * 512 + idx + n) stop X
      (batchChunk pt paddrs attrs n i idx mc mapped).1 := by
  induction n generalizing i idx mc mapped with
  | zero =>
    rw [add_zero]
    exact I
  | succ n ih =>
    have hdiv : (r * 512 + idx) / 512 = r := by omega
    have hmod : (r * 512 + idx) % 512 = idx := by omega
    have hstep := I.compareExchange hfirst hdata (by rw [hdiv]; exact ht) ⟨paddrs i, attrs⟩
    rw [hdiv, hmod, add_assoc] at hstep
    rw [show r * 512 + idx + (n + 1) = r * 512 + (idx + 1) + n by omega]
    exact ih _ _ (by omega) (by omega) hstep.1 hstep.2

end BatchInv

namespace PageTable

variable {base : Machine} {first count : ℕ} {paddrs : ℕ → Frame} {prot : MMapProt}

lemma batchLoop_inv (hdata : ∀ r e, hugeAt ∅ base root r = some e →
      ¬(IsTable ∅ base root e.frame ∨ e.frame ∈ base.free))
    (hend : (first + count) * pageSize ≤ 2 ^ 47) {fuel i : ℕ} {mapped out : List ℕ}
    (I : BatchInv base root first (first + i) (first + count) X mc) (hi : i ≤ count)
    (hX : i < count → ∀ r ∈ X, r < (first + i) / 512) (hfuel : count ≤ i + fuel)
    (h : batchLoop root (first * pageSize) paddrs count prot fuel i mc mapped = some (mc', out)) :
    ∃ X', BatchInv base root first (first + count) (first + count) X' mc' := by
  induction fuel generalizing i X mc mapped with
  | zero =>
    have hdone : i = count := by omega
    obtain ⟨rfl, -⟩ := Prod.mk.inj (some.inj h)
    exact ⟨X, hdone ▸ I⟩
  | succ fuel ih =>
    rw [batchLoop] at h
    by_cases hlt : i < count
    · have hv : (first + i) * pageSize < 2 ^ 47 :=
        lt_of_lt_of_le (mul_lt_mul_of_pos_right (by omega) pageSize_pos) hend
      have hadd : wadd (first * pageSize) (i * pageSize) = (first + i) * pageSize := by
        rw [wadd_of_lt (by rw [← add_mul]; omega), add_mul]
      have hidx : leafPtIndex ((first + i) * pageSize) = (first + i) % 512 := by
        rw [leafPtIndex, show 2 ^ 12 = pageSize from rfl, Nat.mul_div_cancel _ pageSize_pos]
      simp only [if_pos hlt, hadd, hidx] at h
      by_cases h0 : (first + i) * pageSize = 0
      · rw [if_pos h0] at h
        cases h
      rw [if_neg h0] at h
      cases hw : traverseToPt mc root ((first + i) * pageSize) true with
      | none => simp [hw] at h
      | some res =>
        obtain ⟨res, mc₁⟩ := res
        have hcur : (first + i) / 512 ∉ X := fun hmem => lt_irrefl _ (hX hlt _ hmem)
        obtain ⟨X', pt, rfl, hsub, I₁, ht⟩ := I.walk (by omega) (by omega) hv hcur hw
        simp only [hw] at h
        generalize hbatch : (if i + (512 - (first + i) % 512) < count then
          i + (512 - (first + i) % 512) else count) = batchEnd at h
        have hbound : i < batchEnd ∧ batchEnd ≤ count ∧
            (first + i) % 512 + (batchEnd - i) ≤ 512 ∧
            (batchEnd < count → (first + batchEnd) / 512 = (first + i) / 512 + 1) := by
          split_ifs at hbatch <;> omega
        rw [show first + i = (first + i) / 512 * 512 + (first + i) % 512 by omega] at I₁
        have I₂ := BatchInv.chunk hdata paddrs (.ofProt prot) i mapped (by omega) hbound.2.2.1 I₁ ht
        rw [show (first + i) / 512 * 512 + (first + i) % 512 + (batchEnd - i) =
          first + batchEnd by omega] at I₂
        refine ih I₂ hbound.2.1 ?_ (by omega) h
        intro hmore r hr
        rcases mem_insert.mp (hsub hr) with rfl | hold
        · omega
        · have := hX hlt r hold
          omega
    · have hdone : i = count := by omega
      rw [if_neg hlt] at h
      obtain ⟨rfl, -⟩ := Prod.mk.inj (some.inj h)
      exact ⟨X, hdone ▸ I⟩

/-- The translation of a region that was taken out of the tree: the words of the
2 MB leaf's first data frame are read as a table. -/
lemma translate_hijacked {cur stop : ℕ} (I : BatchInv base root first cur stop X mc) (page : ℕ)
    (hp : page < 2 ^ 35) (hX : page / 512 ∈ X) :
    ∃ e, hugeAt ∅ base root (page / 512) = some e ∧
      translate mc.mem root page =
        if (mc.mem e.frame (page % 512)).attrs.present then some (mc.mem e.frame (page % 512))
        else none := by
  obtain ⟨e, pd, he, hpd, hmem⟩ := I.hijacked _ hX
  refine ⟨e, he, ?_⟩
  rw [translate_eq_bind I.tree hp, hpd, bind_some, translateFromPd, hmem,
    intermediate_permissive.restrict]
  rfl

/-- A batch over pages of the user half changes only translations in its range
that did not exist, and writes no data frame, exactly if under every 2 MB leaf
it runs into the first data frame happens to hold the entries of the split
leaf. -/
theorem batchTryMapUserPagesWithProt_exact (hw : WellFormed mc root) {start : ℕ}
    {mapped : List ℕ} (hstart : start % pageSize = 0)
    (hend : start + count * pageSize ≤ 2 ^ 47)
    (h : batchTryMapUserPagesWithProt mc root start paddrs count prot = some (mc', mapped)) :
    ((∀ page < 2 ^ 36, translate mc'.mem root page ≠ translate mc.mem root page →
        start ≤ page * pageSize ∧ page * pageSize < start + count * pageSize ∧
          translate mc.mem root page = none) ∧
      (∀ f, ¬(IsTable ∅ mc root f ∨ f ∈ mc.free) → mc'.mem f = mc.mem f)) ↔
    ∀ i < count, ∀ e, hugeAt ∅ mc root (region (start + i * pageSize)) = some e →
      ∀ j < 512, mc.mem e.frame j = Space.splitTable e j := by
  obtain ⟨first, rfl⟩ := dvd_of_mod_eq_zero hstart
  rw [mul_comm pageSize first] at *
  rw [← add_mul] at hend ⊢
  have hregion : ∀ i, region (first * pageSize + i * pageSize) = (first + i) / 512 := by
    intro i
    rw [region, ← add_mul, Nat.mul_div_cancel _ pageSize_pos]
  simp only [hregion]
  have hlow : first + count ≤ 2 ^ 35 := by
    by_contra hcon
    have := mul_le_mul_right pageSize (not_le.mp hcon)
    unfold pageSize at this hend
    omega
  obtain ⟨X, I⟩ := batchLoop_inv hw.hugeData hend (BatchInv.start hw.tree) (zero_le _)
    (fun _ r hr => absurd hr (notMem_empty r)) (by omega) h
  have hhuge : ∀ {r j : ℕ} {e : Entry}, hugeAt ∅ mc root r = some e → r < 2 ^ 26 → j < 512 →
      translate mc.mem root (r * 512 + j) = some ⟨e.frame + j, e.attrs.clearHuge⟩ := by
    intro r j e he hr hj
    have hdiv : (r * 512 + j) / 512 = r := by omega
    have hmod : (r * 512 + j) % 512 = j := by omega
    rw [translate_eq_view hw.tree (by omega) (notMem_empty _),
      translate_of_huge (by rw [hdiv]; exact view_huge he), hmod]
  constructor
  · rintro ⟨htrans, hdata⟩ i hi e he j hj
    have hX : (first + i) / 512 ∈ X := by
      by_contra hX
      rw [I.reached (first + i) (by omega) (by omega) hX] at he
      cases he
    have hdiv : ((first + i) / 512 * 512 + j) / 512 = (first + i) / 512 := by omega
    have hmod : ((first + i) / 512 * 512 + j) % 512 = j := by omega
    have hbefore := hhuge he (by omega) hj
    obtain ⟨e', he', hafter⟩ := translate_hijacked I ((first + i) / 512 * 512 + j)
      (by omega) (by rw [hdiv]; exact hX)
    rw [hdiv, he] at he'
    cases he'
    rw [hmod, hdata e.frame (hw.hugeData _ e he)] at hafter
    have hsame : translate mc'.mem root ((first + i) / 512 * 512 + j) =
        translate mc.mem root ((first + i) / 512 * 512 + j) := by
      by_contra hne
      rw [(htrans _ (by omega) hne).2.2] at hbefore
      cases hbefore
    rw [hafter, hbefore] at hsame
    split_ifs at hsame
    rw [some.inj hsame, splitTable, if_pos hj]
  · intro hmimic
    have hX : ∀ r ∈ X, ∃ e, hugeAt ∅ mc root r = some e ∧
        ∀ j < 512, mc.mem e.frame j = splitTable e j := by
      intro r hr
      obtain ⟨e, -, he, -⟩ := I.hijacked r hr
      obtain ⟨page, hlo, hhi, rfl⟩ := I.inRange r hr
      refine ⟨e, he, hmimic (page - first) (by omega) e ?_⟩
      rw [show first + (page - first) = page by omega]
      exact he
    have hdata : ∀ f, ¬(IsTable ∅ mc root f ∨ f ∈ mc.free) → mc'.mem f = mc.mem f := by
      intro f hf
      funext j
      rcases I.data f hf j with heq | ⟨hzero, hj, r, hr, e, he, rfl⟩
      · exact heq
      · obtain ⟨e', he', hsplit⟩ := hX r hr
        rw [he] at he'
        cases he'
        rw [hsplit j hj, splitTable, if_pos hj] at hzero
        have hne := (hw.tree.isHugeLeaf (notMem_empty r) he).frame_ne
        have hframe : e.frame + j = 0 := congrArg Entry.frame hzero
        exact absurd (Nat.eq_zero_of_add_eq_zero_right hframe) hne
    refine ⟨?_, hdata⟩
    intro page hpage hne
    by_cases hkernel : 2 ^ 35 ≤ page
    · exact absurd (translate_kernel hkernel hpage (hw.kernel page hkernel hpage) I.upper hdata) hne
    have hp : page < 2 ^ 35 := not_le.mp hkernel
    have hbase := translate_eq_view hw.tree hp (notMem_empty (page / 512))
    by_cases hr : page / 512 ∈ X
    · obtain ⟨e, he, hafter⟩ := translate_hijacked I page hp hr
      obtain ⟨e', he', hsplit⟩ := hX _ hr
      rw [he] at he'
      cases he'
      have hj : page % 512 < 512 := mod_lt _ (by omega)
      have hpresent : e.attrs.clearHuge.present = true :=
        (hw.tree.isHugeLeaf (notMem_empty _) he).present
      rw [hdata e.frame (hw.hugeData _ e he), hsplit _ hj, splitTable, if_pos hj,
        if_pos hpresent] at hafter
      rw [hafter, hbase, translate_of_huge (view_huge he)] at hne
      exact absurd rfl hne
    · rw [translate_eq_view I.tree hp hr, hbase] at hne
      rcases I.leaf page hr with heq | ⟨hlo, hhi, hnone⟩
      · exact absurd heq hne
      · exact ⟨mul_le_mul_right _ hlo, mul_lt_mul_of_pos_right hhi pageSize_pos, hbase.trans hnone⟩

theorem batchTryMapUserPagesWithProt_exact_beside_leaf :
    ∃ mc' mapped, batchTryMapUserPagesWithProt oneHugeLeaf 1 0x400000 (600 + ·) 16 .rw =
        some (mc', mapped) ∧
      (∀ page < 2 ^ 36, translate mc'.mem 1 page ≠ translate oneHugeLeaf.mem 1 page →
        0x400000 ≤ page * pageSize ∧ page * pageSize < 0x400000 + 16 * pageSize ∧
          translate oneHugeLeaf.mem 1 page = none) ∧
      (∀ f, ¬(IsTable ∅ oneHugeLeaf 1 f ∨ f ∈ oneHugeLeaf.free) →
        mc'.mem f = oneHugeLeaf.mem f) := by
  have hsome : (batchTryMapUserPagesWithProt oneHugeLeaf 1 0x400000 (600 + ·) 16 .rw).isSome := by
    decide +kernel
  obtain ⟨⟨mc', mapped⟩, h⟩ := isSome_iff_exists.mp hsome
  refine ⟨mc', mapped, h, (batchTryMapUserPagesWithProt_exact oneHugeLeaf_view.1 (by decide)
    (by norm_num [pageSize]) h).mpr ?_⟩
  intro i hi e he
  have hregion : region (0x400000 + i * pageSize) = 2 := by
    unfold region pageSize
    omega
  rw [hregion, ← hugeEntry_view, oneHugeLeaf_view.2] at he
  cases he

/-- A batch of two pages that runs into a 2 MB leaf: the first page of the leaf
is mapped to the batch's frame, the second is lost, and the leaf's data frame
was written. -/
theorem batchTryMapUserPagesWithProt_breaks_leaf :
    translate oneHugeLeaf.mem 1 512 = some ⟨512, .ofProt .rw⟩ ∧
    translate oneHugeLeaf.mem 1 513 = some ⟨513, .ofProt .rw⟩ ∧
    oneHugeLeaf.mem 512 0 = 0 ∧
    (batchTryMapUserPagesWithProt oneHugeLeaf 1 0x1ff000 (600 + ·) 2 .rw).map
      (fun o => (translate o.1.mem 1 512, translate o.1.mem 1 513, o.1.mem 512 0)) =
        some (some ⟨601, .ofProt .rw⟩, none, ⟨601, .ofProt .rw⟩) := by
  decide +kernel

end PageTable

end Kevlar
