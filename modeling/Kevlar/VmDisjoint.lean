import Kevlar.VmRanges

/-!
# Disjointness of the area list along whole runs

A run starts from a fresh address space and applies the operations that change
the area list in any order and with any arguments. Every operation is shown to
keep the areas disjoint under a condition on its arguments and the current list.
For the operations that test for overlaps the condition is void.
-/
namespace Kevlar
open List Option Bool VmArea DisjointRegions

/-- A user address as the checked constructor builds it: a nonzero machine word. -/
structure UserVAddr where
  value : ℕ
  ne_zero : value ≠ 0
  lt : value < 2 ^ 64

namespace Vm

inductive VmOp
  | addVmAreaWithProt (start : UserVAddr) (len : ℕ) (areaType : VmAreaType) (prot : MMapProt)
      (shared : Bool)
  | removeVmaRange (start : UserVAddr) (len : ℕ)
  | updateProtRange (start : UserVAddr) (len : ℕ) (prot : MMapProt)
  | expandHeapTo (newHeapEnd : UserVAddr)
  | mremapGrow (oldAddr : UserVAddr) (oldSize newSize : ℕ)
  | tryGrowStack (faultAddr : UserVAddr)

/-- The state an operation leaves, whether it reports success or an error. -/
def applyOp (vm : Vm) : VmOp → Option Vm
  | .addVmAreaWithProt start len areaType prot shared =>
    match vm.addVmAreaWithProt start.value len areaType prot shared with
    | .ok vm' => some vm'
    | .error _ => some vm
  | .removeVmaRange start len => some (vm.removeVmaRange start.value len).2
  | .updateProtRange start len prot => some (vm.updateProtRange start.value len prot).2
  | .expandHeapTo newHeapEnd => (vm.expandHeapTo newHeapEnd.value).map Prod.snd
  | .mremapGrow oldAddr oldSize newSize =>
    match vm.mremapGrow oldAddr.value oldSize newSize with
    | .ok vm' => some vm'
    | .error _ => some vm
  | .tryGrowStack faultAddr => (vm.tryGrowStack faultAddr.value).map Prod.snd

/-- The states of runs whose steps all satisfy `ok`. -/
inductive Reachable (ok : Vm → VmOp → Prop) : Vm → Prop
  | init (pml4 : ℕ) (stackBottom heapBottom : UserVAddr) :
      Reachable ok (Vm.new pml4 stackBottom.value heapBottom.value)
  | step {vm vm' : Vm} (op : VmOp) (h : Reachable ok vm) (hok : ok vm op)
      (hop : vm.applyOp op = some vm') : Reachable ok vm'

/-- The part of the list below the first area that a growth adds to the stack. -/
def GrowthClear (vm : Vm) (faultAddr : ℕ) : Prop :=
  ∀ stack rest, vm.vmAreas = stack :: rest → ∀ z ∈ rest, ∀ p,
    alignDown faultAddr pageSize ≤ p → p < stack.start → z.contains p = false

/-- `sys_mremap` calls `extend_vma` for the area. -/
def Extends (vm : Vm) (vma : VmArea) (newSize : ℕ) : Prop :=
  vma.areaType.isAnonymous = true ∧ wsub vma.endAddr vma.start < newSize ∧
    vm.isFreeVaddrRange vma.endAddr (newSize - wsub vma.endAddr vma.start) = true

/-- What the source leaves unchecked: ranges that wrap around, the area that
`extend_vma` picks by its start address, and the room below the stack. -/
def Careful (vm : Vm) : VmOp → Prop
  | .removeVmaRange start len | .updateProtRange start len _ =>
    ∀ v ∈ vm.vmAreas, ProperCut start.value (wadd start.value len) v
  | .mremapGrow oldAddr oldSize newSize =>
    ∀ v w, vm.vmAreas.find? (fun v => decide (v.start = oldAddr.value)) = some v →
      vm.vmAreas.find? (fun v => decide (v.start = oldAddr.value) &&
        decide (wadd oldAddr.value oldSize ≤ v.endAddr)) = some w →
      vm.Extends w newSize → v.endAddr = w.endAddr
  | .tryGrowStack faultAddr =>
    ∀ vm', vm.tryGrowStack faultAddr.value = some (true, vm') → vm.GrowthClear faultAddr.value
  | _ => True

/-- The areas are disjoint and the heap end is a machine word. -/
structure Sound (vm : Vm) : Prop where
  disjoint : DisjointAreas vm.vmAreas
  heapEnd_lt : vm.heapEnd < 2 ^ 64

variable {out : List VmArea} {start len : ℕ} {vm vm' : Vm}

variable {areas : List VmArea} {p : VmArea → Bool} {additional newHeapEnd : ℕ}
  {r : Except Errno (List ℕ)}

lemma disjointAreas_of_seenAt (h : DisjointAreas areas) {view : ℕ → AddrAttrs → Option AddrAttrs}
    (hout : ∀ a, (seenAt out a).Perm ((seenAt areas a).filterMap (view a))) :
    DisjointAreas out := by
  rw [disjointAreas_iff] at h ⊢
  intro a
  rw [(hout a).length_eq]
  exact (length_filterMap_le _ _).trans (h a)

lemma removeVmaRange_sound (vm : Vm) (h : vm.Sound)
    (hproper : ∀ v ∈ vm.vmAreas, ProperCut start (wadd start len) v) :
    (vm.removeVmaRange start len).2.Sound :=
  ⟨disjointAreas_of_seenAt h.disjoint (seenAt_removeVmaRange vm hproper).2, h.heapEnd_lt⟩

/-- The fast path of a disjoint list shows what the loop would. -/
lemma seenAt_setProtExact {prot : MMapProt} (h : DisjointAreas areas)
    (hset : setProtExact start len prot areas = some out) (a : ℕ) :
    seenAt out a = (seenAt areas a).filterMap (updateView start (wadd start len) prot a) := by
  obtain ⟨pre, v, post, rfl, rfl, rfl, rfl⟩ := setProtExact_eq hset
  have hone := disjointAreas_iff.mp h a
  have hend : ({ v with prot := prot } : VmArea).endAddr = v.endAddr := rfl
  simp only [← singleton_append (l := post), seenAt_append, seenAt_singleton, hend,
    filterMap_append, length_append] at hone ⊢
  by_cases ha : v.start ≤ a ∧ a < v.endAddr
  · rw [if_pos ha, length_singleton] at hone
    have hpre : seenAt pre a = [] := length_eq_zero_iff.mp (by omega)
    have hpost : seenAt post a = [] := length_eq_zero_iff.mp (by omega)
    have hview : updateView v.start (wadd v.start v.len) prot a (v.attrsAt a) = _ := if_pos ha
    rw [hpre, hpost, if_pos ha, if_pos ha, filterMap_cons_some hview]
    rfl
  · have hview : updateView v.start (wadd v.start v.len) prot a = some := funext fun _ => if_neg ha
    simp only [if_neg ha, hview, filterMap_some]

/-- A protection change whose range is proper for every area updates what each
address sees, on either path. -/
lemma seenAt_updateProtRange (h : DisjointAreas vm.vmAreas) (prot : MMapProt) (hstart : start ≠ 0)
    (hproper : ∀ v ∈ vm.vmAreas, ProperCut start (wadd start len) v) :
    (vm.updateProtRange start len prot).1 = .ok () ∧ ∀ a,
      (seenAt (vm.updateProtRange start len prot).2.vmAreas a).Perm
        ((seenAt vm.vmAreas a).filterMap (updateView start (wadd start len) prot a)) := by
  unfold updateProtRange
  split
  · next areas hset => exact ⟨rfl, fun a => by rw [seenAt_setProtExact h hset]⟩
  · obtain ⟨out, hout, hseen⟩ := seenAt_cutLoop _ _ vm.vmAreas fun v hv =>
      updateProtCut_exact v prot hstart (hproper v hv)
    simp only [hout]
    exact ⟨trivial, hseen⟩

lemma updateProtRange_sound (h : vm.Sound) (prot : MMapProt) (hstart : start ≠ 0)
    (hproper : ∀ v ∈ vm.vmAreas, ProperCut start (wadd start len) v) :
    (vm.updateProtRange start len prot).2.Sound := by
  refine ⟨disjointAreas_of_seenAt h.disjoint
    (seenAt_updateProtRange h.disjoint prot hstart hproper).2, ?_⟩
  unfold updateProtRange
  split <;> exact h.heapEnd_lt

/-- The protection change is exact address by address: an address sees the area that it
saw before, with the new protection inside the range. The areas stay disjoint, and
the loop without the fast path shows every address the same. -/
theorem updateProtRange_pointwise (vm : Vm) (start : UserVAddr) (prot : MMapProt)
    (hdisj : DisjointAreas vm.vmAreas) (hfit : start.value + len < 2 ^ 64) :
    (vm.updateProtRange start.value len prot).1 = .ok () ∧
    DisjointAreas (vm.updateProtRange start.value len prot).2.vmAreas ∧ ∀ a,
      seenAt (vm.updateProtRange start.value len prot).2.vmAreas a =
        ((seenAt vm.vmAreas a).map fun attrs =>
          if start.value ≤ a ∧ a < start.value + len then { attrs with prot := prot } else attrs) ∧
      seenAt (cutLoop (updateProtCut start.value (wadd start.value len) prot) vm.vmAreas.length
        vm.vmAreas 0 []).2 a = seenAt (vm.updateProtRange start.value len prot).2.vmAreas a := by
  have hproper : ∀ v ∈ vm.vmAreas, ProperCut start.value (wadd start.value len) v := by
    intro v _
    rw [wadd_of_lt hfit]
    exact .inl (by omega)
  obtain ⟨hok, hseen⟩ := seenAt_updateProtRange hdisj prot start.ne_zero hproper
  obtain ⟨out, hout, hloop⟩ := seenAt_cutLoop _ _ vm.vmAreas fun v hv =>
    updateProtCut_exact v prot start.ne_zero (hproper v hv)
  refine ⟨hok, disjointAreas_of_seenAt hdisj hseen, fun a => ?_⟩
  have hone := (length_filterMap_le (updateView start.value (wadd start.value len) prot a)
    _).trans (disjointAreas_iff.mp hdisj a)
  rw [hout, seenAt_eq_of_perm (hloop a) hone, seenAt_eq_of_perm (hseen a) hone]
  refine ⟨?_, rfl⟩
  rw [← filterMap_eq_map, wadd_of_lt hfit]
  congr 1
  funext attrs
  exact (apply_ite some _ _ _).symm

/-- Protecting the second page of a five-page file mapping. -/
theorem updateProtRange_pointwise_file :
    let vm : Vm := { Vm.new 0 0x9fffe0000 0x10000000 with
      vmAreas := [⟨0x1000, 0x5000, .file 7 0x2000 0x2800, .rw, false, 0⟩] }
    DisjointAreas (vm.updateProtRange 0x2000 0x1000 ⟨true, false, false⟩).2.vmAreas := by
  intro vm
  have hdisj : DisjointAreas vm.vmAreas := pairwise_singleton _ _
  exact (updateProtRange_pointwise vm ⟨0x2000, by decide, by decide⟩ _ hdisj (by decide)).2.1

lemma growFirst_eq (hgrow : growFirst p additional areas = some out) :
    ∃ pre v post, areas = pre ++ v :: post ∧ areas.find? p = some v ∧
      out = pre ++ { v with len := wadd v.len additional } :: post := by
  induction areas generalizing out with
  | nil => simp [growFirst] at hgrow
  | cons v areas ih =>
    unfold growFirst at hgrow
    split_ifs at hgrow with hv
    · exact ⟨[], v, areas, rfl, by simp [hv], (some.inj hgrow).symm⟩
    · obtain ⟨out', hout', rfl⟩ := map_eq_some_iff.mp hgrow
      obtain ⟨pre, w, post, rfl, hw, rfl⟩ := ih hout'
      exact ⟨v :: pre, w, post, rfl, by simp [hv, hw], rfl⟩

/-- An area may be replaced by a larger one whose new addresses nobody holds. -/
lemma disjointAreas_enlarge (pre post : List VmArea) {v v' : VmArea}
    (h : DisjointAreas (pre ++ v :: post))
    (hnew : ∀ p, v'.contains p = true → v.contains p = false →
      ∀ z ∈ pre ++ post, z.contains p = false) :
    DisjointAreas (pre ++ v' :: post) := by
  have hfirst := (disjointOn_cons.mp (DisjointOn.perm h perm_middle)).1
  refine DisjointOn.replace h ?_
  intro z hz p ⟨hp, hzp⟩
  cases hvp : v.contains p with
  | true => exact hfirst z hz p ⟨hvp, hzp⟩
  | false =>
    have hfree := hnew p hp hvp z hz
    simp only [Holds, hfree] at hzp
    cases hzp

lemma contains_eq_false_of_isFree {p : ℕ} (hfree : vm.isFreeVaddrRange start len = true)
    (hp : start ≤ p) (hp' : p < wadd start len) :
    ∀ z ∈ vm.vmAreas, z.contains p = false := by
  intro z hz
  have hz' := all_eq_true.mp hfree z hz
  rw [← not_eq_true, contains_iff]
  rintro ⟨hs, he⟩
  simp only [overlaps, not_eq_true', and_eq_false_iff, decide_eq_false_iff_not] at hz'
  omega

lemma endAddr_extend (v : VmArea) (additional : ℕ) :
    ({ v with len := wadd v.len additional } : VmArea).endAddr = wadd v.endAddr additional := by
  simp only [endAddr, wadd]
  omega

lemma endAddr_grown (v : VmArea) {newStart : ℕ} (h : newStart ≤ v.start) :
    ({ v with start := newStart, len := wadd v.len (v.start - newStart) } : VmArea).endAddr =
      v.endAddr := by
  simp only [endAddr, wadd]
  omega

/-- Lengthening an area into a free range behind its end. -/
lemma growFirst_disjoint (h : DisjointAreas vm.vmAreas)
    (hgrow : growFirst p additional vm.vmAreas = some out)
    (hend : ∀ v, vm.vmAreas.find? p = some v → v.endAddr = start)
    (hfree : vm.isFreeVaddrRange start additional = true) : DisjointAreas out := by
  obtain ⟨pre, v, post, hvm, hfind, rfl⟩ := growFirst_eq hgrow
  rw [hvm] at h
  refine disjointAreas_enlarge pre post h ?_
  intro a ha hva z hz
  have hmem : z ∈ vm.vmAreas := by
    rw [hvm]
    simp only [mem_append, mem_cons] at hz ⊢
    tauto
  rw [contains_iff, endAddr_extend, hend v hfind] at ha
  rw [← not_eq_true, contains_iff, hend v hfind] at hva
  have hstart : v.start ≤ a := ha.1
  exact contains_eq_false_of_isFree hfree (by omega) ha.2 z hmem

lemma addVmAreaWithProt_sound (h : vm.Sound) {areaType : VmAreaType} {prot : MMapProt}
    {shared : Bool} (hadd : vm.addVmAreaWithProt start len areaType prot shared = .ok vm') :
    vm'.Sound := by
  unfold addVmAreaWithProt at hadd
  split_ifs at hadd with hlen haccess hfree
  · cases hadd
    exact h
  · cases hadd
    refine ⟨disjointOn_concat.mpr ⟨h.disjoint, ?_⟩, h.heapEnd_lt⟩
    rintro z hz p ⟨hzp, hp⟩
    rw [Holds, contains_iff] at hp
    have hclear := contains_eq_false_of_isFree (by simpa using hfree) hp.1 hp.2 z hz
    simp only [Holds, hclear] at hzp
    cases hzp

lemma tryGrowStack_sound (h : vm.Sound) {faultAddr : ℕ} {grown : Bool}
    (hgrow : vm.tryGrowStack faultAddr = some (grown, vm'))
    (hclear : ∀ vm', vm.tryGrowStack faultAddr = some (true, vm') → vm.GrowthClear faultAddr) :
    vm'.Sound := by
  have horig := hgrow
  unfold tryGrowStack at hgrow
  split at hgrow
  · cases hgrow
  · next stack rest hvm =>
    dsimp only at hgrow
    split_ifs at hgrow with hbelow hanon hmax hzero
    · cases hgrow
      exact h
    · cases hgrow
      exact h
    · cases hgrow
      exact h
    · cases hgrow
      have hroom := hclear _ horig stack rest hvm
      have hold := h.disjoint
      rw [hvm] at hold
      refine ⟨disjointAreas_enlarge [] rest hold ?_, h.heapEnd_lt⟩
      intro p hp hstack z hz
      refine hroom z hz p ((contains_iff _ _).mp hp).1 ?_
      have hle := alignDown_le faultAddr pageSize
      rw [contains_iff, endAddr_grown stack (by omega)] at hp
      rw [← not_eq_true, contains_iff] at hstack
      omega

lemma newNonnull_eq_ok {addr r : ℕ} (h : newNonnull addr = .ok r) : r = addr := by
  unfold newNonnull at h
  split_ifs at h
  exact (Except.ok.inj h).symm

lemma mremapGrow_sound (h : vm.Sound) {oldAddr oldSize newSize : ℕ} (hold : oldAddr < 2 ^ 64)
    (hpick : ∀ v w, vm.vmAreas.find? (fun v => decide (v.start = oldAddr)) = some v →
      vm.vmAreas.find? (fun v => decide (v.start = oldAddr) &&
        decide (wadd oldAddr oldSize ≤ v.endAddr)) = some w →
      vm.Extends w newSize → v.endAddr = w.endAddr)
    (hgrow : vm.mremapGrow oldAddr oldSize newSize = .ok vm') : vm'.Sound := by
  unfold mremapGrow at hgrow
  split at hgrow
  · cases hgrow
  · next w hw =>
    have hstart : w.start = oldAddr := by
      have hp := find?_some hw
      simp only [and_eq_true, decide_eq_true_eq] at hp
      exact hp.1
    split_ifs at hgrow with hanon
    dsimp only at hgrow
    have hend : wadd oldAddr (wsub w.endAddr w.start) = w.endAddr := by
      have hlt := w.endAddr_lt
      unfold wadd wsub
      omega
    rw [hend] at hgrow
    split at hgrow
    · cases hgrow
    · next stop hstop =>
      split_ifs at hgrow with hsize hfree
      · cases hgrow
        exact h
      · rw [newNonnull_eq_ok hstop] at hfree
        unfold extendVma at hgrow
        split at hgrow
        · next areas hareas =>
          cases hgrow
          have hext : vm.Extends w newSize := ⟨by simpa using hanon, by omega, hfree⟩
          exact ⟨growFirst_disjoint h.disjoint hareas (fun v hv => hpick v w hv hw hext) hfree,
            h.heapEnd_lt⟩
        · cases hgrow

/-- A range with an area in it cannot be extended over: the area in the way ends
behind the heap's end, so it is not the one that the test leaves out. -/
lemma not_canExtend {grow : ℕ} (hbusy : ¬vm.isFreeVaddrRange start grow = true) :
    ¬(vm.vmAreas.all fun area => (decide (area.endAddr = start) && area.areaType.isAnonymous) ||
      !area.overlaps start grow) = true := by
  intro hall
  apply hbusy
  refine all_eq_true.mpr fun z hz => ?_
  have hz' := all_eq_true.mp hall z hz
  simp only [overlaps, or_eq_true, and_eq_true, decide_eq_true_eq,
    not_eq_true', and_eq_false_iff, decide_eq_false_iff_not] at hz' ⊢
  omega

/-- Every outcome of `expand_heap_to`: the areas stay, or the shrunk part is cut
out, or the heap's area or a new one takes the free range behind the old end. -/
lemma expandHeapTo_cases (h : vm.expandHeapTo newHeapEnd = some (r, vm')) :
    vm' = vm ∨ vm' = { vm with heapEnd := newHeapEnd } ∨
    (newHeapEnd < vm.heapEnd ∧ vm' = (removeVmaRange { vm with heapEnd := newHeapEnd }
      newHeapEnd (vm.heapEnd - newHeapEnd)).2) ∨
    (∃ start grow areas, ∃ p : VmArea → Bool, vm.isFreeVaddrRange start grow = true ∧
      (∀ v, p v = true → v.endAddr = start) ∧ growFirst p grow vm.vmAreas = some areas ∧
      (start + grow < userVallocEnd ∨ ∀ stack ∈ vm.vmAreas.head?, start + grow < stack.start) ∧
      vm' = { vm with heapEnd := newHeapEnd, vmAreas := areas }) ∨
    (∃ start grow vm₁, vm.addVmArea start grow .anonymous = .ok vm₁ ∧
      vm' = { vm₁ with heapEnd := newHeapEnd }) := by
  unfold expandHeapTo at h
  split_ifs at h with hbottom hshrink
  · cases h
    exact .inl rfl
  · cases h
    exact .inr (.inr (.inl ⟨hshrink, rfl⟩))
  dsimp only at h
  generalize alignUp vm.heapEnd pageSize = alignedOld at h
  split at h
  · cases h
    exact .inl rfl
  split_ifs at h with hsmall
  · cases h
    exact .inr (.inl rfl)
  split at h
  · cases h
  next alignedNew _ _ stack rest hvm =>
  generalize hl : (if stack.start ≤ vm.heapBottom then userVallocEnd else stack.start) = limit at h
  split_ifs at h with hlimit
  · cases h
    exact .inl rfl
  split at h
  · cases h
    exact .inl rfl
  next start hstart =>
  have hstart := newNonnull_eq_ok hstart
  split_ifs at h with hfree hextend
  · split at h
    · next areas hgrow =>
      cases h
      refine .inr (.inr (.inr (.inl ⟨start, _, areas, _, hfree, ?_, hgrow, ?_, rfl⟩)))
      · intro v hv
        simp only [and_eq_true, decide_eq_true_eq] at hv
        exact hv.1.1.trans hstart.symm
      · rw [hvm, head?_cons]
        simp only [mem_some, forall_eq']
        split_ifs at hl <;> omega
    · split at h
      · cases h
        exact .inl rfl
      · next vm₁ hadd =>
        cases h
        exact .inr (.inr (.inr (.inr ⟨_, _, vm₁, hadd, rfl⟩)))
  · subst hstart
    exact absurd hextend (not_canExtend hfree)
  · cases h
    exact .inr (.inl rfl)

lemma expandHeapTo_sound (h : vm.Sound) (hlt : newHeapEnd < 2 ^ 64)
    (hexpand : vm.expandHeapTo newHeapEnd = some (r, vm')) :
    vm'.Sound := by
  rcases expandHeapTo_cases hexpand with rfl | rfl | ⟨hshrink, rfl⟩ |
    ⟨start, grow, areas, p, hfree, hend, hgrow, -, rfl⟩ | ⟨start, grow, vm₁, hadd, rfl⟩
  · exact h
  · exact ⟨h.disjoint, hlt⟩
  · have hheap := h.heapEnd_lt
    have hstop : wadd newHeapEnd (vm.heapEnd - newHeapEnd) = vm.heapEnd := by
      rw [wadd_of_lt (by omega)]
      omega
    refine removeVmaRange_sound { vm with heapEnd := newHeapEnd } ⟨h.disjoint, hlt⟩ ?_
    intro v _
    exact .inl (by omega)
  · refine ⟨growFirst_disjoint h.disjoint hgrow ?_ hfree, hlt⟩
    intro v hv
    exact hend v (find?_some hv)
  · exact ⟨(addVmAreaWithProt_sound h hadd).disjoint, hlt⟩

lemma new_sound (pml4 : ℕ) (stackBottom : ℕ) {heapBottom : ℕ} (hlt : heapBottom < 2 ^ 64) :
    (Vm.new pml4 stackBottom heapBottom).Sound := by
  refine ⟨?_, hlt⟩
  refine disjointOn_cons.mpr ⟨?_, pairwise_singleton _ _⟩
  rintro heap hheap p ⟨-, hp⟩
  rw [mem_singleton] at hheap
  subst hheap
  rw [Holds, contains_iff, endAddr, wadd_of_lt (by simpa using hlt)] at hp
  simp only at hp
  omega

/-- One step of a careful run. -/
lemma applyOp_sound (h : vm.Sound) {op : VmOp} (hok : vm.Careful op)
    (hop : vm.applyOp op = some vm') : vm'.Sound := by
  cases op with
  | addVmAreaWithProt start len areaType prot shared =>
    simp only [applyOp] at hop
    split at hop
    · next vm₁ hadd =>
      cases hop
      exact addVmAreaWithProt_sound h hadd
    · cases hop
      exact h
  | removeVmaRange start len =>
    cases hop
    exact removeVmaRange_sound vm h hok
  | updateProtRange start len prot =>
    cases hop
    exact updateProtRange_sound h prot start.ne_zero hok
  | expandHeapTo newHeapEnd =>
    obtain ⟨⟨r, vm₁⟩, hexpand, rfl⟩ := map_eq_some_iff.mp hop
    exact expandHeapTo_sound h newHeapEnd.lt hexpand
  | mremapGrow oldAddr oldSize newSize =>
    simp only [applyOp] at hop
    split at hop
    · next vm₁ hgrow =>
      cases hop
      exact mremapGrow_sound h oldAddr.lt hok hgrow
    · cases hop
      exact h
  | tryGrowStack faultAddr =>
    obtain ⟨⟨grown, vm₁⟩, hgrow, rfl⟩ := map_eq_some_iff.mp hop
    exact tryGrowStack_sound h hgrow hok

/-- In every state of a run whose steps are careful the areas are disjoint. -/
theorem reachable_disjoint {vm : Vm} (h : Reachable Careful vm) : DisjointAreas vm.vmAreas := by
  suffices hs : vm.Sound from hs.disjoint
  induction h with
  | init pml4 stackBottom heapBottom => exact new_sound pml4 _ heapBottom.lt
  | step op _ hok hop ih => exact applyOp_sound ih hok hop

/-- A fresh address space whose stack then grows by a page. -/
theorem reachable_disjoint_grown_stack :
    ∃ vm, (Vm.new 0 0x9fffe0000 0x10000000).tryGrowStack 0x9fffdf008 = some (true, vm) ∧
      Reachable Careful vm ∧ DisjointAreas vm.vmAreas := by
  obtain ⟨⟨_, vm⟩, hgrow, rfl⟩ := map_eq_some_iff.mp (show
    ((Vm.new 0 0x9fffe0000 0x10000000).tryGrowStack 0x9fffdf008).map Prod.fst = some true by decide)
  have hcareful : (Vm.new 0 0x9fffe0000 0x10000000).Careful
      (.tryGrowStack ⟨0x9fffdf008, by decide, by decide⟩) := by
    intro _ _ stack rest hvm z hz p _ _
    cases hvm
    rw [mem_singleton] at hz
    subst hz
    rw [← not_eq_true, contains_iff]
    rintro ⟨hp, hp'⟩
    exact absurd hp' (not_lt.mpr hp)
  have hreach : Reachable Careful vm := .step _ (.init 0 ⟨0x9fffe0000, by decide, by decide⟩
    ⟨0x10000000, by decide, by decide⟩) hcareful (by rw [applyOp, hgrow]; rfl)
  exact ⟨vm, hgrow, hreach, reachable_disjoint hreach⟩

/-- A mapping placed a little below the stack ends up inside it: growth looks at
no other area. -/
theorem tryGrowStack_covers_mapping :
    ∃ vm, Reachable (fun _ _ => True) vm ∧ ¬DisjointAreas vm.vmAreas := by
  have hrun : (((Vm.new 0 0x9fffe0000 0x10000000).applyOp (.addVmAreaWithProt
      ⟨0x9fffdd000, by decide, by decide⟩ 0x1000 .anonymous .rw false)).bind
      (·.applyOp (.tryGrowStack ⟨0x9fffdb000, by decide, by decide⟩))).any
      (fun vm => 1 < (seenAt vm.vmAreas 0x9fffdd000).length) = true := by decide
  obtain ⟨vm', hbind, hseen⟩ := (any_eq_true _ _).mp hrun
  obtain ⟨vm, hadd, hgrow⟩ := bind_eq_some_iff.mp hbind
  refine ⟨vm', .step _ (.step _ (.init 0 ⟨0x9fffe0000, by decide, by decide⟩
    ⟨0x10000000, by decide, by decide⟩) trivial hadd) trivial hgrow, fun h => ?_⟩
  exact absurd (disjointAreas_iff.mp h 0x9fffdd000) (not_le.mpr (of_decide_eq_true hseen))

/-! ## The area at index 0 -/

/-- The area at index 0 contains the address. -/
def FirstHolds (areas : List VmArea) (a : ℕ) : Prop :=
  ∃ stack rest, areas = stack :: rest ∧ stack.contains a = true

/-- The area at index 0 is outside of the range. -/
def FirstOutside (vm : Vm) (start stop : ℕ) : Prop :=
  ∀ stack ∈ vm.vmAreas.head?, stack.endAddr ≤ start ∨ stop ≤ stack.start

/-- The area at index 0 is inside the range. -/
def FirstInside (vm : Vm) (start stop : ℕ) : Prop :=
  ∀ stack ∈ vm.vmAreas.head?, start ≤ stack.start ∧ stack.endAddr ≤ stop

/-- The ranges of `munmap`, `mprotect` and `brk` do not cut the area at index 0. There is no
`mremap`. -/
def KeepsFirst (vm : Vm) : VmOp → Prop
  | .removeVmaRange start len => vm.FirstOutside start.value (wadd start.value len)
  | .updateProtRange start len _ => vm.FirstOutside start.value (wadd start.value len) ∨
    vm.FirstInside start.value (wadd start.value len)
  | .expandHeapTo stop => stop.value < vm.heapEnd →
    vm.FirstOutside stop.value (wadd stop.value (vm.heapEnd - stop.value))
  | .mremapGrow _ _ _ => False
  | _ => True

/-- One step that does not cut the area at index 0. -/
def FirstStep (vm vm' : Vm) : Prop := ∃ op, vm.applyOp op = some vm' ∧ vm.KeepsFirst op

variable {a : ℕ}

lemma FirstHolds.replace {pre post : List VmArea} {v v' : VmArea}
    (h : FirstHolds (pre ++ v :: post) a)
    (hv : pre = [] → v.contains a = true → v'.contains a = true) :
    FirstHolds (pre ++ v' :: post) a := by
  obtain ⟨stack, rest, heq, ha⟩ := h
  cases pre <;> cases heq
  · exact ⟨v', post, rfl, hv rfl ha⟩
  · exact ⟨stack, _, rfl, ha⟩

lemma cutLoop_cons (cut : VmArea → Except Errno Cut) (stack : VmArea) (fuel : ℕ)
    (rest : List VmArea) (i : ℕ) (pieces : List VmArea) :
    ∃ rest', (cutLoop cut fuel (stack :: rest) (i + 1) pieces).2 = stack :: rest' := by
  induction fuel generalizing rest i pieces with
  | zero => exact ⟨_, rfl⟩
  | succ fuel ih =>
    rw [cutLoop]
    split
    · exact ⟨_, rfl⟩
    split
    · exact ⟨_, rfl⟩
    · exact ih _ (i + 1) pieces
    · exact ih _ i _

lemma FirstHolds.cutLoop {cut : VmArea → Except Errno Cut} (h : FirstHolds vm.vmAreas a)
    (hcut : ∀ stack ∈ vm.vmAreas.head?, ∃ prot,
      cut stack = .ok (.keep { stack with prot := prot })) :
    FirstHolds (Vm.cutLoop cut vm.vmAreas.length vm.vmAreas 0 []).2 a := by
  obtain ⟨stack, rest, hvm, ha⟩ := h
  rw [hvm] at hcut
  obtain ⟨prot, hkeep⟩ := hcut stack rfl
  obtain ⟨rest', hrest⟩ := cutLoop_cons cut { stack with prot := prot } rest.length rest 0 []
  refine ⟨{ stack with prot := prot }, rest', ?_, ha⟩
  rw [hvm, ← hrest, length_cons, Vm.cutLoop]
  simp only [getElem?_cons_zero, hkeep]
  rfl

lemma FirstHolds.remove {stop : ℕ} (h : FirstHolds vm.vmAreas a)
    (hout : vm.FirstOutside start stop) :
    FirstHolds (Vm.cutLoop (removeCut start stop) vm.vmAreas.length vm.vmAreas 0 []).2 a :=
  h.cutLoop fun stack hstack => ⟨stack.prot, if_pos (hout stack hstack)⟩

lemma FirstHolds.addVmAreaWithProt (h : FirstHolds vm.vmAreas a) {areaType : VmAreaType}
    {prot : MMapProt} {shared : Bool}
    (hadd : vm.addVmAreaWithProt start len areaType prot shared = .ok vm') :
    FirstHolds vm'.vmAreas a := by
  unfold Vm.addVmAreaWithProt at hadd
  split_ifs at hadd <;> cases hadd
  · exact h
  · obtain ⟨stack, rest, hvm, ha⟩ := h
    exact ⟨stack, _, by rw [hvm]; rfl, ha⟩

lemma FirstHolds.tryGrowStack (h : FirstHolds vm.vmAreas a) {faultAddr : ℕ} {grown : Bool}
    (hgrow : vm.tryGrowStack faultAddr = some (grown, vm')) : FirstHolds vm'.vmAreas a := by
  obtain ⟨stack, rest, hvm, ha⟩ := h
  simp only [Vm.tryGrowStack, hvm] at hgrow
  have hle := alignDown_le faultAddr pageSize
  split_ifs at hgrow <;> cases hgrow
  iterate 3 exact ⟨stack, rest, hvm, ha⟩
  refine ⟨_, rest, rfl, ?_⟩
  rw [contains_iff] at ha ⊢
  rw [endAddr_grown stack (by omega)]
  exact ⟨by dsimp only; omega, ha.2⟩

lemma FirstHolds.expandHeapTo (h : FirstHolds vm.vmAreas a)
    (hcut : newHeapEnd < vm.heapEnd →
      vm.FirstOutside newHeapEnd (wadd newHeapEnd (vm.heapEnd - newHeapEnd)))
    (hexpand : vm.expandHeapTo newHeapEnd = some (r, vm')) : FirstHolds vm'.vmAreas a := by
  rcases expandHeapTo_cases hexpand with rfl | rfl | ⟨hshrink, rfl⟩ |
    ⟨start, grow, areas, p, -, hend, hgrow, hlimit, rfl⟩ | ⟨start, grow, vm₁, hadd, rfl⟩
  · exact h
  · exact h
  · exact h.remove (hcut hshrink)
  · obtain ⟨pre, v, post, hvm, hfind, rfl⟩ := growFirst_eq hgrow
    rw [hvm] at h hlimit
    -- the heap may end where the stack does, and then the stack's area grows
    refine h.replace fun hpre ha => ?_
    subst hpre
    have hstart := hend v (find?_some hfind)
    have hlim : start + grow < 0x0fff00000000 ∨ start + grow < v.start :=
      hlimit.imp_right fun hl => hl v rfl
    rw [contains_iff, hstart] at ha
    have hfit : start + grow < 2 ^ 64 := by omega
    rw [contains_iff, endAddr_extend, hstart, wadd_of_lt hfit]
    exact ⟨ha.1, by omega⟩
  · have hnew := h.addVmAreaWithProt hadd
    exact hnew

lemma FirstHolds.step (h : FirstHolds vm.vmAreas a) (hstep : FirstStep vm vm') :
    FirstHolds vm'.vmAreas a := by
  obtain ⟨op, hop, hok⟩ := hstep
  cases op with
  | addVmAreaWithProt start len areaType prot shared =>
    simp only [applyOp] at hop
    split at hop <;> cases hop
    · exact h.addVmAreaWithProt ‹_›
    · exact h
  | removeVmaRange start len =>
    cases hop
    exact h.remove hok
  | updateProtRange start len prot =>
    cases hop
    unfold updateProtRange
    split
    · next areas hset =>
      obtain ⟨pre, v, post, hvm, -, -, rfl⟩ := setProtExact_eq hset
      rw [hvm] at h
      exact h.replace fun _ ha => ha
    · refine h.cutLoop fun stack hstack => ?_
      unfold updateProtCut
      split_ifs with hout hin
      · exact ⟨stack.prot, rfl⟩
      · exact ⟨prot, rfl⟩
      · exact absurd (hok.imp (· stack hstack) (· stack hstack)) (not_or.mpr ⟨hout, hin⟩)
  | expandHeapTo newHeapEnd =>
    obtain ⟨⟨r, vm₁⟩, hexpand, rfl⟩ := map_eq_some_iff.mp hop
    exact h.expandHeapTo hok hexpand
  | mremapGrow oldAddr oldSize newSize => exact hok.elim
  | tryGrowStack faultAddr =>
    obtain ⟨⟨grown, vm₁⟩, hgrow, rfl⟩ := map_eq_some_iff.mp hop
    exact h.tryGrowStack hgrow

/-- In every run whose steps do not cut it, the area at index 0 contains the addresses of the
initial stack. -/
theorem firstHolds_run {pml4 : ℕ} {stackBottom heapBottom : UserVAddr}
    (hlo : stackBottom.value ≤ a) (hhi : a < userStackTop) (hrun : Relation.ReflTransGen FirstStep
      (Vm.new pml4 stackBottom.value heapBottom.value) vm) : FirstHolds vm.vmAreas a := by
  induction hrun with
  | refl =>
    have htop : userStackTop < 2 ^ 64 := by decide
    refine ⟨_, _, rfl, (contains_iff _ _).mpr ⟨hlo, ?_⟩⟩
    simp only [endAddr, wadd, wsub]
    omega
  | tail _ hstep ih => exact ih.step hstep

/-- The stack grows by a page. -/
theorem firstHolds_run_grown :
    ∃ vm, (Vm.new 0 0x9fffe0000 0x10000000).tryGrowStack 0x9fffdf008 = some (true, vm) ∧
      FirstHolds vm.vmAreas 0x9fffff000 := by
  obtain ⟨⟨_, vm⟩, hgrow, rfl⟩ := map_eq_some_iff.mp (show
    ((Vm.new 0 0x9fffe0000 0x10000000).tryGrowStack 0x9fffdf008).map Prod.fst = some true by decide)
  exact ⟨vm, hgrow, @firstHolds_run _ _ 0 ⟨0x9fffe0000, by decide, by decide⟩
    ⟨0x10000000, by decide, by decide⟩ (by decide) (by decide)
    (.single ⟨.tryGrowStack ⟨0x9fffdf008, by decide, by decide⟩, by rw [applyOp, hgrow]; rfl,
      trivial⟩)⟩

/-- Protecting the lowest page of the stack moves the rest of it behind the heap. -/
theorem updateProtRange_moves_stack : ((Vm.new 0 0x9fffe0000 0x10000000).applyOp
    (.updateProtRange ⟨0x9fffe0000, by decide, by decide⟩ 0x1000 ⟨true, false, false⟩)).any
    (fun vm => vm.vmAreas.any (·.contains 0x9fffff000) &&
      !vm.vmAreas.head?.any (·.contains 0x9fffff000)) = true := by
  decide

end Vm
end Kevlar
