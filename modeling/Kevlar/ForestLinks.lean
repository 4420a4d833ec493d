import Kevlar.ProcessForest

/-!
# Parent links and children lists

The lists and the links of the process forest agree as long as processes exit without
children: `Inv` is kept by every step that respects the condition. The first exit with
children, the first thread killed with children and the first process that reaps a
namesake along with itself separate the two.
-/
namespace Kevlar.Processes
open Forest Function List

/-! ## The invariant -/

structure Inv (s : Forest) : Prop where
  allocated : ∀ o p, s.procs o = some p → o < s.next
  linked : ∀ q p, s.procs q = some p → ∀ c ∈ p.children,
    s.reaped c = false ∧ ∃ pc, s.procs c = some pc ∧ pc.parent = some q
  nodup : ∀ q p, s.procs q = some p → p.children.Nodup
  listed : ∀ c < s.next, c ≠ init → s.reaped c = false →
    ∃ pc q p, s.procs c = some pc ∧ pc.parent = some q ∧ s.procs q = some p ∧ c ∈ p.children
  childless : ∀ q p, s.procs q = some p → p.state.isExited → p.children = []
  inTable : ∀ q p, s.procs q = some p → p.state.isExited = false → q ∈ s.table
  tablePids : ∀ q ∈ s.table, ∀ q' ∈ s.table, ∀ p p', s.procs q = some p →
    s.procs q' = some p' → p.pid = p'.pid → q = q'
  older : ∀ q p o, s.procs q = some p → p.parent = some o → o < q
  initPid : ∀ q p, s.procs q = some p → p.pid = initPid → q = init
  reapedOld : ∀ c, s.reaped c = true → c < s.next
  tableOld : ∀ q ∈ s.table, q < s.next

lemma Inv.boot : Inv boot := by
  have hone : ∀ o p, Processes.boot.procs o = some p →
      o = init ∧ p = ⟨Processes.initPid, Processes.initPid, .runnable, none, [], false, false⟩ := by
    intro o p h
    have h' := (update_apply (fun _ => none) init _ o).symm.trans h
    split_ifs at h' with ho
    exact ⟨ho, (Option.some.inj h').symm⟩
  constructor <;> grind [Processes.boot, init, ProcessState.isExited]

@[grind =] lemma procs_alter (s : Forest) (o q : Obj) (f : Process → Process) :
    (s.alter o f).procs q = if q = o then (s.procs o).map f else s.procs q :=
  update_apply s.procs o _ q

/-- What the creation of a process does: there is a new child, its parent lists it, and
nothing else changes. -/
structure Created (s s' : Forest) (parent : Obj) (p : Process) (kind : Creation) (pid : ℕ) :
    Prop where
  parent_eq : s.procs parent = some p
  running : ¬ p.state.isExited
  pid_gt : 1 < pid
  pid_fresh : some pid ∉ s.table.map s.pidOf
  procs : ∀ q, s'.procs q = if q = s.next then some (kind.child parent p pid) else
    if q = parent then some { p with children := p.children ++ [s.next] } else s.procs q
  next : s'.next = s.next + 1
  table : s'.table = s.table ++ [s.next]
  reaped : s'.reaped = s.reaped

variable {s s' t : Forest} {pid : ℕ} {q o c : Obj} {p r p' : Process} {f : Process → Process}
  {state : ProcessState}

variable {parent : Obj} {kind : Creation} {i : ℕ} {status : BitVec 32} {link : Option Obj}

lemma created_of_create (hstep : s.create parent kind pid = some s') :
    ∃ p, Created s s' parent p kind pid := by
  unfold create at hstep
  split at hstep
  next => cases hstep
  next p hp =>
    split_ifs at hstep with hguard
    push Not at hguard
    obtain ⟨hrunning, hpid, hfresh⟩ := hguard
    cases hstep
    refine ⟨p, hp, hrunning, hpid, hfresh, fun q => ?_, rfl, rfl, rfl⟩
    change update _ _ _ _ = _
    rw [update_apply, procs_alter, hp]
    rfl

namespace Created

variable {s s' : Forest} {parent : Obj} {p : Process} {kind : Creation} {pid : ℕ}
  (hc : Created s s' parent p kind pid) (h : Inv s)

include hc

variable {q : Obj} {r : Process}

/-- Every process of the new forest is the child, the parent with one more child, or old. -/
lemma procs_cases (hq : s'.procs q = some r) :
    (q = s.next ∧ r = kind.child parent p pid) ∨
      (q = parent ∧ r = { p with children := p.children ++ [s.next] }) ∨
      (q ≠ s.next ∧ q ≠ parent ∧ s.procs q = some r) := by
  rw [hc.procs] at hq
  split_ifs at hq with h₁ h₂
  · exact .inl ⟨h₁, (Option.some.inj hq).symm⟩
  · exact .inr (.inl ⟨h₂, (Option.some.inj hq).symm⟩)
  · exact .inr (.inr ⟨h₁, h₂, hq⟩)

include h

/-- A process of the old forest keeps its parent, its identifier and its children. -/
lemma kept (hr : s.procs q = some r) :
    ∃ r', s'.procs q = some r' ∧ r'.parent = r.parent ∧ r'.pid = r.pid ∧
      r.children ⊆ r'.children := by
  rw [hc.procs, if_neg (h.allocated q r hr).ne]
  split_ifs with hq
  · rw [hq, hc.parent_eq] at hr
    cases hr
    exact ⟨_, rfl, rfl, rfl, subset_append_left _ _⟩
  · exact ⟨r, hr, rfl, rfl, List.Subset.refl _⟩

lemma linked (hq : s'.procs q = some r) {c : Obj} (hmem : c ∈ r.children) :
    s'.reaped c = false ∧ ∃ pc, s'.procs c = some pc ∧ pc.parent = some q := by
  have hold : ∀ {q r}, s.procs q = some r → c ∈ r.children →
      s.reaped c = false ∧ ∃ pc, s'.procs c = some pc ∧ pc.parent = some q := by
    intro q r hq hmem
    obtain ⟨hr, pc, hpc, hlink⟩ := h.linked q r hq c hmem
    obtain ⟨pc', hpc', hparent, -⟩ := hc.kept h hpc
    exact ⟨hr, pc', hpc', hparent.trans hlink⟩
  rw [hc.reaped]
  rcases hc.procs_cases hq with ⟨-, rfl⟩ | ⟨rfl, rfl⟩ | ⟨-, -, hq⟩
  · cases hmem
  · rcases mem_append.mp hmem with hmem | hmem
    · exact hold hc.parent_eq hmem
    · rw [mem_singleton.mp hmem]
      have hnew : s.reaped s.next = false := by
        by_contra hr
        exact absurd (h.reapedOld s.next (by simpa using hr)) (lt_irrefl _)
      exact ⟨hnew, _, by rw [hc.procs, if_pos rfl], rfl⟩
  · exact hold hq hmem

lemma nodup (hq : s'.procs q = some r) : r.children.Nodup := by
  rcases hc.procs_cases hq with ⟨-, rfl⟩ | ⟨rfl, rfl⟩ | ⟨-, -, hq⟩
  · exact nodup_nil
  · have hnotin : s.next ∉ p.children := by
      intro hmem
      obtain ⟨-, pc, hpc, -⟩ := h.linked _ p hc.parent_eq _ hmem
      exact absurd (h.allocated _ pc hpc) (lt_irrefl _)
    rw [← concat_eq_append]
    exact (h.nodup _ p hc.parent_eq).concat hnotin
  · exact h.nodup q r hq

lemma listed {c : Obj} (hlt : c < s'.next) (hinit : c ≠ init) (hr : s'.reaped c = false) :
    ∃ pc q r, s'.procs c = some pc ∧ pc.parent = some q ∧ s'.procs q = some r ∧
      c ∈ r.children := by
  by_cases hnew : c = s.next
  · subst hnew
    have hne := (h.allocated parent p hc.parent_eq).ne
    exact ⟨_, parent, _, by rw [hc.procs, if_pos rfl], rfl,
      by rw [hc.procs, if_neg hne, if_pos rfl], by simp⟩
  · rw [hc.reaped] at hr
    rw [hc.next] at hlt
    have hold : c < s.next := lt_of_le_of_ne (Nat.lt_succ_iff.mp hlt) hnew
    obtain ⟨pc, q, r, hpc, hlink, hq, hmem⟩ := h.listed c hold hinit hr
    obtain ⟨pc', hpc', hparent, -⟩ := hc.kept h hpc
    obtain ⟨r', hq', -, -, hsub⟩ := hc.kept h hq
    exact ⟨pc', q, r', hpc', hparent.trans hlink, hq', hsub hmem⟩

/-- A process that was in the table has its identifier, which is not the new one. -/
lemma pid_before (hq : q ∈ s.table) (hr : s'.procs q = some r) :
    ∃ r', s.procs q = some r' ∧ r'.pid = r.pid ∧ r.pid ≠ pid := by
  have hpidOf : ∀ r', s.procs q = some r' → r'.pid ≠ pid := by
    rintro r' hr' rfl
    exact hc.pid_fresh (mem_map.mpr ⟨q, hq, by rw [pidOf, hr', Option.map_some]⟩)
  rcases hc.procs_cases hr with ⟨rfl, -⟩ | ⟨rfl, rfl⟩ | ⟨-, -, hr⟩
  · exact absurd (h.tableOld _ hq) (lt_irrefl _)
  · exact ⟨p, hc.parent_eq, rfl, hpidOf p hc.parent_eq⟩
  · exact ⟨r, hr, rfl, hpidOf r hr⟩

lemma tablePids {q' : Obj} (hq : q ∈ s'.table) (hq' : q' ∈ s'.table) {r' : Process}
    (hr : s'.procs q = some r) (hr' : s'.procs q' = some r') (hpids : r.pid = r'.pid) :
    q = q' := by
  have hchild : ∀ r, s'.procs s.next = some r → r.pid = pid := by
    intro r hr
    rw [hc.procs, if_pos rfl] at hr
    cases hr
    rfl
  rw [hc.table, mem_append, mem_singleton] at hq hq'
  rcases hq with hq | rfl <;> rcases hq' with hq' | rfl
  · obtain ⟨o, ho, hopid, -⟩ := hc.pid_before h hq hr
    obtain ⟨o', ho', hopid', -⟩ := hc.pid_before h hq' hr'
    exact h.tablePids q hq q' hq' o o' ho ho' (by rw [hopid, hopid', hpids])
  · obtain ⟨-, -, -, hne⟩ := hc.pid_before h hq hr
    exact absurd (hpids.trans (hchild r' hr')) hne
  · obtain ⟨-, -, -, hne⟩ := hc.pid_before h hq' hr'
    exact absurd (hpids.symm.trans (hchild r hr)) hne
  · rfl

end Created

lemma Inv.create (h : Inv s) (hstep : s.create parent kind pid = some s') : Inv s' := by
  obtain ⟨p, hc⟩ := created_of_create hstep
  have hp := hc.parent_eq
  have hlt := h.allocated parent p hp
  exact {
    allocated := by
      intro q r hq
      rw [hc.next, Nat.lt_succ_iff]
      rcases hc.procs_cases hq with ⟨rfl, -⟩ | ⟨rfl, -⟩ | ⟨-, -, hq⟩
      · exact le_refl _
      · exact hlt.le
      · exact (h.allocated q r hq).le
    linked := fun q r hq c hmem => hc.linked h hq hmem
    nodup := fun q r hq => hc.nodup h hq
    listed := fun c hlt hinit hr => hc.listed h hlt hinit hr
    childless := by
      intro q r hq hexited
      rcases hc.procs_cases hq with ⟨-, rfl⟩ | ⟨rfl, rfl⟩ | ⟨-, -, hq⟩
      · rfl
      · exact absurd hexited hc.running
      · exact h.childless q r hq hexited
    inTable := by
      intro q r hq hexited
      rw [hc.table, mem_append]
      rcases hc.procs_cases hq with ⟨rfl, -⟩ | ⟨rfl, rfl⟩ | ⟨-, -, hq⟩
      · exact .inr (mem_singleton_self _)
      · exact .inl (h.inTable _ p hp hexited)
      · exact .inl (h.inTable q r hq hexited)
    tablePids := fun q hq q' hq' r r' hr hr' hpids => hc.tablePids h hq hq' hr hr' hpids
    older := by
      intro q r o hq hlink
      rcases hc.procs_cases hq with ⟨rfl, rfl⟩ | ⟨rfl, rfl⟩ | ⟨-, -, hq⟩
      · cases hlink
        exact hlt
      · exact h.older _ p o hp hlink
      · exact h.older q r o hq hlink
    initPid := by
      intro q r hq hone
      rcases hc.procs_cases hq with ⟨rfl, rfl⟩ | ⟨rfl, rfl⟩ | ⟨-, -, hq⟩
      · exact absurd (show pid = Processes.initPid from hone) hc.pid_gt.ne'
      · exact h.initPid _ p hp hone
      · exact h.initPid q r hq hone
    reapedOld := by
      intro c hr
      rw [hc.reaped] at hr
      rw [hc.next]
      exact (h.reapedOld c hr).trans (Nat.lt_succ_self _)
    tableOld := by
      intro q hq
      rw [hc.table, mem_append, mem_singleton] at hq
      rw [hc.next, Nat.lt_succ_iff]
      exact hq.elim (fun hq => (h.tableOld q hq).le) le_of_eq }

/-! ## Steps without a new process -/

/-- The processes, their identifiers and their links stay; what leaves a list is what has
been reaped. -/
structure Updates (s s' : Forest) : Prop where
  next : s'.next = s.next
  kept : ∀ q p, s.procs q = some p → ∃ p', s'.procs q = some p'
  procs : ∀ q p', s'.procs q = some p' → ∃ p, s.procs q = some p ∧ p'.pid = p.pid ∧
    p'.parent = p.parent ∧ p'.children.Nodup ∧
    (∀ c, c ∈ p'.children ↔ c ∈ p.children ∧ s'.reaped c = false) ∧
    (p'.state.isExited → p'.children = []) ∧ (p'.state.isExited = false → q ∈ s'.table)
  table : s'.table ⊆ s.table
  reaped : ∀ c, s.reaped c = true → s'.reaped c = true
  reapedOld : ∀ c, s'.reaped c = true → c < s.next

lemma Inv.updates (h : Inv s) (u : Updates s s') : Inv s' where
  allocated := by
    intro o p' ho
    obtain ⟨p, hp, -⟩ := u.procs o p' ho
    rw [u.next]
    exact h.allocated o p hp
  linked := by
    intro q p' hq c hc
    obtain ⟨p, hp, -, -, -, hchildren, -⟩ := u.procs q p' hq
    obtain ⟨hc, hr⟩ := (hchildren c).mp hc
    obtain ⟨-, pc, hpc, hlink⟩ := h.linked q p hp c hc
    obtain ⟨pc', hpc'⟩ := u.kept c pc hpc
    obtain ⟨pc₀, hpc₀, -, hparent, -⟩ := u.procs c pc' hpc'
    rw [hpc] at hpc₀
    cases hpc₀
    exact ⟨hr, pc', hpc', hparent.trans hlink⟩
  nodup := by
    intro q p' hq
    obtain ⟨-, -, -, -, hnodup, -⟩ := u.procs q p' hq
    exact hnodup
  listed := by
    intro c hc hinit hr
    rw [u.next] at hc
    have hr₀ : s.reaped c = false := by
      by_contra hne
      rw [u.reaped c (by simpa using hne)] at hr
      cases hr
    obtain ⟨pc, q, p, hpc, hlink, hq, hmem⟩ := h.listed c hc hinit hr₀
    obtain ⟨pc', hpc'⟩ := u.kept c pc hpc
    obtain ⟨p', hq'⟩ := u.kept q p hq
    obtain ⟨pc₀, hpc₀, -, hparent, -⟩ := u.procs c pc' hpc'
    obtain ⟨p₀, hp₀, -, -, -, hchildren, -⟩ := u.procs q p' hq'
    rw [hpc] at hpc₀
    cases hpc₀
    rw [hq] at hp₀
    cases hp₀
    exact ⟨pc', q, p', hpc', hparent.trans hlink, hq', (hchildren c).mpr ⟨hmem, hr⟩⟩
  childless := by
    intro q p' hq hexited
    obtain ⟨-, -, -, -, -, -, hchildless, -⟩ := u.procs q p' hq
    exact hchildless hexited
  inTable := by
    intro q p' hq hrunning
    obtain ⟨-, -, -, -, -, -, -, htable⟩ := u.procs q p' hq
    exact htable hrunning
  tablePids := by
    intro q hq q' hq' p p' hp hp' hpids
    obtain ⟨r, hr, hpid, -⟩ := u.procs q p hp
    obtain ⟨r', hr', hpid', -⟩ := u.procs q' p' hp'
    exact h.tablePids q (u.table hq) q' (u.table hq') r r' hr hr' (by rw [← hpid, ← hpid', hpids])
  older := by
    intro q p' o hq hlink
    obtain ⟨p, hp, -, hparent, -⟩ := u.procs q p' hq
    exact h.older q p o hp (hparent ▸ hlink)
  initPid := by
    intro q p' hq hone
    obtain ⟨p, hp, hpid, -⟩ := u.procs q p' hq
    exact h.initPid q p hp (hpid ▸ hone)
  reapedOld := by
    intro c hc
    rw [u.next]
    exact u.reapedOld c hc
  tableOld := by
    intro q hq
    rw [u.next]
    exact h.tableOld q (u.table hq)

lemma Inv.mem_children_iff (h : Inv s) (hq : s.procs q = some p) (c : Obj) :
    c ∈ p.children ↔ c ∈ p.children ∧ s.reaped c = false :=
  ⟨fun hc => ⟨hc, (h.linked q p hq c hc).1⟩, And.left⟩

/-- References to exited processes do not matter to the invariant. -/
lemma Inv.withExited (h : Inv s) (exited : List Obj) :
    Inv { s with exited := exited } :=
  ⟨h.allocated, h.linked, h.nodup, h.listed, h.childless, h.inTable, h.tablePids, h.older,
    h.initPid, h.reapedOld, h.tableOld⟩

/-- A change of one process that keeps its identifier, its link and its children. -/
lemma Inv.alter (h : Inv s)
    (hf : ∀ p, s.procs o = some p → (f p).pid = p.pid ∧ (f p).parent = p.parent ∧
      (f p).children = p.children ∧ ((f p).state.isExited → p.children = []) ∧
      ((f p).state.isExited = false → p.state.isExited = false)) : Inv (s.alter o f) := by
  apply h.updates
  exact {
    next := rfl
    kept := by
      intro q r hr
      rw [procs_alter]
      split_ifs with hq
      · exact ⟨f r, by rw [← hq, hr, Option.map_some]⟩
      · exact ⟨r, hr⟩
    procs := by
      intro q r hr
      rw [procs_alter] at hr
      split_ifs at hr with hq
      · subst hq
        obtain ⟨p, hp, rfl⟩ := Option.map_eq_some_iff.mp hr
        obtain ⟨hpid, hparent, hchildren, hexited, hrunning⟩ := hf p hp
        rw [hchildren]
        exact ⟨p, hp, hpid, hparent, h.nodup _ p hp, h.mem_children_iff hp, hexited,
          fun hrun => h.inTable _ p hp (hrunning hrun)⟩
      · exact ⟨r, hr, rfl, rfl, h.nodup q r hr, h.mem_children_iff hr, h.childless q r hr,
          h.inTable q r hr⟩
    table := List.Subset.refl _
    reaped := fun _ hc => hc
    reapedOld := h.reapedOld }

/-- A process leaves the list of its parent and counts as reaped from then on. -/
lemma Inv.reap (h : Inv s) (ho : s.procs o = some p) (hlink : p.parent = some q)
    (hq : s.procs q = some r) {rest : List Obj} (hf : f r = { r with children := rest })
    (hnodup : rest.Nodup) (hrest : ∀ c, c ∈ rest ↔ c ∈ r.children ∧ c ≠ o) :
    Inv { s.alter q f with reaped := update s.reaped o true } := by
  have hreaped : ∀ c, update s.reaped o true c = false ↔ c ≠ o ∧ s.reaped c = false := by
    intro c
    rw [update_apply]
    split_ifs with hc <;> simp [hc]
  apply h.updates
  exact {
    next := rfl
    kept := by
      intro q' r' hr'
      rw [procs_alter]
      split_ifs
      · exact ⟨_, by rw [hq, Option.map_some]⟩
      · exact ⟨r', hr'⟩
    procs := by
      intro q' r' hr'
      rw [procs_alter] at hr'
      split_ifs at hr' with hqq
      · rw [hq, Option.map_some, hf, Option.some.injEq] at hr'
        subst hqq hr'
        refine ⟨r, hq, rfl, rfl, hnodup, ?_, ?_, h.inTable _ r hq⟩
        · intro c
          rw [hreaped, hrest, ← and_assoc]
          exact ⟨fun hc => ⟨hc, (h.linked _ r hq c hc.1).1⟩, And.left⟩
        · intro hexited
          apply eq_nil_iff_forall_not_mem.mpr
          intro c hc
          have hc := ((hrest c).mp hc).1
          rw [h.childless _ r hq hexited] at hc
          cases hc
      · refine ⟨r', hr', rfl, rfl, h.nodup q' r' hr', ?_, h.childless q' r' hr',
          h.inTable q' r' hr'⟩
        intro c
        rw [hreaped]
        refine ⟨fun hc => ?_, And.left⟩
        obtain ⟨hr, pc, hpc, hlinkc⟩ := h.linked q' r' hr' c hc
        refine ⟨hc, ?_, hr⟩
        -- the link of the reaped process leads elsewhere
        rintro rfl
        rw [ho] at hpc
        cases hpc
        exact hqq (Option.some.inj (hlinkc.symm.trans hlink))
    table := List.Subset.refl _
    reaped := by
      intro c hc
      change update s.reaped o true c = true
      rw [update_apply]
      split_ifs
      · rfl
      · exact hc
    reapedOld := by
      intro c hc
      change update s.reaped o true c = true at hc
      rw [update_apply] at hc
      split_ifs at hc with hco
      · rw [hco]
        exact h.allocated o p ho
      · exact h.reapedOld c hc }

/-- A table that keeps every running process. -/
lemma Inv.withTable {table : List Obj} (h : Inv s) (hsub : table ⊆ s.table)
    (hrunning : ∀ q p, s.procs q = some p → p.state.isExited = false → q ∈ table) :
    Inv { s with table := table } where
  allocated := h.allocated
  linked := h.linked
  nodup := h.nodup
  listed := h.listed
  childless := h.childless
  inTable := hrunning
  tablePids := fun q hq q' hq' => h.tablePids q (hsub hq) q' (hsub hq')
  older := h.older
  initPid := h.initPid
  reapedOld := h.reapedOld
  tableOld := fun q hq => h.tableOld q (hsub hq)

lemma swapRemove_perm {α : Type} {xs : List α} (hi : i < xs.length) :
    (swapRemove xs i).Perm (xs.eraseIdx i) := by
  unfold swapRemove
  cases hlast : xs.getLast? with
  | none => simp [getLast?_eq_none_iff.mp hlast] at hi
  | some last =>
    obtain ⟨ys, rfl⟩ := getLast?_eq_some_iff.mp hlast
    rw [length_append, length_singleton] at hi
    simp only
    by_cases hlt : i < ys.length
    · rw [set_append_left _ _ hlt, dropLast_concat, eraseIdx_append_of_lt_length hlt]
      exact (set_perm_cons_eraseIdx hlt last).trans (perm_append_singleton _ _).symm
    · obtain rfl : i = ys.length := by omega
      simp [eraseIdx_append_of_length_le]

lemma mem_swapRemove {xs : List Obj} (hnodup : xs.Nodup) (hi : i < xs.length) (c : Obj) :
    c ∈ swapRemove xs i ↔ c ∈ xs ∧ c ≠ xs[i] := by
  rw [(swapRemove_perm hi).mem_iff, ← hnodup.erase_getElem i hi, hnodup.mem_erase_iff, and_comm]

/-! ## The steps -/

lemma Inv.killSiblings (h : Inv s) (hrespects : Respects s (.killSiblings o status))
    (hstep : s.killSiblings o status = some s') :
    Inv s' := by
  unfold Forest.killSiblings at hstep
  split at hstep
  next => cases hstep
  next p hp =>
    split_ifs at hstep with hexited
    cases hstep
    apply h.updates
    exact {
      next := rfl
      kept := by
        intro q r hr
        dsimp only
        split_ifs
        · exact ⟨_, by rw [hr, Option.map_some]⟩
        · exact ⟨r, hr⟩
      procs := by
        intro q r' hr'
        dsimp only at hr'
        split_ifs at hr' with hdies
        · obtain ⟨r, hr, rfl⟩ := Option.map_eq_some_iff.mp hr'
          rw [Bool.and_eq_true, decide_eq_true_eq] at hdies
          refine ⟨r, hr, rfl, rfl, h.nodup q r hr, ?_, ?_, fun hrun => nomatch hrun⟩
          · exact h.mem_children_iff (p := r) hr
          · exact fun _ => hrespects p hp q hdies.1 hdies.2 r hr
        · refine ⟨r', hr', rfl, rfl, h.nodup q r' hr', h.mem_children_iff hr', h.childless q r' hr',
            fun hrun => ?_⟩
          exact mem_filter.mpr ⟨h.inTable q r' hr' hrun, Bool.not_eq_true' _ ▸
            Bool.not_eq_true _ ▸ hdies⟩
      table := filter_sublist.subset
      reaped := fun _ hc => hc
      reapedOld := h.reapedOld }

lemma Inv.evict (h : Inv s) (ho : s.procs o = some p) (pid : ℕ) :
    Inv (s.evict o p.children pid) := by
  unfold Forest.evict
  split
  next => exact h
  next i hfind =>
    obtain ⟨hi, -, -⟩ := findIdx?_eq_some_iff_getElem.mp hfind
    rw [getElem?_eq_getElem hi]
    obtain ⟨-, pc, hpc, hlink⟩ := h.linked o p ho p.children[i] (getElem_mem hi)
    have hnodup := h.nodup o p ho
    exact (h.reap hpc hlink ho rfl ((swapRemove_perm hi).nodup_iff.mpr (hnodup.eraseIdx i))
      (mem_swapRemove hnodup hi)).withExited _

lemma Inv.sysWait4 {wanted : Option ℕ} {options : WaitOptions} {result : WaitResult} (h : Inv s)
    (hstep : s.sysWait4 o wanted options = some (result, s')) :
    Inv s' := by
  unfold Forest.sysWait4 at hstep
  split at hstep
  next => cases hstep
  next p hp =>
    split_ifs at hstep
    · cases hstep
      exact h
    · split at hstep
      next pid encoded hscan =>
        split_ifs at hstep
        · cases hstep
          exact (h.evict hp pid).withExited []
        · cases hstep
          exact h
      next =>
        cases hstep
        exact h

lemma Inv.dropProcess (h : Inv s) (hstep : s.dropProcess o = some s') :
    Inv s' := by
  unfold Forest.dropProcess at hstep
  split_ifs at hstep with hrefs
  cases hstep
  push Not at hrefs
  obtain ⟨htable, -, hlists⟩ := hrefs
  have hunlisted : ∀ q p, s.procs q = some p → o ∉ p.children := by
    intro q p hq hmem
    apply hlists
    rw [any_eq_true]
    exact ⟨q, mem_range.mpr (h.allocated q p hq), by simpa [hq] using hmem⟩
  -- a process outside the table has exited, so it has no children
  have hchildless : ∀ p, s.procs o = some p → p.children = [] := by
    intro p hp
    apply h.childless o p hp
    by_contra hrun
    exact htable (h.inTable o p hp (by simpa using hrun))
  have hcases : ∀ q p, update s.procs o none q = some p → q ≠ o ∧ s.procs q = some p := by
    intro q p hq
    rw [update_apply] at hq
    split_ifs at hq with hne
    exact ⟨hne, hq⟩
  have hkept : ∀ q p, q ≠ o → s.procs q = some p → update s.procs o none q = some p := by
    intro q p hne hq
    rw [update_of_ne hne, hq]
  exact {
    allocated := fun q p hq => h.allocated q p (hcases q p hq).2
    linked := by
      intro q p hq c hc
      obtain ⟨hr, pc, hpc, hlink⟩ := h.linked q p (hcases q p hq).2 c hc
      have hne : c ≠ o := by
        rintro rfl
        exact hunlisted q p (hcases q p hq).2 hc
      exact ⟨hr, pc, hkept c pc hne hpc, hlink⟩
    nodup := fun q p hq => h.nodup q p (hcases q p hq).2
    listed := by
      intro c hc hinit hr
      obtain ⟨pc, q, p, hpc, hlink, hq, hmem⟩ := h.listed c hc hinit hr
      have hne : c ≠ o := by
        rintro rfl
        exact hunlisted q p hq hmem
      have hne' : q ≠ o := by
        rintro rfl
        rw [hchildless p hq] at hmem
        cases hmem
      exact ⟨pc, q, p, hkept c pc hne hpc, hlink, hkept q p hne' hq, hmem⟩
    childless := fun q p hq => h.childless q p (hcases q p hq).2
    inTable := fun q p hq => h.inTable q p (hcases q p hq).2
    tablePids := fun q hq q' hq' p p' hp hp' =>
      h.tablePids q hq q' hq' p p' (hcases q p hp).2 (hcases q' p' hp').2
    older := fun q p o hq => h.older q p o (hcases q p hq).2
    initPid := fun q p hq => h.initPid q p (hcases q p hq).2
    reapedOld := h.reapedOld
    tableOld := h.tableOld }

lemma upgrade_eq_some :
    s.upgrade link = some (q, r) ↔ link = some q ∧ s.procs q = some r := by
  cases link with
  | none => simp [upgrade]
  | some o =>
    simp only [upgrade, Option.bind_some, Option.map_eq_some_iff, Prod.mk.injEq, Option.some.injEq]
    constructor
    · rintro ⟨r', hr', rfl, rfl⟩
      exact ⟨rfl, hr'⟩
    · rintro ⟨rfl, hr⟩
      exact ⟨r, hr, rfl, rfl⟩

lemma pidOf_alter (hf : ∀ p, (f p).pid = p.pid) (q : Obj) :
    (s.alter o f).pidOf q = s.pidOf q := by
  rw [pidOf, procs_alter, pidOf]
  split_ifs with hq
  · rw [hq, Option.map_map]
    exact congrArg (fun g => (s.procs o).map g) (funext hf)
  · rfl

lemma Inv.notifyParent (h : Inv t) (ho : t.procs o = some p') (hlink : p'.parent = p.parent)
    (hpid : p'.pid = p.pid) (hnames : ∀ q r, t.upgrade p.parent = some (q, r) → r.nocldwait →
      ∀ c ∈ r.children, t.pidOf c = some p.pid → c = o) : Inv (t.notifyParent o p) := by
  unfold Forest.notifyParent
  split
  next => exact h
  next q r hup =>
    split_ifs with hignores
    · obtain ⟨hparent, hq⟩ := upgrade_eq_some.mp hup
      refine (h.reap ho (hlink.trans hparent) hq rfl ((h.nodup q r hq).filter _) ?_).withExited _
      intro c
      rw [mem_filter, decide_eq_true_eq]
      refine and_congr_right fun hc => not_congr ⟨hnames q r hup hignores c hc, ?_⟩
      rintro rfl
      rw [pidOf, ho, Option.map_some, hpid]
    · exact h

lemma Inv.removePid (h : Inv t) (ho : t.procs o = some p) (hpid : p.pid = pid)
    (hexited : p.state.isExited) (htable : o ∈ t.table) : Inv (t.removePid pid) := by
  apply h.withTable filter_sublist.subset
  intro q r hr hrunning
  have hq := h.inTable q r hr hrunning
  refine mem_filter.mpr ⟨hq, ?_⟩
  rw [decide_eq_true_eq, pidOf, hr, Option.map_some, ne_eq, Option.some.injEq]
  intro hpids
  obtain rfl := h.tablePids q hq o htable r p hr ho (hpids.trans hpid.symm)
  rw [hr] at ho
  cases ho
  rw [hexited] at hrunning
  cases hrunning

lemma procs_notifyParent (t : Forest) (o : Obj) (p : Process) (q : Obj) :
    (t.notifyParent o p).procs q = (t.procs q).map fun r =>
      if p.parent = some q ∧ r.nocldwait then
        { r with children := r.children.filter (t.pidOf · ≠ some p.pid) }
      else r := by
  unfold Forest.notifyParent
  cases hup : t.upgrade p.parent with
  | none =>
    cases hr : t.procs q with
    | none => rfl
    | some r =>
      rw [Option.map_some, if_neg]
      rintro ⟨hparent, -⟩
      rw [upgrade_eq_some.mpr ⟨hparent, hr⟩] at hup
      cases hup
  | some found =>
    obtain ⟨q', r'⟩ := found
    obtain ⟨hparent, hq'⟩ := upgrade_eq_some.mp hup
    by_cases hq : q = q'
    · subst hq
      rw [hq', Option.map_some]
      dsimp only
      by_cases hignores : r'.nocldwait
      · rw [if_pos hignores, if_pos ⟨hparent, hignores⟩]
        exact (procs_alter t q q _).trans (by rw [if_pos rfl, hq', Option.map_some])
      · rw [if_neg hignores, if_neg fun hcon => hignores hcon.2]
        exact hq'
    · have hne : p.parent ≠ some q := by
        rw [hparent]
        exact fun heq => hq (Option.some.inj heq).symm
      simp only [hne, false_and, if_false, Option.map_id']
      split_ifs
      · rw [procs_alter, if_neg hq]
      · rfl

lemma reaped_notifyParent (p : Process) (hc : c ≠ o) :
    (t.notifyParent o p).reaped c = t.reaped c := by
  unfold Forest.notifyParent
  split
  next => rfl
  next =>
    split_ifs
    · exact update_of_ne hc _ _
    · rfl

@[simp] lemma table_notifyParent : (t.notifyParent o p).table = t.table := by
  unfold Forest.notifyParent
  split
  next => rfl
  next => split_ifs <;> rfl

@[simp] lemma next_notifyParent (t : Forest) (o : Obj) (p : Process) :
    (t.notifyParent o p).next = t.next := by
  unfold Forest.notifyParent
  split
  next => rfl
  next => split_ifs <;> rfl

/-- The rest of an exit in a forest where the exiting process counts as exited. -/
lemma Inv.leave (h : Inv t) (ho : t.procs o = some p') (hlink : p'.parent = p.parent)
    (hpid : p'.pid = p.pid) (hexited : p'.state.isExited) (htable : o ∈ t.table)
    (hnames : p.tgid = p.pid → ∀ q r, t.upgrade p.parent = some (q, r) →
      r.nocldwait → ∀ c ∈ r.children, t.pidOf c = some p.pid → c = o) : Inv (t.leave o p) := by
  unfold Forest.leave
  have hpushed : Inv { t with exited := o :: t.exited } := h.withExited _
  split_ifs with hthread
  · exact hpushed.removePid ho hpid hexited htable
  · push Not at hthread
    have hnotify := hpushed.notifyParent ho hlink hpid (hnames hthread)
    have hkept : (Forest.notifyParent { t with exited := o :: t.exited } o p).procs o =
        some p' := by
      rw [procs_notifyParent, ho, Option.map_some, if_neg]
      rintro ⟨hself, -⟩
      exact absurd (h.older o p' o ho (hlink.trans hself)) (lt_irrefl _)
    exact hnotify.removePid hkept hpid hexited (by rwa [table_notifyParent])

lemma Inv.exit (h : Inv s) (hrespects : Respects s (.exit o state))
    (hstep : s.exit o state = some s') : Inv s' := by
  unfold Forest.exit at hstep
  split at hstep
  next => cases hstep
  next p hp =>
    obtain ⟨hchildren, hnames⟩ := hrespects p hp
    split_ifs at hstep with hguard
    push Not at hguard
    obtain ⟨hrunning, hexited, -⟩ := hguard
    rw [reparent, if_pos hchildren, Option.map_some, Option.some.injEq] at hstep
    subst hstep
    have hdead : Inv (s.alter o fun p => { p with state := state }) := by
      apply h.alter
      intro r hr
      rw [hp] at hr
      cases hr
      exact ⟨rfl, rfl, rfl, fun _ => hchildren, fun hrun => by rw [hexited] at hrun; cases hrun⟩
    have ho : (s.alter o fun p => { p with state := state }).procs o =
        some { p with state := state } := by
      rw [procs_alter, if_pos rfl, hp, Option.map_some]
    refine hdead.leave ho rfl rfl hexited (h.inTable o p hp (by simpa using hrunning)) ?_
    intro hleader q r hup hignores c hc hpid
    obtain ⟨hparent, hq⟩ := upgrade_eq_some.mp hup
    -- the parent is older, so it is not the process whose state changed
    rw [procs_alter, if_neg (h.older o p q hp hparent).ne] at hq
    rw [pidOf_alter (f := fun p => { p with state := state }) fun _ => rfl] at hpid
    exact hnames hleader q r (upgrade_eq_some.mpr ⟨hparent, hq⟩) hignores c hc hpid

lemma Inv.step {s s' : Forest} {e : Event} (h : Inv s) (hrespects : Respects s e)
    (hstep : step s e = some s') : Inv s' := by
  cases e with
  | create parent kind pid => exact h.create hstep
  | exit o state => exact h.exit hrespects hstep
  | killSiblings o status => exact h.killSiblings hrespects hstep
  | wait4 o wanted options =>
    obtain ⟨⟨result, t⟩, hwait, rfl⟩ := Option.map_eq_some_iff.mp hstep
    exact h.sysWait4 hwait
  | gc =>
    cases hstep
    exact h.withExited []
  | drop o => exact h.dropProcess hstep
  | setState o state =>
    simp only [Processes.step] at hstep
    split_ifs at hstep with hguard
    cases hstep
    apply h.alter
    intro p hp
    have hrunning : p.state.isExited = false := by simpa [runs, hp] using hguard.1
    exact ⟨rfl, rfl, rfl, fun hexited => absurd hexited hguard.2, fun _ => hrunning⟩
  | setChildSubreaper o value | setNocldwait o value =>
    cases hstep
    exact h.alter fun p hp => ⟨rfl, rfl, rfl, h.childless o p hp, id⟩

lemma Inv.consistent (h : Inv s) : Consistent s := by
  intro c hc hinit hr
  obtain ⟨pc, q, p, hpc, hlink, hq, hmem⟩ := h.listed c hc hinit hr
  refine ⟨pc, q, p, hpc, upgrade_eq_some.mpr ⟨hlink, hq⟩, ?_, ?_, ?_⟩
  · by_contra hexited
    rw [h.childless q p hq (by simpa using hexited)] at hmem
    cases hmem
  · exact count_eq_one_of_mem (h.nodup q p hq) hmem
  · intro q' p' hq' hc'
    obtain ⟨-, pc', hpc', hlink'⟩ := h.linked q' p' hq' c hc'
    rw [hpc] at hpc'
    cases hpc'
    exact Option.some.inj (hlink'.symm.trans hlink)

/-! ## What the condition is needed for -/

/-- A process that has not been reaped is in the list that its link leads to. -/
lemma Consistent.mem_of_link {pc : Process} (h : Consistent s) (hc : c < s.next)
    (hinit : c ≠ init) (hr : s.reaped c = false) (hpc : s.procs c = some pc)
    (hlink : pc.parent = some q) (hq : s.procs q = some r) :
    c ∈ r.children ∧ r.state.isExited = false := by
  obtain ⟨pc', q', r', hpc', hup, hrunning, hcount, -⟩ := h c hc hinit hr
  rw [hpc] at hpc'
  cases hpc'
  obtain ⟨hlink', hq'⟩ := upgrade_eq_some.mp hup
  rw [hlink] at hlink'
  cases hlink'
  rw [hq] at hq'
  cases hq'
  exact ⟨one_le_count_iff.mp hcount.ge, hrunning⟩

lemma Inv.child (h : Inv s) (hq : s.procs q = some p) (hc : c ∈ p.children) :
    c < s.next ∧ c ≠ init ∧ s.reaped c = false ∧ q < c ∧
      ∃ pc, s.procs c = some pc ∧ pc.parent = some q := by
  obtain ⟨hr, pc, hpc, hlink⟩ := h.linked q p hq c hc
  have hlt := h.older c pc q hpc hlink
  exact ⟨h.allocated c pc hpc, (Nat.zero_le q).trans_lt hlt |>.ne', hr, hlt, pc, hpc, hlink⟩

/-- Threads that are killed with children leave them with a parent that has exited. -/
lemma respects_of_killSiblings (h : Inv s) (hstep : s.killSiblings o status = some s')
    (hs' : Consistent s') :
    Respects s (.killSiblings o status) := by
  intro p hp q hq hsibling r hr
  simp only [Forest.killSiblings, hp] at hstep
  split_ifs at hstep
  rw [Option.some.injEq] at hstep
  have hprocs : ∀ x, s'.procs x = (s.procs x).map fun r =>
      if decide (x ∈ s.table) && s.isSibling p.tgid p.pid x then
        { r with state := .exitedWith status } else r := by
    intro x
    rw [← hstep]
    dsimp only
    split_ifs <;> simp
  apply eq_nil_iff_forall_not_mem.mpr
  intro c hc
  obtain ⟨hlt, hinit, hreaped, -, pc, hpc, hlink⟩ := h.child hr hc
  obtain ⟨pc', hpc', hlink'⟩ : ∃ pc', s'.procs c = some pc' ∧ pc'.parent = some q := by
    rw [hprocs, hpc, Option.map_some]
    split_ifs <;> exact ⟨_, rfl, hlink⟩
  have hdead : s'.procs q = some { r with state := .exitedWith status } := by
    rw [hprocs, hr, Option.map_some, if_pos (by rw [hsibling, Bool.and_true, decide_eq_true hq])]
  have hnext : s'.next = s.next := by rw [← hstep]
  have hsame : s'.reaped = s.reaped := by rw [← hstep]
  have hrunning := (hs'.mem_of_link (by rwa [hnext]) hinit (by rwa [hsame]) hpc' hlink' hdead).2
  cases hrunning

lemma procs_leave (t : Forest) (o : Obj) (p : Process) (q : Obj) :
    (t.leave o p).procs q = (t.procs q).map fun r =>
      if p.tgid = p.pid ∧ p.parent = some q ∧ r.nocldwait then
        { r with children := r.children.filter (t.pidOf · ≠ some p.pid) }
      else r := by
  unfold Forest.leave
  by_cases hleader : p.tgid = p.pid
  · simp only [hleader, ne_eq, not_true_eq_false, if_false, true_and]
    exact procs_notifyParent _ o p q
  · simp only [hleader, ne_eq, not_false_eq_true, if_true, false_and, if_false, Option.map_id']
    rfl

lemma reaped_leave (p : Process) (hc : c ≠ o) :
    (t.leave o p).reaped c = t.reaped c := by
  unfold Forest.leave
  split_ifs
  · rfl
  · exact reaped_notifyParent p hc

@[simp] lemma next_leave : (t.leave o p).next = t.next := by
  unfold Forest.leave
  split_ifs
  · rfl
  · exact next_notifyParent _ o p

/-- The rest of an exit keeps the links, and lists only get shorter. -/
lemma leave_kept (hq : t.procs q = some r) (o : Obj) (p : Process) :
    ∃ r', (t.leave o p).procs q = some r' ∧ r'.parent = r.parent ∧
      r'.children ⊆ r.children := by
  rw [procs_leave, hq, Option.map_some]
  split_ifs
  · exact ⟨_, rfl, rfl, filter_sublist.subset⟩
  · exact ⟨_, rfl, rfl, List.Subset.refl _⟩

section

variable (holder : ∀ q p o, s.procs q = some p → p.parent = some o → o < q)
include holder

/-- The new parent of the orphans is older than the process that exits, or is init. -/
lemma findSubreaper_lt {fuel : ℕ} (hlink : ∀ w, link = some w → w < o)
    (hfind : s.findSubreaper fuel link = some q) : q < o := by
  induction fuel generalizing link with
  | zero => cases hfind
  | succ fuel ih =>
    unfold findSubreaper at hfind
    split at hfind
    next => cases hfind
    next w p hup =>
      obtain ⟨rfl, hw⟩ := upgrade_eq_some.mp hup
      split_ifs at hfind
      · cases hfind
        exact hlink _ rfl
      · exact ih (fun v hv => (holder w p v hw hv).trans (hlink w rfl)) hfind

lemma findSubreaperOrInit_ne (ho : s.procs o = some p') (hlink : p'.parent = p.parent)
    (hpid : p'.pid ≠ initPid) (hfind : s.findSubreaperOrInit p = some q) : q ≠ o := by
  unfold findSubreaperOrInit at hfind
  split at hfind
  next q' hsub =>
    cases hfind
    exact (findSubreaper_lt holder (fun w hw => holder o p' w ho (hlink.trans hw)) hsub).ne
  next =>
    rintro rfl
    have hpidOf := find?_some hfind
    rw [beq_iff_eq, pidOf, ho, Option.map_some, Option.some.injEq] at hpidOf
    exact hpid hpidOf

end

lemma alter_kept (hq : s.procs q = some r) (o : Obj) (hf : ∀ p, (f p).parent = p.parent) :
    ∃ r', (s.alter o f).procs q = some r' ∧ r'.parent = r.parent := by
  rw [procs_alter]
  split_ifs with ho
  · exact ⟨f r, by rw [← ho, hq, Option.map_some], hf r⟩
  · exact ⟨r, hq, rfl⟩

/-- Orphans keep the link to the process that exited, whose list is empty. -/
lemma childless_of_exit (h : Inv s) (hp : s.procs o = some p) (hstep : s.exit o state = some s')
    (hs' : Consistent s') : p.children = [] := by
  by_contra hne
  obtain ⟨c, hc⟩ := exists_mem_of_ne_nil _ hne
  obtain ⟨hlt, hinit, hreaped, hlater, pc, hpc, hlink⟩ := h.child hp hc
  simp only [Forest.exit, hp] at hstep
  split_ifs at hstep with hguard
  push Not at hguard
  obtain ⟨t, hreparent, rfl⟩ := Option.map_eq_some_iff.mp hstep
  rw [reparent, if_neg hne] at hreparent
  obtain ⟨q, hfind, rfl⟩ := Option.map_eq_some_iff.mp hreparent
  have hdead : (s.alter o fun p => { p with state := state }).procs o =
      some { p with state := state } := by
    rw [procs_alter, if_pos rfl, hp, Option.map_some]
  have hq : q ≠ o := by
    refine findSubreaperOrInit_ne ?_ hdead rfl hguard.2.2 hfind
    intro x r w hr hw
    rw [procs_alter] at hr
    split_ifs at hr with hx
    · subst hx
      obtain ⟨r₀, hr₀, rfl⟩ := Option.map_eq_some_iff.mp hr
      exact h.older _ r₀ w hr₀ hw
    · exact h.older x r w hr hw
  obtain ⟨pc₁, hpc₁, hlink₁⟩ := alter_kept hpc o (f := fun p => { p with state := state })
    fun _ => rfl
  obtain ⟨pc₂, hpc₂, hlink₂⟩ := alter_kept hpc₁ o (f := fun p => { p with children := [] })
    fun _ => rfl
  obtain ⟨pc₃, hpc₃, hlink₃⟩ := alter_kept hpc₂ q
    (f := fun r => { r with children := r.children ++ p.children }) fun _ => rfl
  obtain ⟨pc₄, hpc₄, hlink₄, -⟩ := leave_kept hpc₃ o p
  have ho : (((s.alter o fun p => { p with state := state }).alter o
      fun p => { p with children := [] }).alter q
      fun r => { r with children := r.children ++ p.children }).procs o =
      some { p with state := state, children := [] } := by
    rw [procs_alter, if_neg hq.symm, procs_alter, if_pos rfl, hdead, Option.map_some]
  obtain ⟨r, hr, -, hsub⟩ := leave_kept ho o p
  have hmem := (hs'.mem_of_link (by rw [next_leave]; exact hlt) hinit
    (by rw [reaped_leave p hlater.ne']; exact hreaped) hpc₄
    (by rw [hlink₄, hlink₃, hlink₂, hlink₁, hlink]) hr).1
  cases hsub hmem

/-- A process that reaps itself takes its namesakes out of the list. -/
lemma no_namesake_of_exit (h : Inv s) (hp : s.procs o = some p) (hchildren : p.children = [])
    (hstep : s.exit o state = some s') (hs' : Consistent s') (hleader : p.tgid = p.pid)
    (hup : s.upgrade p.parent = some (q, r)) (hignores : r.nocldwait) (hc : c ∈ r.children)
    (hname : s.pidOf c = some p.pid) : c = o := by
  by_contra hne
  obtain ⟨hparent, hq⟩ := upgrade_eq_some.mp hup
  obtain ⟨hlt, hinit, hreaped, -, pc, hpc, hlink⟩ := h.child hq hc
  simp only [Forest.exit, hp] at hstep
  split_ifs at hstep
  rw [reparent, if_pos hchildren, Option.map_some, Option.some.injEq] at hstep
  subst hstep
  obtain ⟨pc₁, hpc₁, hlink₁⟩ := alter_kept hpc o (f := fun p => { p with state := state })
    fun _ => rfl
  obtain ⟨pc₂, hpc₂, hlink₂, -⟩ := leave_kept hpc₁ o p
  have hr := procs_leave (s.alter o fun p => { p with state := state }) o p q
  rw [procs_alter, if_neg (h.older o p q hp hparent).ne, hq, Option.map_some,
    if_pos ⟨hleader, hparent, hignores⟩] at hr
  have hmem := (hs'.mem_of_link (by rw [next_leave]; exact hlt) hinit
    (by rw [reaped_leave p hne]; exact hreaped) hpc₂ (by rw [hlink₂, hlink₁, hlink]) hr).1
  have hpid := (mem_filter.mp hmem).2
  rw [decide_eq_true_eq, pidOf_alter (f := fun p => { p with state := state }) fun _ => rfl] at hpid
  exact hpid hname

/-- In every run whose steps all respect the condition, links and lists agree; and from
there the next step keeps that exactly if it respects the condition too. -/
theorem consistent_run {s : Forest} (hrun : Relation.ReflTransGen Next boot s) :
    Consistent s ∧ ∀ e s', step s e = some s' → (Consistent s' ↔ Respects s e) := by
  have hinv : Inv s := by
    induction hrun with
    | refl => exact Inv.boot
    | tail _ hnext ih =>
      obtain ⟨e, hstep, hrespects⟩ := hnext
      exact ih.step hrespects hstep
  refine ⟨hinv.consistent, fun e s' hstep => ⟨fun hs' => ?_, fun hrespects =>
    (hinv.step hrespects hstep).consistent⟩⟩
  cases e with
  | exit o state =>
    intro p hp
    have hchildren := childless_of_exit hinv hp hstep hs'
    exact ⟨hchildren, fun hleader q r hup hignores c hc =>
      no_namesake_of_exit hinv hp hchildren hstep hs' hleader hup hignores hc⟩
  | killSiblings o status => exact respects_of_killSiblings hinv hstep hs'
  | _ => trivial

/-- Init forks a child, the child exits and init waits for it. -/
theorem consistent_run_waited_child :
    ∃ s₁ s₂ s₃, step boot (.create 0 .fork 2) = some s₁ ∧
      step s₁ (.exit 1 (.exitedWith 0)) = some s₂ ∧
      step s₂ (.wait4 0 none ⟨false, false, false⟩) = some s₃ ∧ s₃.reaped 1 = true ∧
      Consistent s₃ := by
  refine ⟨_, _, _, rfl, rfl, rfl, rfl, (consistent_run ?_).1⟩
  refine ((Relation.ReflTransGen.single ⟨.create 0 .fork 2, rfl, trivial⟩).tail
    ⟨.exit 1 (.exitedWith 0), rfl, ?_⟩).tail ⟨.wait4 0 none ⟨false, false, false⟩, rfl, trivial⟩
  intro p hp
  cases hp
  refine ⟨rfl, fun _ q r hup hignores => ?_⟩
  cases hup
  cases hignores

/-- A grandchild of init whose parent exits moves to the list of init, but its link still
leads to the parent. -/
theorem orphan_keeps_link :
    ∃ s, [Event.create 0 .fork 2, .create 1 .fork 3, .exit 1 (.exitedWith 0)].foldlM step boot =
        some s ∧
      ((s.procs 0).map (·.children) = some [1, 2] ∧
        (s.procs 2).map (fun p => (s.upgrade p.parent).map (·.1)) = some (some 1)) ∧
      ¬ Consistent s := by
  refine ⟨_, rfl, ⟨rfl, rfl⟩, ?_⟩
  intro h
  have hmem := (h.mem_of_link (c := 2) (by decide) (by decide) rfl rfl rfl rfl).1
  cases hmem

end Kevlar.Processes
