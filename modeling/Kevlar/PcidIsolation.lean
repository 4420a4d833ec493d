import Kevlar.Pcid

/-!
# TLB tag isolation

A page table uses a PCID while it holds it and while some CPU has it loaded or is
about to load it. The invariant says that no other live table uses the same PCID
or has entries under it on a CPU that has flushed for the current generation. One
lemma turns a description of what an action changes into preservation of the
invariant; every action is then described.
-/
namespace Kevlar.Pcid
namespace System

open Function

/-- Table `t` holds PCID `p`, or a CPU has the pair loaded or is loading it. -/
def Uses (s : System) (t p : ℕ) : Prop :=
  (∃ v, s.pcidGen t = some v ∧ pcidOf v = p) ∨
    ∃ c, (s.cpus c).active = some (t, p) ∨ (s.cpus c).phase.target = some (t, p)

/-- A CPU that counts as flushed for generation `g` has an entry of `t` under `p`. -/
def Cached (s : System) (g t p : ℕ) : Prop := ∃ c, s.cpuGen c = g ∧ (p, t) ∈ (s.cpus c).tlb

/-- The next PCID is the counter, or 1 once the counter is exhausted. -/
def nextPcid (s : System) : ℕ := if 4095 ≤ pcidOf s.pcidState then 1 else pcidOf s.pcidState

def nextGen (s : System) : ℕ :=
  if 4095 ≤ pcidOf s.pcidState then wadd (genOf s.pcidState) 0x1000 else genOf s.pcidState

/-- The next PCID, issued for `self`, is used by no other live table and tags no entry of one
on a CPU flushed for its generation. -/
def IssueSafe (s : System) (self : ℕ) : Prop :=
  s.pcidSupported = true → s.nextPcid ≠ 0 → ∀ t, t ≠ self → s.Live t →
    ¬s.Uses t s.nextPcid ∧ ¬s.Cached s.nextGen t s.nextPcid

/-- The generation field does not overflow, and PCIDs are issued safely. -/
def Careful (s : System) : Op → Prop
  | .create => genOf s.pcidState ≤ genOf (allocPcid s.pcidSupported s.pcidState).2 ∧
      s.IssueSafe s.created
  | .renew t => genOf s.pcidState ≤ genOf (allocPcid s.pcidSupported s.pcidState).2 ∧
      s.IssueSafe t
  | .bump => genOf s.pcidState ≤
      genOf (bumpGlobalPcidGeneration s.pcidSupported s.pcidState)
  | _ => True

/-- The states of runs from boot whose actions all satisfy `ok`. -/
inductive Reachable (ok : System → Op → Prop) : System → Prop
  | boot (supported : Bool) : Reachable ok (boot supported)
  | step {s s' : System} (op : Op) (h : Reachable ok s) (hok : ok s op)
      (hop : s.step op = some s') : Reachable ok s'

structure Inv (s : System) : Prop where
  cpuGen_le : ∀ c, s.cpuGen c ≤ genOf s.pcidState
  phase_ok : ∀ c t p, (s.cpus c).phase.target = some (t, p) → p ≠ 0 ∧ p < 4096
  phaseGen_ok : ∀ c t p g, (s.cpus c).phase = .checked t p g ∨ (s.cpus c).phase = .flushed t p g →
    g ≤ genOf s.pcidState ∧ g % 4096 = 0
  live_lt : ∀ t, s.Live t → t < s.created
  uses_lt : ∀ t p, s.Uses t p → t < s.created
  tlb_lt : ∀ c t p, (p, t) ∈ (s.cpus c).tlb → t < s.created
  apart : ∀ t t' p, p ≠ 0 → t ≠ t' → s.Live t → s.Live t' → s.Uses t p →
    ¬s.Uses t' p ∧ ¬s.Cached (genOf s.pcidState) t' p
  isolated : s.TagIsolated

/-- What an action may change, as far as the invariant is concerned: uses of a
PCID are old or freshly issued, entries are old or of the active table, and a CPU
counts as flushed for the current generation only if it did before or its TLB is
empty now. -/
structure Advance (s s' : System) : Prop where
  created_le : s.created ≤ s'.created
  gen_le : genOf s.pcidState ≤ genOf s'.pcidState
  live : ∀ t, s'.Live t → s.Live t ∨ (t = s.created ∧ t < s'.created)
  uses : ∀ t p, p ≠ 0 → s'.Uses t p → s.Uses t p ∨
    (t < s'.created ∧ ∀ t', t' ≠ t → s'.Live t' →
      ¬s'.Uses t' p ∧ ¬s'.Cached (genOf s'.pcidState) t' p)
  uses_lt : ∀ t p, s'.Uses t p → t < s'.created
  entries : ∀ c t p, (p, t) ∈ (s'.cpus c).tlb → (p, t) ∈ (s.cpus c).tlb ∨ s.Uses t p
  flushed : ∀ c, s'.cpuGen c = s.cpuGen c ∨
    ((s'.cpus c).tlb = [] ∧ s'.cpuGen c ≤ genOf s'.pcidState ∧
      ∀ t p g, (s'.cpus c).phase ≠ .checked t p g)
  phase_ok : ∀ c t p, (s'.cpus c).phase.target = some (t, p) → p ≠ 0 ∧ p < 4096
  phaseGen_ok : ∀ c t p g,
    (s'.cpus c).phase = .checked t p g ∨ (s'.cpus c).phase = .flushed t p g →
    g ≤ genOf s'.pcidState ∧ g % 4096 = 0
  checked : ∀ c t p g, (s'.cpus c).phase = .checked t p g →
    (s.cpus c).phase = .checked t p g ∨ g = genOf s'.pcidState

lemma Inv.advance {s s' : System} (h : s.Inv) (ha : Advance s s') : s'.Inv := by
  have hgen : ∀ c, s'.cpuGen c ≤ genOf s'.pcidState := by
    intro c
    rcases ha.flushed c with heq | ⟨-, hle, -⟩
    · rw [heq]
      exact (h.cpuGen_le c).trans ha.gen_le
    · exact hle
  have htlb : ∀ c t p, (p, t) ∈ (s'.cpus c).tlb → t < s.created := by
    intro c t p hmem
    rcases ha.entries c t p hmem with hold | huse
    · exact h.tlb_lt c t p hold
    · exact h.uses_lt t p huse
  have hcached : ∀ t p, s'.Cached (genOf s'.pcidState) t p →
      s.Cached (genOf s.pcidState) t p ∨ s.Uses t p := by
    rintro t p ⟨c, hc, hmem⟩
    rcases ha.flushed c with heq | ⟨hnil, -, -⟩
    · rcases ha.entries c t p hmem with hold | huse
      · refine .inl ⟨c, ?_, hold⟩
        have hle := h.cpuGen_le c
        have hle' := ha.gen_le
        omega
      · exact .inr huse
    · rw [hnil] at hmem
      simp at hmem
  have hlive : ∀ t, s'.Live t → t < s.created → s.Live t := by
    intro t ht hlt
    rcases ha.live t ht with hold | ⟨rfl, -⟩
    · exact hold
    · exact absurd hlt (lt_irrefl _)
  have hapart : ∀ t t' p, p ≠ 0 → t ≠ t' → s'.Live t → s'.Live t' → s'.Uses t p →
      ¬s'.Uses t' p ∧ ¬s'.Cached (genOf s'.pcidState) t' p := by
    intro t t' p hp hne ht ht' huse
    rcases ha.uses t p hp huse with hold | ⟨-, hfresh⟩
    · have htold := hlive t ht (h.uses_lt t p hold)
      constructor
      · intro huse'
        rcases ha.uses t' p hp huse' with hold' | ⟨-, hfresh'⟩
        · exact (h.apart t t' p hp hne htold (hlive t' ht' (h.uses_lt t' p hold')) hold).1 hold'
        · exact (hfresh' t hne ht).1 huse
      · intro hcache
        have hlt : t' < s.created := by
          obtain ⟨c, -, hmem⟩ := hcache
          exact htlb c t' p hmem
        have hsep := h.apart t t' p hp hne htold (hlive t' ht' hlt) hold
        rcases hcached t' p hcache with hold' | huse'
        · exact hsep.2 hold'
        · exact hsep.1 huse'
    · exact hfresh t' hne.symm ht'
  refine ⟨hgen, ha.phase_ok, ha.phaseGen_ok, ?_, ha.uses_lt, ?_, hapart, ?_⟩
  · intro t ht
    rcases ha.live t ht with hold | ⟨-, hlt⟩
    · exact (h.live_lt t hold).trans_le ha.created_le
    · exact hlt
  · intro c t p hmem
    exact (htlb c t p hmem).trans_le ha.created_le
  · intro c t p g hphase hcpu ht t' hne ht' hmem
    have htarget : (s'.cpus c).phase.target = some (t, p) := by rw [hphase]; rfl
    have hp := (ha.phase_ok c t p htarget).1
    have huse : s'.Uses t p := .inr ⟨c, .inr htarget⟩
    have hsep := hapart t t' p hp hne.symm ht ht' huse
    rcases ha.checked c t p g hphase with hold | rfl
    · rcases ha.flushed c with heq | ⟨-, -, hnot⟩
      · rw [heq] at hcpu
        have htold : (s.cpus c).phase.target = some (t, p) := by rw [hold]; rfl
        have huseold : s.Uses t p := .inr ⟨c, .inr htold⟩
        have hlt := htlb c t' p hmem
        have hliveold := hlive t ht (h.uses_lt t p huseold)
        rcases ha.entries c t' p hmem with hmem' | huse'
        · exact h.isolated c t p g hold hcpu hliveold t' hne (hlive t' ht' hlt) hmem'
        · exact (h.apart t t' p hp hne.symm hliveold (hlive t' ht' hlt) huseold).1 huse'
      · exact hnot t p g hphase
    · exact hsep.2 ⟨c, hcpu, hmem⟩

/-- A change of one CPU that uses only pairs in use before. -/
structure CpuChange (s : System) (c : ℕ) (cpu : Cpu) : Prop where
  active : ∀ t p, cpu.active = some (t, p) → s.Uses t p
  target : ∀ t p, cpu.phase.target = some (t, p) → s.Uses t p ∧ p ≠ 0 ∧ p < 4096
  tlb : ∀ t p, (p, t) ∈ cpu.tlb → (p, t) ∈ (s.cpus c).tlb ∨ s.Uses t p
  lastSeenGen : cpu.lastSeenGen = (s.cpus c).lastSeenGen ∨
    (cpu.tlb = [] ∧ cpu.lastSeenGen ≤ genOf s.pcidState ∧ ∀ t p g, cpu.phase ≠ .checked t p g)
  phaseGen : ∀ t p g, cpu.phase = .checked t p g ∨ cpu.phase = .flushed t p g →
    g ≤ genOf s.pcidState ∧ g % 4096 = 0
  checked : ∀ t p g, cpu.phase = .checked t p g →
    (s.cpus c).phase = .checked t p g ∨ g = genOf s.pcidState

lemma setCpu_cpus (s : System) (c d : ℕ) (cpu : Cpu) :
    (s.setCpu c cpu).cpus d = if d = c then cpu else s.cpus d := by
  simp only [setCpu, update_apply]

variable {s s' : System} {c t : ℕ}

lemma Inv.setCpu (h : s.Inv) {cpu : Cpu} (hc : CpuChange s c cpu) :
    (s.setCpu c cpu).Inv := by
  have huses : ∀ t p, (s.setCpu c cpu).Uses t p → s.Uses t p := by
    rintro t p (hheld | ⟨d, hd⟩)
    · exact .inl hheld
    · rw [setCpu_cpus] at hd
      split_ifs at hd with hdc
      · rcases hd with hd | hd
        · exact hc.active t p hd
        · exact (hc.target t p hd).1
      · exact .inr ⟨d, hd⟩
  refine h.advance ⟨le_rfl, le_rfl, fun t ht => .inl ht, fun t p _ hu => .inl (huses t p hu),
    fun t p hu => h.uses_lt t p (huses t p hu), ?_, ?_, ?_, ?_, ?_⟩
  · intro d t p hmem
    rw [setCpu_cpus] at hmem
    split_ifs at hmem with hdc
    · subst hdc
      exact hc.tlb t p hmem
    · exact .inl hmem
  · intro d
    simp only [cpuGen, setCpu_cpus]
    by_cases hdc : d = c
    · subst hdc
      simp only [if_true]
      rcases hc.lastSeenGen with heq | ⟨hnil, hle, hnot⟩
      · left
        rw [heq]
      · refine .inr ⟨hnil, ?_, hnot⟩
        split_ifs
        · exact hle
        · exact Nat.zero_le _
    · left
      rw [if_neg hdc]
  · intro d t p htarget
    rw [setCpu_cpus] at htarget
    split_ifs at htarget with hdc
    · exact (hc.target t p htarget).2
    · exact h.phase_ok d t p htarget
  · intro d t p g hphase
    rw [setCpu_cpus] at hphase
    split_ifs at hphase with hdc
    · exact hc.phaseGen t p g hphase
    · exact h.phaseGen_ok d t p g hphase
  · intro d t p g hphase
    rw [setCpu_cpus] at hphase
    split_ifs at hphase with hdc
    · subst hdc
      exact hc.checked t p g hphase
    · exact .inl hphase

/-- The unchanged CPU is a change in this sense. -/
lemma CpuChange.self (h : s.Inv) (c : ℕ) : CpuChange s c (s.cpus c) where
  active := fun _ _ ha => .inr ⟨c, .inl ha⟩
  target := fun t p ht => ⟨.inr ⟨c, .inr ht⟩, h.phase_ok c t p ht⟩
  tlb := fun _ _ hm => .inl hm
  lastSeenGen := .inl rfl
  phaseGen := h.phaseGen_ok c
  checked := fun _ _ _ hp => .inl hp

/-- A new packed word for a live or new table whose PCID is in use already or
freshly issued, together with a later global word. -/
lemma Inv.setPcidGen (h : s.Inv) {v : ℕ} (state created : ℕ)
    (hgen : genOf s.pcidState ≤ genOf state) (hcreated : s.created ≤ created)
    (ht : s.Live t ∨ t = s.created) (htlt : t < created)
    (hissue : s.Uses t (pcidOf v) ∨ (pcidOf v ≠ 0 → ∀ t', t' ≠ t → s.Live t' →
      ¬s.Uses t' (pcidOf v) ∧ ¬s.Cached (genOf state) t' (pcidOf v))) :
    ({ s.setPcidGen t v with pcidState := state, created := created } : System).Inv := by
  have hother : ∀ t' p, t' ≠ t →
      ({ s.setPcidGen t v with pcidState := state, created := created } : System).Uses t' p →
      s.Uses t' p := by
    rintro t' p hne (⟨w, hw, hp⟩ | hcpu)
    · simp only [System.setPcidGen, update_of_ne hne] at hw
      exact .inl ⟨w, hw, hp⟩
    · exact .inr hcpu
  have hself : ∀ p,
      ({ s.setPcidGen t v with pcidState := state, created := created } : System).Uses t p →
      s.Uses t p ∨ p = pcidOf v := by
    rintro p (⟨w, hw, hp⟩ | hcpu)
    · simp only [System.setPcidGen, update_self, Option.some.injEq] at hw
      rw [← hp, ← hw]
      exact .inr rfl
    · exact .inl (.inr hcpu)
  have hlive : ∀ t', t' ≠ t →
      ({ s.setPcidGen t v with pcidState := state, created := created } : System).Live t' →
      s.Live t' := by
    rintro t' hne ⟨w, hw⟩
    simp only [System.setPcidGen, update_of_ne hne] at hw
    exact ⟨w, hw⟩
  refine h.advance ⟨hcreated, hgen, ?_, ?_, ?_, fun _ _ _ hm => .inl hm, fun _ => .inl rfl,
    h.phase_ok, ?_, fun _ _ _ _ hp => .inl hp⟩
  · intro t' ht'
    by_cases hne : t' = t
    · subst hne
      rcases ht with hold | hnew
      · exact .inl hold
      · exact .inr ⟨hnew, htlt⟩
    · exact .inl (hlive t' hne ht')
  · intro t' p hp huse
    by_cases hne : t' = t
    · subst hne
      rcases hself p huse with hold | rfl
      · exact .inl hold
      · rcases hissue with hold | hfresh
        · exact .inl hold
        · refine .inr ⟨htlt, fun u hu hul => ?_⟩
          have hsep := hfresh hp u hu (hlive u hu hul)
          exact ⟨fun huse' => hsep.1 (hother u _ hu huse'), hsep.2⟩
    · exact .inl (hother t' p hne huse)
  · intro t' p huse
    by_cases hne : t' = t
    · rw [hne]
      exact htlt
    · exact (h.uses_lt t' p (hother t' p hne huse)).trans_le hcreated
  · intro c t' p g hphase
    have hold := h.phaseGen_ok c t' p g hphase
    exact ⟨hold.1.trans hgen, hold.2⟩

lemma Inv.drop (h : s.Inv) (t : ℕ) :
    ({ s with pcidGen := update s.pcidGen t none } : System).Inv := by
  have hheld : ∀ t' w, update s.pcidGen t none t' = some w → s.pcidGen t' = some w := by
    intro t' w hw
    by_cases hne : t' = t
    · subst hne
      rw [update_self] at hw
      cases hw
    · rwa [update_of_ne hne] at hw
  have huses : ∀ t' p,
      ({ s with pcidGen := update s.pcidGen t none } : System).Uses t' p →
      s.Uses t' p := by
    rintro t' p (⟨w, hw, hp⟩ | hcpu)
    · exact .inl ⟨w, hheld t' w hw, hp⟩
    · exact .inr hcpu
  refine h.advance ⟨le_rfl, le_rfl, ?_, fun t' p _ hu => .inl (huses t' p hu),
    fun t' p hu => h.uses_lt t' p (huses t' p hu), fun _ _ _ hm => .inl hm, fun _ => .inl rfl,
    h.phase_ok, h.phaseGen_ok, fun _ _ _ _ hp => .inl hp⟩
  rintro t' ⟨w, hw⟩
  exact .inl ⟨w, hheld t' w hw⟩

lemma Inv.bump (h : s.Inv) {state : ℕ} (hgen : genOf s.pcidState ≤ genOf state) :
    ({ s with pcidState := state } : System).Inv :=
  h.advance ⟨le_rfl, hgen, fun _ ht => .inl ht, fun _ _ _ hu => .inl hu, h.uses_lt,
    fun _ _ _ hm => .inl hm, fun _ => .inl rfl, h.phase_ok,
    fun c t p g hphase => ⟨(h.phaseGen_ok c t p g hphase).1.trans hgen,
      (h.phaseGen_ok c t p g hphase).2⟩,
    fun _ _ _ _ hp => .inl hp⟩

lemma boot_inv (supported : Bool) : (boot supported).Inv := by
  have huses : ∀ t p, ¬(boot supported).Uses t p := by
    rintro t p (⟨w, hw, -⟩ | ⟨c, hc | hc⟩)
    · cases hw
    · cases hc
    · cases hc
  refine ⟨?_, ?_, ?_, ?_, ?_, ?_, ?_, ?_⟩
  · intro c
    simp [cpuGen, boot]
  · intro c t p ht
    cases ht
  · rintro c t p g (hp | hp) <;> cases hp
  · rintro t ⟨v, hv⟩
    cases hv
  · intro t p hu
    exact absurd hu (huses t p)
  · intro c t p hm
    cases hm
  · intro t t' p _ _ _ _ hu
    exact absurd hu (huses t p)
  · intro c t p g hp
    cases hp

lemma pcidOf_lt (v : ℕ) : pcidOf v < 4096 := Nat.mod_lt _ (by norm_num)

lemma genOf_mod (v : ℕ) : genOf v % 4096 = 0 := by
  unfold genOf
  omega

lemma pcidOf_add {g p : ℕ} (hg : g % 4096 = 0) (hp : p < 4096) : pcidOf (g + p) = p := by
  unfold pcidOf
  omega

lemma genOf_add {g p : ℕ} (hg : g % 4096 = 0) (hp : p < 4096) : genOf (g + p) = g := by
  unfold genOf
  omega

lemma IssueSafe.issued {self : ℕ} (h : s.IssueSafe self)
    (hne : pcidOf (allocPcid s.pcidSupported s.pcidState).1 ≠ 0) :
    ∀ t, t ≠ self → s.Live t →
      ¬s.Uses t (pcidOf (allocPcid s.pcidSupported s.pcidState).1) ∧
        ¬s.Cached (genOf (allocPcid s.pcidSupported s.pcidState).2) t
          (pcidOf (allocPcid s.pcidSupported s.pcidState).1) := by
  have hgen := genOf_mod s.pcidState
  have hlt := pcidOf_lt s.pcidState
  have hnext : wadd (genOf s.pcidState) 0x1000 % 4096 = 0 := by
    unfold wadd
    omega
  unfold IssueSafe nextPcid nextGen at h
  unfold allocPcid at hne ⊢
  cases hs : s.pcidSupported with
  | false => simp [hs, pcidOf] at hne
  | true =>
    simp only [hs, Bool.not_true, Bool.false_eq_true, if_false] at hne ⊢
    split_ifs at h hne ⊢ with hfull
    · rw [pcidOf_add hnext (by norm_num), genOf_add hnext (by norm_num)]
      exact h hs one_ne_zero
    · rw [pcidOf_add hgen hlt] at hne ⊢
      rw [genOf_add hgen (by omega)]
      exact h hs hne

/-- The processor runs on a table that it may use. -/
lemma Inv.activate (h : s.Inv) (c : ℕ) {p : ℕ} (huse : s.Uses t p) :
    (s.setCpu c { s.cpus c with active := some (t, p), phase := .idle }).Inv := by
  refine h.setCpu ⟨?_, ?_, (CpuChange.self h c).tlb, .inl rfl, ?_, ?_⟩
  · rintro t' p' ⟨⟩
    exact huse
  · intro t' p' hp
    cases hp
  · rintro t' p' g' (hp | hp) <;> cases hp
  · intro t' p' g' hp
    cases hp

lemma Inv.switchBegin (h : s.Inv) (hop : s.step (.switchBegin c t) = some s') : s'.Inv := by
  simp only [step] at hop
  split at hop
  · cases hop
  · next v hv =>
    have hself := CpuChange.self h c
    have huse : s.Uses t (pcidOf v) := .inl ⟨v, hv, rfl⟩
    split_ifs at hop with hidle hzero
    · cases hop
      refine h.setCpu { hself with active := ?_, tlb := ?_, lastSeenGen := .inl rfl }
      · rintro t' p ⟨⟩
        rw [← hzero]
        exact huse
      · intro t' p hmem
        cases hmem
    · cases hop
      refine h.setCpu ⟨hself.active, ?_, hself.tlb, .inl rfl, ?_, ?_⟩
      · rintro t' p ⟨⟩
        exact ⟨huse, hzero, pcidOf_lt v⟩
      · rintro t' p g (hp | hp) <;> cases hp
      · intro t' p g hp
        cases hp

lemma Inv.switchLoadGen (h : s.Inv) (hop : s.step (.switchLoadGen c) = some s') : s'.Inv := by
  simp only [step] at hop
  split at hop
  · next t p hphase =>
    cases hop
    have hself := CpuChange.self h c
    refine h.setCpu ⟨hself.active, ?_, hself.tlb, .inl rfl, ?_, ?_⟩
    · rintro t' p' ⟨⟩
      exact hself.target t p (by rw [hphase]; rfl)
    · rintro t' p' g (hp | hp) <;> cases hp
      exact ⟨le_rfl, genOf_mod _⟩
    · rintro t' p' g ⟨⟩
      exact .inr rfl
  · cases hop

lemma Inv.switchCommit (h : s.Inv) (hop : s.step (.switchCommit c) = some s') : s'.Inv := by
  simp only [step] at hop
  split at hop
  · next t p g hphase =>
    have hself := CpuChange.self h c
    have htarget := hself.target t p (by rw [hphase]; rfl)
    have hgen := hself.phaseGen t p g (.inl hphase)
    by_cases hfast : s.cpuGen c = g
    · rw [if_pos hfast] at hop
      cases hop
      exact h.activate c htarget.1
    · rw [if_neg hfast] at hop
      cases hop
      refine h.setCpu ⟨hself.active, ?_, ?_, ?_, ?_, ?_⟩
      · rintro t' p' ⟨⟩
        exact htarget
      · intro t' p' hmem
        cases hmem
      · split_ifs with hlt
        · exact .inr ⟨rfl, hgen.1, by simp⟩
        · exact .inl rfl
      · rintro t' p' g' (hp | hp) <;> cases hp
        exact hgen
      · intro t' p' g' hp
        cases hp
  · cases hop

lemma Inv.switchFinish (h : s.Inv) (hop : s.step (.switchFinish c) = some s') : s'.Inv := by
  simp only [step] at hop
  split at hop
  · next t p g hphase =>
    have hself := CpuChange.self h c
    have htarget := hself.target t p (by rw [hphase]; rfl)
    have hgen := hself.phaseGen t p g (.inr hphase)
    have hcpu := h.activate c htarget.1
    split at hop
    · cases hop
      exact hcpu
    · next v hv =>
      cases hop
      refine hcpu.setPcidGen _ _ le_rfl le_rfl (.inl ⟨v, hv⟩) (h.live_lt t ⟨v, hv⟩) (.inl ?_)
      rw [pcidOf_add hgen.2 htarget.2.2]
      exact .inr ⟨c, .inl (by rw [setCpu_cpus, if_pos rfl])⟩
  · cases hop

lemma step_inv (h : s.Inv) {op : Op} (hok : s.Careful op) (hop : s.step op = some s') :
    s'.Inv := by
  cases op with
  | create =>
    cases hop
    exact h.setPcidGen _ _ hok.1 (Nat.le_succ _) (.inr rfl) (Nat.lt_succ_self _) (.inr hok.2.issued)
  | renew t =>
    simp only [step] at hop
    split at hop
    · cases hop
    · next old hold =>
      split_ifs at hop with hzero
      · cases hop
        exact h
      · cases hop
        exact h.setPcidGen _ s.created hok.1 le_rfl (.inl ⟨old, hold⟩)
          (h.live_lt t ⟨old, hold⟩) (.inr hok.2.issued)
  | reload c t =>
    simp only [step] at hop
    split at hop
    · cases hop
    · next v hv =>
      cases hop
      have hself := CpuChange.self h c
      refine h.setCpu { hself with active := ?_, tlb := ?_, lastSeenGen := .inl rfl }
      · rintro t' p ⟨⟩
        exact .inl ⟨v, hv, rfl⟩
      · intro t' p hmem
        split_ifs at hmem
        · cases hmem
        · exact .inl (List.mem_of_mem_filter hmem)
  | drop t =>
    cases hop
    exact h.drop t
  | bump =>
    cases hop
    exact h.bump hok
  | switchBegin c t => exact h.switchBegin hop
  | switchLoadGen c => exact h.switchLoadGen hop
  | switchCommit c => exact h.switchCommit hop
  | switchFinish c => exact h.switchFinish hop
  | loadKernelPml4 c =>
    cases hop
    have hself := CpuChange.self h c
    refine h.setCpu { hself with active := ?_ }
    intro t p ha
    cases ha
  | fill c =>
    simp only [step] at hop
    split at hop
    · cases hop
    · next t p hactive =>
      cases hop
      have hself := CpuChange.self h c
      refine h.setCpu { hself with tlb := ?_, lastSeenGen := .inl rfl }
      intro t' p' hmem
      rcases List.mem_cons.mp hmem with heq | hmem
      · cases heq
        exact .inr (hself.active t p hactive)
      · exact .inl hmem
  | evict c stays =>
    cases hop
    have hself := CpuChange.self h c
    refine h.setCpu { hself with tlb := ?_, lastSeenGen := .inl rfl }
    intro t p hmem
    exact .inl (List.mem_of_mem_filter hmem)

/-- In every state of a run whose allocations are safe, a switch that skips the
flush finds no entry of another live table under its PCID. -/
theorem reachable_tagIsolated {s : System} (h : Reachable Careful s) : s.TagIsolated := by
  suffices hs : s.Inv from hs.isolated
  induction h with
  | boot supported => exact boot_inv supported
  | step op _ hok hop ih => exact step_inv ih hok hop

/-- Two tables on one CPU: the switch to the second finds only the entry of the
first, under another PCID. -/
theorem reachable_tagIsolated_two_tables :
    ∃ s, Reachable Careful s ∧ (s.cpus 0).phase = .checked 1 2 0 ∧ s.cpuGen 0 = 0 ∧
      (s.cpus 0).tlb = [(1, 0)] ∧ s.TagIsolated := by
  have h₁ : Reachable Careful _ := .step .create (.boot true)
    ⟨by decide, fun _ _ t _ ⟨v, hv⟩ => by cases hv⟩ rfl
  have hlive : ∀ t v, update (fun _ : ℕ => (none : Option ℕ)) 0 (some 1) t = some v →
      v = 1 := by
    intro t v hv
    simp only [update_apply] at hv
    split_ifs at hv
    exact (Option.some.inj hv).symm
  have h₂ := Reachable.step .create h₁ ⟨by decide, by
    intro _ _ t _ _
    constructor
    · rintro (⟨v, hv, hp⟩ | ⟨c, hc | hc⟩)
      · rw [hlive t v hv] at hp
        cases hp
      · cases hc
      · cases hc
    · rintro ⟨c, -, hmem⟩
      cases hmem⟩ rfl
  have h₃ := Reachable.step (.switchBegin 0 0) h₂ trivial rfl
  have h₄ := Reachable.step (.switchLoadGen 0) h₃ trivial rfl
  have h₅ := Reachable.step (.switchCommit 0) h₄ trivial rfl
  have h₆ := Reachable.step (.fill 0) h₅ trivial rfl
  have h₇ := Reachable.step (.switchBegin 0 1) h₆ trivial rfl
  have h₈ := Reachable.step (.switchLoadGen 0) h₇ trivial rfl
  exact ⟨_, h₈, rfl, rfl, rfl, reachable_tagIsolated h₈⟩

/-- Up to the exhaustion of the counter every creation takes the next PCID. -/
lemma reachable_creates (n : ℕ) (hn : n ≤ 4094) :
    ∃ f, Reachable (fun _ _ => True)
      ⟨true, n + 1, n, f, fun _ => ⟨0, none, .idle, []⟩⟩ := by
  induction n with
  | zero => exact ⟨_, .boot true⟩
  | succ n ih =>
    obtain ⟨f, hf⟩ := ih (by omega)
    have hpcid : pcidOf (n + 1) = n + 1 := Nat.mod_eq_of_lt (by omega)
    have hgen : genOf (n + 1) = 0 := by
      unfold genOf
      omega
    have halloc : allocPcid true (n + 1) = (n + 1, n + 2) := by
      simp only [allocPcid, hpcid, hgen, Bool.not_true, Bool.false_eq_true, if_false]
      rw [if_neg (by omega)]
      simp
    refine ⟨update f n (some (n + 1)), hf.step .create trivial ?_⟩
    simp only [step, halloc, setPcidGen]

/-- Two allocations into generation 1, with everything but the first CPU as at boot. -/
def firstCpu (n : ℕ) (f : ℕ → Option ℕ) (cpu : Cpu) : System :=
  ⟨true, 0x1002, n, f, update (fun _ => ⟨0, none, .idle, []⟩) 0 cpu⟩

@[simp] lemma firstCpu_cpus (n : ℕ) (f : ℕ → Option ℕ) (cpu : Cpu) :
    (firstCpu n f cpu).cpus 0 = cpu := by
  simp [firstCpu]

@[simp] lemma firstCpu_pcidGen (n : ℕ) (f : ℕ → Option ℕ) (cpu : Cpu) :
    (firstCpu n f cpu).pcidGen = f := by
  rw [firstCpu]

@[simp] lemma firstCpu_genOf (n : ℕ) (f : ℕ → Option ℕ) (cpu : Cpu) :
    genOf (firstCpu n f cpu).pcidState = 0x1000 := by
  simp [firstCpu, genOf]

@[simp] lemma firstCpu_setPcidGen (n : ℕ) (f : ℕ → Option ℕ) (cpu : Cpu) (t v : ℕ) :
    (firstCpu n f cpu).setPcidGen t v = firstCpu n (update f t (some v)) cpu := by
  rw [setPcidGen, firstCpu, firstCpu]

@[simp] lemma firstCpu_setCpu (n : ℕ) (f : ℕ → Option ℕ) (cpu cpu' : Cpu) :
    (firstCpu n f cpu).setCpu 0 cpu' = firstCpu n f cpu' := by
  simp [firstCpu, setCpu]

/-- Two tables that share PCID 1 of generation 1, switched to one after the other
on a CPU that has not seen the generation yet. -/
lemma reachable_shared_pcid {a b n : ℕ} {f : ℕ → Option ℕ} (hne : a ≠ b)
    (ha : f a = some 0x1001) (hb : f b = some 0x1001)
    (h : Reachable (fun _ _ => True) (firstCpu n f ⟨0, none, .idle, []⟩)) :
    ∃ s, Reachable (fun _ _ => True) s ∧ ¬s.TagIsolated := by
  have hf : update f a (some 0x1001) = f := by rw [← ha, update_eq_self]
  have h₁ : Reachable _ (firstCpu n f ⟨0, none, .loaded a 1, []⟩) :=
    h.step (.switchBegin 0 a) trivial (by simp [step, pcidOf, ha])
  have h₂ : Reachable _ (firstCpu n f ⟨0, none, .checked a 1 0x1000, []⟩) :=
    h₁.step (.switchLoadGen 0) trivial (by simp [step])
  have h₃ : Reachable _ (firstCpu n f ⟨0x1000, none, .flushed a 1 0x1000, []⟩) :=
    h₂.step (.switchCommit 0) trivial (by simp [step, cpuGen, maxCpus])
  have h₄ : Reachable _ (firstCpu n f ⟨0x1000, some (a, 1), .idle, []⟩) :=
    h₃.step (.switchFinish 0) trivial (by simp [step, ha, hf])
  have h₅ : Reachable _ (firstCpu n f ⟨0x1000, some (a, 1), .idle, [(1, a)]⟩) :=
    h₄.step (.fill 0) trivial (by simp [step])
  have h₆ : Reachable _ (firstCpu n f ⟨0x1000, some (a, 1), .loaded b 1, [(1, a)]⟩) :=
    h₅.step (.switchBegin 0 b) trivial (by simp [step, pcidOf, hb])
  have h₇ : Reachable _ (firstCpu n f ⟨0x1000, some (a, 1), .checked b 1 0x1000, [(1, a)]⟩) :=
    h₆.step (.switchLoadGen 0) trivial (by simp [step])
  refine ⟨_, h₇, fun hisolated => ?_⟩
  exact hisolated 0 b 1 0x1000 (by simp) (by simp [cpuGen, maxCpus]) ⟨_, hb⟩ a hne ⟨_, ha⟩ (by simp)

/-- After 4094 tables the counter wraps: the next two tables are both given PCID
1 of the new generation, and a switch between them on one CPU skips the flush. -/
theorem wrapped_counter_shares_pcid :
    ∃ s, Reachable (fun _ _ => True) s ∧ ¬s.TagIsolated := by
  obtain ⟨f, h₀⟩ := reachable_creates 4094 le_rfl
  have hwrap : allocPcid true (4094 + 1) = (0x1001, 0x1001) := by decide
  have hnext : allocPcid true 0x1001 = (0x1001, 0x1002) := by decide
  have h₁ : Reachable _ ⟨true, 0x1001, 4095,
      update f 4094 (some 0x1001), fun _ => ⟨0, none, .idle, []⟩⟩ :=
    h₀.step .create trivial (by simp only [step, setPcidGen, hwrap])
  have h₂ : Reachable _ ⟨true, 0x1002, 4096,
      update (update f 4094 (some 0x1001)) 4095 (some 0x1001),
      fun _ => ⟨0, none, .idle, []⟩⟩ :=
    h₁.step .create trivial (by simp only [step, setPcidGen, hnext])
  have hf : ∀ t, t = 4094 ∨ t = 4095 →
      update (update f 4094 (some 0x1001)) 4095 (some 0x1001) t =
        some 0x1001 := by
    rintro t (rfl | rfl) <;> simp
  refine reachable_shared_pcid (n := 4096) (by decide) (hf 4094 (.inl rfl)) (hf 4095 (.inr rfl)) ?_
  rw [firstCpu, update_eq_self]
  exact h₂

end System
end Kevlar.Pcid
