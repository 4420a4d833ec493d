import Kevlar.LostWakeups

/-!
# One place for each process

A process is in a run queue, or about to be put into one by the code that resumes it, or
taken from one by a processor that is going to run it, or it is running, or nowhere. If a
sleeping process is only resumed when no processor is on its stack any more, every
process has exactly one of these places in every run. Otherwise the code that resumes it
and its own `switch` both put it into a run queue.
-/
namespace Kevlar.Sched
open Kernel Function List Concurrent

namespace Stage

/-- Outside of `switch`, or before its section under the scheduler lock. -/
@[simp] def active : Stage → Bool
  | run => true
  | entered => true
  | readState _ => true
  | marked _ => true
  | _ => false

/-- The process that `switch` has taken from a run queue. -/
@[simp] def next : Stage → Option Pid
  | picked next => next
  | resolved next => next
  | rechecked next => next
  | waited next => next
  | unsaved next => next
  | _ => none

/-- The process whose context `switch` has found to be saved. -/
@[simp] def committed : Stage → Option Pid
  | waited next => next
  | unsaved next => next
  | _ => none

/-- The process that `switch` leaves is going to be put back into a run queue. -/
@[simp] def returns : Stage → Bool
  | readState prev => prev = .runnable
  | marked prev => prev = .runnable
  | _ => false

end Stage

variable {st : Stage} {cfg : KConfig}

lemma Stage.active_of_returns (h : st.returns = true) : st.active = true := by
  cases st <;> first | rfl | cases h

lemma Stage.next_of_committed {p : Pid} (h : st.committed = some p) :
    st.next = some p := by
  cases st <;> first | exact h | cases h

/-- The processor runs the process and has not yet decided to leave it. -/
@[simp] def Cpu.runs (cpu : Cpu) (p : Pid) : Prop := cpu.current = some p ∧ cpu.stage.active = true

/-- Every process is in the run queues at most once, not while a processor runs it, and
no two processors are on its stack. -/
structure Exclusive (s : Kernel) : Prop where
  once : ∀ p, s.runQueues.count p ≤ 1
  notQueued : ∀ c p, (s.cpus c).runs p → s.runQueues.count p = 0
  oneCpu : ∀ c c' p, (s.cpus c).current = some p → (s.cpus c').current = some p → c = c'

inductive Place
  | nowhere
  | queued
  | pending (a : Agent)
  | incoming (c : ℕ)
  | running (c : ℕ)
  deriving DecidableEq

@[simp] def Instr.enqueues (p : Pid) : Instr → Bool
  | .any (.enqueue p' _) => p' = p
  | _ => false

/-- The process is at the place, and nowhere else. -/
structure PlacedAt (s : Kernel) (stack : Agent → List Instr) (p : Pid) (pl : Place) : Prop where
  queued : s.runQueues.count p = if pl = .queued then 1 else 0
  pending : ∀ a, (stack a).countP (Instr.enqueues p) = if pl = .pending a then 1 else 0
  incoming : ∀ c, (s.cpus c).stage.next = some p ↔ pl = .incoming c
  running : ∀ c, (s.cpus c).runs p ↔ pl = .running c
  leaving : ∀ c, (s.cpus c).current = some p → (s.cpus c).stage.active = false →
    pl = .nowhere ∨ s.contextSaved p = false
  marked : ∀ c, (s.cpus c).current = some p → (s.cpus c).stage = .marked .runnable →
    s.contextSaved p = false
  awake : ∀ c, (s.cpus c).current = some p → (s.cpus c).stage.returns = true →
    (s.state p).asleep = false
  alone : ∀ c c', (s.cpus c).current = some p → (s.cpus c').current = some p → c = c'
  committed : ∀ c, (s.cpus c).stage.committed = some p → ∀ c', (s.cpus c').current ≠ some p
  asleep : (s.state p).asleep = true → pl = .nowhere ∨ ∃ c, pl = .running c
  unborn : s.born p = false → pl = .nowhere ∧ ∀ c, (s.cpus c).current ≠ some p

def Placed (cfg : KConfig) : Prop := ∀ p, ∃ pl, PlacedAt cfg.shared cfg.stack p pl

lemma Placed.exclusive (h : Placed cfg) : Exclusive cfg.shared where
  once p := by
    obtain ⟨pl, hp⟩ := h p
    rw [hp.queued]
    split_ifs <;> decide
  notQueued c p hruns := by
    obtain ⟨pl, hp⟩ := h p
    rw [hp.queued, (hp.running c).mp hruns]
    rfl
  oneCpu c c' p hc hc' := by
    obtain ⟨pl, hp⟩ := h p
    exact hp.alone c c' hc hc'

/-- A sleeping process is resumed when no processor is on its stack, and continued when it
is still asleep. -/
def SettledResume (cfg : KConfig) : KMove → Prop
  | .act a _ =>
    match cfg.stack a with
    | .any (.resume p _) :: _ => (cfg.shared.state p).asleep = true →
        ∀ c, (cfg.shared.cpus c).current ≠ some p
    | .any (.setRunnable p) :: _ => (cfg.shared.state p).asleep = true ∧
        ∀ c, (cfg.shared.cpus c).current ≠ some p
    | _ => True
  | _ => True

namespace PlacedAt

variable {s s' : Kernel} {stack stack' : Agent → List Instr} {p : Pid} {pl : Place}

/-- A step of an agent that neither moves the process nor puts it to sleep. -/
lemma frame (h : PlacedAt s stack p pl) (hq : s'.runQueues.count p = s.runQueues.count p)
    (hcpus : s'.cpus = s.cpus) (hsaved : s'.contextSaved p = s.contextSaved p)
    (hborn : s'.born p = s.born p)
    (hstate : (s'.state p).asleep = true →
      (s.state p).asleep = true ∨ ∃ c, s.cpus c = ⟨some p, .run⟩)
    (hstack : ∀ a, (stack' a).countP (Instr.enqueues p) = (stack a).countP (Instr.enqueues p)) :
    PlacedAt s' stack' p pl where
  queued := hq.trans h.queued
  pending a := (hstack a).trans (h.pending a)
  incoming := by simpa only [hcpus] using h.incoming
  running := by simpa only [hcpus] using h.running
  leaving := by simpa only [hcpus, hsaved] using h.leaving
  marked := by simpa only [hcpus, hsaved] using h.marked
  awake c hc hret := by
    rw [hcpus] at hc hret
    by_contra hasleep
    rcases hstate (Bool.not_eq_false _ ▸ hasleep) with hs | ⟨c', hc'⟩
    · rw [h.awake c hc hret] at hs
      cases hs
    · obtain rfl := h.alone c c' hc (by rw [hc'])
      rw [hc'] at hret
      cases hret
  alone := by simpa only [hcpus] using h.alone
  committed := by simpa only [hcpus] using h.committed
  asleep hs := by
    rcases hstate hs with hs | ⟨c, hc⟩
    · exact h.asleep hs
    · exact .inr ⟨c, (h.running c).mp (by rw [hc]; exact ⟨rfl, rfl⟩)⟩
  unborn := by simpa only [hcpus, hborn] using h.unborn

/-- A sleeping process on no processor is nowhere. -/
lemma nowhere_of_asleep (h : PlacedAt s stack p pl) (hasleep : (s.state p).asleep = true)
    (hcpus : ∀ c, (s.cpus c).current ≠ some p) : pl = .nowhere := by
  rcases h.asleep hasleep with hpl | ⟨c, hpl⟩
  · exact hpl
  · exact absurd ((h.running c).mpr hpl).1 (hcpus c)

variable {a : Agent}

/-- Code that resumes a process is going to put it into a run queue. -/
lemma pend (h : PlacedAt s stack p .nowhere) (hnone : ∀ c, (s.cpus c).current ≠ some p)
    (hborn : s.born p = true) (hq : s'.runQueues = s.runQueues) (hcpus : s'.cpus = s.cpus)
    (hborn' : s'.born = s.born) (hstate : (s'.state p).asleep = false)
    (hstack : ∀ b, (stack' b).countP (Instr.enqueues p) =
      (stack b).countP (Instr.enqueues p) + if b = a then 1 else 0) :
    PlacedAt s' stack' p (.pending a) where
  queued := by
    rw [hq, h.queued]
    rfl
  pending b := by
    rw [hstack, h.pending]
    simp only [reduceCtorEq, if_false, Place.pending.injEq, eq_comm, zero_add]
  incoming c := by simpa [hcpus] using h.incoming c
  running c := by simpa [hcpus] using h.running c
  leaving c hc := by
    rw [hcpus] at hc
    exact absurd hc (hnone c)
  marked c hc := by
    rw [hcpus] at hc
    exact absurd hc (hnone c)
  awake _ _ _ := hstate
  alone c c' hc := by
    rw [hcpus] at hc
    exact absurd hc (hnone c)
  committed c _ c' := by
    rw [hcpus]
    exact hnone c'
  asleep hs := by
    rw [hstate] at hs
    cases hs
  unborn hs := by
    rw [hborn', hborn] at hs
    cases hs

/-- The code that resumes a process puts it into a run queue. -/
lemma enqueue (h : PlacedAt s stack p (.pending a))
    (hq : s'.runQueues.count p = s.runQueues.count p + 1) (hcpus : s'.cpus = s.cpus)
    (hsaved : s'.contextSaved = s.contextSaved) (hborn : s'.born = s.born)
    (hstate : s'.state = s.state)
    (hstack : ∀ b, (stack' b).countP (Instr.enqueues p) + (if b = a then 1 else 0) =
      (stack b).countP (Instr.enqueues p)) :
    PlacedAt s' stack' p .queued where
  queued := by
    rw [hq, h.queued]
    rfl
  pending b := by
    have hb := hstack b
    rw [h.pending] at hb
    simp only [Place.pending.injEq, eq_comm, reduceCtorEq, if_false] at hb ⊢
    omega
  incoming c := by simpa [hcpus] using h.incoming c
  running c := by simpa [hcpus] using h.running c
  leaving c hc hst := by
    rw [hcpus] at hc hst
    rw [hsaved]
    exact .inr ((h.leaving c hc hst).resolve_left nofun)
  marked := by simpa only [hcpus, hsaved] using h.marked
  awake := by simpa only [hcpus, hstate] using h.awake
  alone := by simpa only [hcpus] using h.alone
  committed := by simpa only [hcpus] using h.committed
  asleep hs := by
    rw [hstate] at hs
    rcases h.asleep hs with hpl | ⟨c, hpl⟩
    · cases hpl
    · cases hpl
  unborn hs := by
    rw [hborn] at hs
    cases (h.unborn hs).1

/-- A process is taken out of the run queues by code that makes it exit. -/
lemma unqueue (h : PlacedAt s stack p .queued) (hq : s'.runQueues.count p = 0)
    (hcpus : s'.cpus = s.cpus) (hborn : s'.born = s.born)
    (hstack : ∀ b, (stack' b).countP (Instr.enqueues p) = (stack b).countP (Instr.enqueues p)) :
    PlacedAt s' stack' p .nowhere where
  queued := hq
  pending b := by
    rw [hstack, h.pending]
    rfl
  incoming c := by simpa [hcpus] using h.incoming c
  running c := by simpa [hcpus] using h.running c
  leaving _ _ _ := .inl rfl
  marked c hc hst := by
    rw [hcpus] at hc hst
    have hruns : (s.cpus c).runs p := ⟨hc, by rw [hst]; rfl⟩
    cases (h.running c).mp hruns
  awake c hc hret := by
    rw [hcpus] at hc hret
    cases (h.running c).mp ⟨hc, Stage.active_of_returns hret⟩
  alone := by simpa only [hcpus] using h.alone
  committed := by simpa only [hcpus] using h.committed
  asleep _ := .inl rfl
  unborn hs := by
    rw [hborn] at hs
    cases (h.unborn hs).1

end PlacedAt

/-! ## Processors -/

/-- Places between which a step of processor `c` moves a process. -/
@[simp] def Place.near (c : ℕ) : Place → Bool
  | .nowhere => true
  | .queued => true
  | .pending _ => false
  | .incoming c' => c' = c
  | .running c' => c' = c

@[simp] lemma setSaved_contextSaved (s : Kernel) (prev : Option Pid) (b : Bool) (p : Pid) :
    (s.setSaved prev b).contextSaved p = if prev = some p then b else s.contextSaved p := by
  cases prev with
  | none => rfl
  | some q => simp only [setSaved, update_apply, Option.some.injEq, eq_comm]

@[simp] lemma setSaved_runQueues (s : Kernel) (prev : Option Pid) (b : Bool) :
    (s.setSaved prev b).runQueues = s.runQueues := by
  cases prev <;> rfl

namespace PlacedAt

variable {s s' : Kernel} {stack : Agent → List Instr} {p : Pid} {pl pl' : Place} {c : ℕ}

/-- A step of processor `c` that takes the process from one place to another. -/
lemma ofCpu (h : PlacedAt s stack p pl) (cpu : Cpu)
    (hplace : pl' = pl ∨ pl ≠ .nowhere ∧ pl.near c ∧ pl'.near c)
    (hcpus : s'.cpus = update s.cpus c cpu)
    (hcur : cpu.current = some p →
      (s.cpus c).current = some p ∨ (s.cpus c).stage.committed = some p)
    (hstate : s'.state = s.state) (hborn : s'.born = s.born)
    (hsaved : (s.cpus c).current ≠ some p → s'.contextSaved p = s.contextSaved p)
    (hq : s'.runQueues.count p = if pl' = .queued then 1 else 0)
    (hincoming : cpu.stage.next = some p ↔ pl' = .incoming c)
    (hrunning : cpu.runs p ↔ pl' = .running c)
    (hleaving : cpu.current = some p → cpu.stage.active = false →
      pl' = .nowhere ∨ s'.contextSaved p = false)
    (hmarked : cpu.current = some p → cpu.stage = .marked .runnable → s'.contextSaved p = false)
    (hawake : cpu.current = some p → cpu.stage.returns = true → (s.state p).asleep = false)
    (hcommitted : cpu.stage.committed = some p → ∀ c', (s'.cpus c').current ≠ some p)
    (hput : pl = .running c → pl' = .running c ∨ pl' = .nowhere ∨ (s.state p).asleep = false) :
    PlacedAt s' stack p pl' := by
  have hself : s'.cpus c = cpu := by rw [hcpus, update_self]
  have hother : ∀ c', c' ≠ c → s'.cpus c' = s.cpus c' := by
    intro c' hc
    rw [hcpus, update_of_ne hc]
  have hcoming : ∀ c', (s.cpus c').stage.committed = some p → pl = .incoming c' :=
    fun c' hc => (h.incoming c').mp (Stage.next_of_committed hc)
  -- no other processor is on the stack of a process that `c` is on
  have halone : cpu.current = some p → ∀ c', c' ≠ c → (s.cpus c').current ≠ some p := by
    intro hc c' hne hc'
    rcases hcur hc with hold | hold
    · exact hne (h.alone c' c hc' hold)
    · exact h.committed c hold c' hc'
  have helse : ∀ c', c' ≠ c → (s.cpus c').current = some p →
      s'.contextSaved p = s.contextSaved p := by
    intro c' hne hc'
    exact hsaved fun hold => hne (h.alone c' c hc' hold)
  constructor
  case queued => exact hq
  case pending =>
    intro a
    rw [h.pending a]
    grind [Place.near]
  case incoming =>
    intro c'
    have := h.incoming c'
    grind [Place.near]
  case running =>
    intro c'
    have := h.running c'
    grind [Place.near]
  case leaving =>
    intro c'
    have := h.leaving c'
    grind [Place.near]
  case marked =>
    intro c'
    have := h.marked c'
    grind
  case awake =>
    intro c'
    have := h.awake c'
    grind
  case alone =>
    intro c' c''
    have := h.alone c' c''
    grind
  case committed =>
    intro c' hc' c''
    have := h.committed c'
    grind
  case asleep =>
    have := h.asleep
    cases pl' <;> grind [Place.near]
  case unborn =>
    have := h.unborn
    grind

/-- A step of `switch` that leaves the process where it is. -/
lemma restage (h : PlacedAt s stack p pl) (st : Stage)
    (hcpus : s'.cpus = update s.cpus c { s.cpus c with stage := st })
    (hq : s'.runQueues.count p = s.runQueues.count p) (hstate : s'.state = s.state)
    (hborn : s'.born = s.born)
    (hsaved : s'.contextSaved p = s.contextSaved p ∨
      (s.cpus c).current = some p ∧ s'.contextSaved p = false)
    (hactive : (s.cpus c).current = some p → st.active = (s.cpus c).stage.active)
    (hnext : st.next = some p ↔ (s.cpus c).stage.next = some p)
    (hcommitted : st.committed = some p →
      (s.cpus c).stage.committed = some p ∨ s.contextSaved p = true)
    (hmarked : (s.cpus c).current = some p → st = .marked .runnable → s'.contextSaved p = false)
    (hawake : (s.cpus c).current = some p → st.returns = true → (s.state p).asleep = false) :
    PlacedAt s' stack p pl := by
  have hcur : ∀ c', (s'.cpus c').current = (s.cpus c').current := by
    intro c'
    rw [hcpus, update_apply]
    split_ifs with hc
    · rw [hc]
    · rfl
  refine h.ofCpu _ (.inl rfl) hcpus .inl hstate hborn (by grind) (hq.trans h.queued)
    (hnext.trans (h.incoming c)) ?_ ?_ hmarked hawake ?_ .inl
  · rw [← h.running c]
    grind [Cpu.runs]
  · have := h.leaving c
    grind
  · intro hc c'
    rw [hcur]
    have hpl := (h.incoming c).mp (hnext.mp (Stage.next_of_committed hc))
    rcases hcommitted hc with hold | hold
    · exact h.committed c hold c'
    · have := h.leaving c'
      have := h.running c'
      grind [Cpu.runs]

/-- A step of `switch` that also marks the context of its process as not saved. -/
lemma restageUnsaved (h : PlacedAt s stack p pl) (st : Stage)
    (hactive : st.active = (s.cpus c).stage.active)
    (hnext : st.next = some p ↔ (s.cpus c).stage.next = some p)
    (hcommitted : st.committed = some p → (s.cpus c).stage.committed = some p)
    (hawake : (s.cpus c).current = some p → st.returns = true → (s.state p).asleep = false) :
    PlacedAt ((s.setSaved (s.cpus c).current false).setStage c st) stack p pl := by
  have hsaved : ((s.setSaved (s.cpus c).current false).setStage c st).contextSaved p =
      if (s.cpus c).current = some p then false else s.contextSaved p :=
    setSaved_contextSaved s (s.cpus c).current false p
  refine @restage _ _ _ _ _ c h st ?_ ?_ ?_ ?_ ?_ (fun _ => hactive) hnext
    (fun hst => .inl (hcommitted hst)) (fun hp _ => ?_) hawake
  · simp [setStage]
  · simp [setStage]
  · simp [setStage]
  · simp [setStage]
  · rw [hsaved]
    split_ifs with hp
    · exact .inr ⟨hp, rfl⟩
    · exact .inl rfl
  · rw [hsaved, if_pos hp]

/-- A processor gives up the process that it has taken from a run queue. -/
lemma drop (h : PlacedAt s stack p pl) (st : Stage)
    (hcpus : s'.cpus = update s.cpus c { s.cpus c with stage := st })
    (hq : s'.runQueues = s.runQueues) (hstate : s'.state = s.state)
    (hborn : s'.born = s.born) (hsaved : s'.contextSaved = s.contextSaved)
    (hactive : st.active = false) (hnext : st.next = none) (hcommitted : st.committed = none)
    (hreturns : st.returns = false)
    (hold : (s.cpus c).stage.active = false) :
    ∃ pl', PlacedAt s' stack p pl' := by
  by_cases hpl : pl = .incoming c
  · subst hpl
    refine ⟨.nowhere, h.ofCpu _ (.inr ⟨nofun, by simp, rfl⟩) hcpus .inl hstate
      hborn (fun _ => by rw [hsaved]) (by rw [hq, h.queued]; rfl) ?_ ?_ ?_ ?_ ?_ ?_ ?_⟩
    all_goals grind [Cpu.runs, Stage.returns]
  · refine ⟨pl, h.restage _ hcpus (by rw [hq]) hstate hborn (.inl (by rw [hsaved])) ?_ ?_ ?_ ?_ ?_⟩
    · grind
    · rw [h.incoming c, hnext]
      grind
    · grind
    · grind [Stage.returns]
    · grind

/-- A processor goes on with the process that it was about to leave. -/
lemma stay (h : PlacedAt s stack p pl) (hcur : (s.cpus c).current = (s.cpus c).stage.next) :
    ∃ pl', PlacedAt ((s.setSaved (s.cpus c).current true).setStage c .run) stack p pl' := by
  have hcpus : ((s.setSaved (s.cpus c).current true).setStage c .run).cpus =
      update s.cpus c { s.cpus c with stage := .run } := by
    simp [setStage]
  have hcount : ((s.setSaved (s.cpus c).current true).setStage c .run).runQueues.count p =
      s.runQueues.count p := by
    simp [setStage]
  by_cases hp : (s.cpus c).current = some p
  · have hpl : pl = .incoming c := (h.incoming c).mp (hcur ▸ hp)
    subst hpl
    refine ⟨.running c, h.ofCpu _ (.inr (by simp)) hcpus .inl (by simp [setStage])
      (by simp [setStage]) (absurd hp) (hcount.trans h.queued) ?_ ?_ ?_ ?_ ?_ ?_ ?_⟩
    all_goals simp [hp]
  · refine ⟨pl, h.restage _ hcpus hcount (by simp [setStage]) (by simp [setStage])
      (.inl ?_) (absurd · hp) ?_ ?_ (absurd · hp) (absurd · hp)⟩
    · simp [setStage, hp]
    · rw [← hcur]
      simp [hp]
    · simp

variable {next : Option Pid} {rq : RunQueues}

/-- The processor has decided to leave its process, which goes to another place. -/
lemma unrun (h : PlacedAt s stack p (.running c)) (hnear : pl'.near c = true)
    (hne : pl' ≠ .running c) (hq : rq.count p = if pl' = .queued then 1 else 0)
    (hnext : next = some p ↔ pl' = .incoming c)
    (hput : pl' = .nowhere ∨ s.contextSaved p = false ∧ (s.state p).asleep = false) :
    PlacedAt ({ s with runQueues := rq }.setStage c (.picked next)) stack p pl' := by
  have hp : (s.cpus c).current = some p := ((h.running c).mpr rfl).1
  refine h.ofCpu ⟨(s.cpus c).current, .picked next⟩ (.inr ⟨nofun, by simp, hnear⟩) rfl .inl rfl rfl
    (absurd hp) hq hnext ?_ (fun _ _ => hput.imp_right And.left) nofun nofun nofun (fun _ => .inr
    (hput.imp_right And.right))
  simp [hne]

/-- The section of `switch` under the scheduler lock. -/
lemma choose {old : ProcessState} (h : PlacedAt s stack p pl)
    (hold : (s.cpus c).stage = .marked old) (hrq : (s.putBack (s.cpus c).current old).count p =
      rq.count p + if next = some p then 1 else 0) :
    ∃ pl', PlacedAt ({ s with runQueues := rq }.setStage c (.picked next)) stack p pl' := by
  by_cases hp : (s.cpus c).current = some p
  · obtain rfl : pl = .running c := (h.running c).mp ⟨hp, by rw [hold]; rfl⟩
    have hzero : s.runQueues.count p = 0 := h.queued
    by_cases hrun : old = .runnable
    · subst hrun
      have hsaved := h.marked c hp hold
      have hawake := h.awake c hp (by rw [hold]; rfl)
      rw [hp, putBack, if_pos rfl, RunQueues.count_enqueue, hzero, if_pos rfl] at hrq
      by_cases hnext : next = some p
      · rw [if_pos hnext] at hrq
        have hcount : rq.count p = 0 := by omega
        exact ⟨.incoming c, h.unrun (by simp) nofun hcount (by simp [hnext])
          (.inr ⟨hsaved, hawake⟩)⟩
      · rw [if_neg hnext] at hrq
        exact ⟨.queued, h.unrun rfl nofun hrq.symm (by simp [hnext]) (.inr ⟨hsaved, hawake⟩)⟩
    · rw [hp, putBack, if_neg hrun, hzero] at hrq
      obtain ⟨hcount, hnext⟩ := Nat.add_eq_zero_iff.mp hrq.symm
      refine ⟨.nowhere, h.unrun rfl nofun hcount ?_ (.inl rfl)⟩
      simpa using hnext
  · have hcount : (s.putBack (s.cpus c).current old).count p = s.runQueues.count p := by
      cases hq : (s.cpus c).current with
      | none => rfl
      | some q =>
        rw [putBack]
        split_ifs
        · rw [RunQueues.count_enqueue, if_neg fun heq => hp (by rw [hq, heq]), add_zero]
        · rfl
    rw [hcount] at hrq
    by_cases hnext : next = some p
    · obtain rfl : pl = .queued := by
        by_contra hpl
        rw [h.queued, if_neg hpl, if_pos hnext] at hrq
        omega
      have hone : s.runQueues.count p = 1 := h.queued
      rw [hone, if_pos hnext] at hrq
      refine ⟨.incoming c, h.ofCpu ⟨(s.cpus c).current, .picked next⟩ (.inr ⟨nofun, rfl, by simp⟩)
        rfl .inl rfl rfl (fun _ => rfl) ?_ ?_ ?_ (absurd · hp) nofun nofun nofun nofun⟩
      · have hcount : rq.count p = 0 := by omega
        exact hcount
      · simp [hnext]
      · simp [hp]
    · refine ⟨pl, h.restage (.picked next) rfl ?_ rfl rfl (.inl rfl) (absurd · hp) ?_ nofun
        (absurd · hp) (absurd · hp)⟩
      · rw [if_neg hnext] at hrq
        exact hrq.symm
      · simp [hold, hnext]

/-- The processor leaves its process for the next one. -/
lemma leave (h : PlacedAt s stack p pl) (hold : (s.cpus c).stage = .unsaved next) :
    ∃ pl', PlacedAt { s.setSaved (s.cpus c).current true with
      cpus := update s.cpus c ⟨next, .run⟩ } stack p pl' := by
  have hincoming := h.incoming c
  have hcommitted := h.committed c
  have hrunning := h.running c
  rw [Cpu.runs, hold] at hrunning
  rw [hold] at hincoming hcommitted
  by_cases hp : next = some p
  · have hpl : pl = .incoming c := hincoming.mp hp
    subst hpl
    refine ⟨.running c, h.ofCpu ⟨next, .run⟩
      (.inr ⟨nofun, by simp, by simp⟩) rfl
      (fun _ => .inr (by rw [hold]; exact hp)) (by simp) (by simp) (fun hne => by simp [hne])
      ?_ ?_ ?_ ?_ ?_ ?_ ?_ ?_⟩
    · simpa using h.queued
    all_goals simp [hp]
  · refine ⟨pl, h.ofCpu ⟨next, .run⟩ (.inl rfl) rfl (absurd · hp) (by simp) (by simp)
      (fun hne => by simp [hne]) ?_ ?_ ?_ (absurd · hp) (absurd · hp) (absurd · hp) ?_ .inl⟩
    · simpa using h.queued
    · rw [← hincoming]
      simp [hp]
    · rw [← hrunning]
      simp [hp]
    · simp

/-- A step of `switch`. -/
lemma switch (h : PlacedAt s stack p pl) (hsw : Switches s c (s.cpus c).stage s') :
    ∃ pl', PlacedAt s' stack p pl' := by
  generalize hold : (s.cpus c).stage = old at hsw
  cases hsw with
  | readState =>
    refine ⟨pl, h.restage (.readState (s.stateOf (s.cpus c).current)) rfl rfl rfl rfl (.inl rfl)
      ?_ ?_ nofun nofun fun hp hrun => ?_⟩
    · simp [hold]
    · simp [hold]
    · rw [hp] at hrun
      rw [show s.state p = .runnable from of_decide_eq_true hrun]
      rfl
  | mark =>
    refine ⟨pl, h.restageUnsaved (.marked .runnable) ?_ ?_ nofun fun hp _ => ?_⟩
    · simp [hold]
    · simp [hold]
    · exact h.awake c hp (by rw [hold]; rfl)
  | @skipMark st hne =>
    refine ⟨pl, h.restage (.marked st) rfl rfl rfl rfl (.inl rfl) ?_ ?_ nofun ?_ fun hp hrun => ?_⟩
    · simp [hold]
    · simp [hold]
    · intro _ hst
      exact absurd (Stage.marked.inj hst) hne
    · exact absurd (of_decide_eq_true hrun) hne
  | pick hpick =>
    refine h.choose hold ?_
    rw [RunQueues.count_pickNext hpick]
    simp [eq_comm]
  | pickNone st => exact h.choose hold (by simp)
  | idle =>
    refine ⟨pl, h.restage (.resolved none) rfl rfl rfl rfl (.inl rfl) ?_ ?_ nofun nofun nofun⟩
    · simp [hold]
    · simp [hold]
  | stay hcur | stayResolved hcur | stayRechecked hcur => exact h.stay (by rw [hold, hcur]; rfl)
  | @resolve next hcur =>
    refine ⟨pl, h.restage (.resolved next) rfl rfl rfl rfl (.inl rfl) ?_ ?_ nofun nofun nofun⟩
    · simp [hold]
    · simp [hold]
  | dropPicked hcur | dropResolved hcur =>
    exact h.drop _ rfl rfl rfl rfl rfl rfl rfl rfl rfl (by rw [hold]; rfl)
  | @recheck next hcur =>
    refine ⟨pl, h.restage (.rechecked next) rfl rfl rfl rfl (.inl rfl) ?_ ?_ nofun nofun nofun⟩
    · simp [hold]
    · simp [hold]
  | @await next hsaved =>
    refine ⟨pl, h.restage (.waited next) rfl rfl rfl rfl (.inl rfl) ?_ ?_ ?_ nofun nofun⟩
    · simp [hold]
    · simp [hold]
    · exact fun hnext => .inr (hsaved p hnext)
  | unsave next =>
    refine ⟨pl, h.restageUnsaved (.unsaved next) ?_ ?_ ?_ nofun⟩
    · simp [hold]
    · simp [hold]
    · simp [hold]
  | leave next => exact h.leave hold

/-- A process is created. -/
lemma spawn {stack : Agent → List Instr} (h : PlacedAt s stack p pl)
    {p₀ : Pid} (hborn : s.born p₀ = false)
    (hworld : s'.state = update s.state p₀ .runnable ∧
      s'.contextSaved = update s.contextSaved p₀ true ∧
      s'.born = update s.born p₀ true ∧ s'.cpus = s.cpus ∧
      s'.runQueues = s.runQueues.enqueue s.online p₀) :
    ∃ pl', PlacedAt s' stack p pl' := by
  obtain ⟨hstate, hsaved, hborn', hcpus, hq⟩ := hworld
  by_cases hp : p = p₀
  · subst hp
    obtain ⟨rfl, hnone⟩ := h.unborn hborn
    refine ⟨.queued, ?_, fun a => h.pending a, ?_, ?_, ?_, ?_, ?_, ?_, ?_, ?_, ?_⟩
    all_goals simp only [hcpus, hstate, hborn', update_self]
    · rw [hq, RunQueues.count_enqueue, h.queued]
      simp
    · intro c
      rw [h.incoming c]
      simp
    · intro c
      rw [h.running c]
      simp
    · exact fun c hc => absurd hc (hnone c)
    · exact fun c hc => absurd hc (hnone c)
    · exact fun c hc => absurd hc (hnone c)
    · exact fun c _ hc => absurd hc (hnone c)
    · exact fun _ _ c' => hnone c'
    · exact nofun
    · exact nofun
  · have hcount : s'.runQueues.count p = s.runQueues.count p := by
      rw [hq, RunQueues.count_enqueue, if_neg hp, add_zero]
    refine ⟨pl, h.frame hcount hcpus ?_ ?_ ?_ fun _ => rfl⟩
    · rw [hsaved, update_of_ne hp]
    · rw [hborn', update_of_ne hp]
    · rw [hstate, update_of_ne hp]
      exact .inl

lemma world {e : Event} (h : PlacedAt s stack p pl) (hworld : world s e = some s') :
    ∃ pl', PlacedAt s' stack p pl' := by
  cases e with
  | switchStep c => exact h.switch (switches hworld)
  | preempt c =>
    rw [Sched.world] at hworld
    split at hworld
    · rename_i hrun
      cases hworld
      refine ⟨pl, h.restage .entered rfl rfl rfl rfl (.inl rfl) ?_ ?_ ?_ ?_ ?_⟩
      all_goals simp [hrun]
    · cases hworld
  | spawn p₀ parent space =>
    rw [Sched.world] at hworld
    split at hworld
    · cases hworld
    · rename_i hborn
      cases hworld
      exact h.spawn (Bool.eq_false_iff.mpr hborn) ⟨rfl, rfl, rfl, rfl, rfl⟩
  | store | setMask | setAction | takeSignals =>
    cases hworld
    exact ⟨pl, h.frame rfl rfl rfl rfl .inl fun _ => rfl⟩

end PlacedAt

/-! ## Agents -/

section Agents

variable {s s' : Kernel} {stack : Agent → List Instr} {a : Agent} {i : Instr}
  {rest more : List Instr} {p : Pid} {pl : Place}

lemma countP_update (hstack : stack a = i :: rest) (b : Agent) :
    (update stack a (more ++ rest) b).countP (Instr.enqueues p) +
        (if b = a then [i].countP (Instr.enqueues p) else 0) =
      (stack b).countP (Instr.enqueues p) +
        if b = a then more.countP (Instr.enqueues p) else 0 := by
  by_cases hb : b = a
  · subst hb
    rw [update_self, hstack, if_pos rfl, if_pos rfl, countP_append, countP_singleton, countP_cons]
    omega
  · rw [update_of_ne hb, if_neg hb, if_neg hb]

lemma countP_resumed (p₀ : Pid) (why : Cause) (old : ProcessState) (interrupts : Bool) :
    ((resumed p₀ why old interrupts).map Instr.any).countP (Instr.enqueues p) =
      if p = p₀ ∧ old.asleep = true then 1 else 0 := by
  cases old with
  | runnable | exitedWith | exitedBySignal =>
    simp [resumed, ProcessState.exited, ProcessState.asleep]
  | blockedSignalable | stopped =>
    cases interrupts <;>
      simp [resumed, ProcessState.exited, ProcessState.asleep, countP_cons, eq_comm]

/-- An instruction that any code may execute. -/
lemma PlacedAt.any {j : Act} {l : List Act} (h : PlacedAt s stack p pl)
    (hok : match j with
      | .resume p _ => (s.state p).asleep = true → ∀ c, (s.cpus c).current ≠ some p
      | .setRunnable p => (s.state p).asleep = true ∧ ∀ c, (s.cpus c).current ≠ some p
      | .setState _ st => st.exited = true
      | .restore _ st => st.exited = true
      | _ => True)
    (hstack : stack a = .any j :: rest) (hdoes : Act.Does s a j s' l) :
    ∃ pl', PlacedAt s' (update stack a (l.map .any ++ rest)) p pl' := by
  have hcount := @countP_update stack a (.any j) rest (l.map .any) p hstack
  have hexited : ∀ {st : ProcessState}, st.exited = true → st.asleep = false := by
    intro st hst
    cases st <;> first | rfl | cases hst
  -- instructions that put nothing into a run queue, now or later
  have hquiet : [Instr.any j].countP (Instr.enqueues p) = 0 →
      (l.map Instr.any).countP (Instr.enqueues p) = 0 →
      ∀ b, (update stack a (l.map .any ++ rest) b).countP (Instr.enqueues p) =
        (stack b).countP (Instr.enqueues p) := by
    intro hj hl b
    have hb := hcount b
    rw [hj, hl] at hb
    simpa using hb
  -- a process is made to exit, or is taken out of the run queues for that
  have hremove : ∀ p₀, s'.runQueues = s.runQueues.remove p₀ → s'.cpus = s.cpus →
      s'.contextSaved = s.contextSaved → s'.born = s.born →
      ((s'.state p).asleep = true → (s.state p).asleep = true) →
      (∀ b, (update stack a (l.map .any ++ rest) b).countP (Instr.enqueues p) =
        (stack b).countP (Instr.enqueues p)) →
      ∃ pl', PlacedAt s' (update stack a (l.map .any ++ rest)) p pl' := by
    intro p₀ hq hcpus hsaved hborn hstate hb
    have hnew : s'.runQueues.count p = if p = p₀ then 0 else s.runQueues.count p := by
      rw [hq]
      exact RunQueues.count_remove
    by_cases hp : p = p₀ ∧ pl = .queued
    · obtain ⟨rfl, rfl⟩ := hp
      rw [if_pos rfl] at hnew
      exact ⟨_, h.unqueue hnew hcpus hborn hb⟩
    · refine ⟨pl, h.frame ?_ hcpus (by rw [hsaved]) (by rw [hborn])
        (fun hs => .inl (hstate hs)) hb⟩
      rw [hnew]
      split_ifs with hpp
      · rw [h.queued, if_neg fun hpl => hp ⟨hpp, hpl⟩]
      · rfl
  cases hdoes with
  | decides hsame hdecides =>
    refine ⟨pl, h.frame (by rw [hsame.runQueues]) hsame.cpus (by rw [hsame.contextSaved])
      (by rw [hsame.born]) ?_ (hquiet ?_ ?_)⟩
    · rw [hsame.state]
      exact .inl
    all_goals cases hdecides <;> rfl
  | setState p₀ st =>
    have hne : st ≠ .runnable := by
      rintro rfl
      cases hok
    refine hremove p₀ (if_neg hne) rfl rfl rfl (fun hs => ?_) (hquiet rfl rfl)
    by_cases hp : p = p₀
    · subst hp
      simp only [setState, update_self, hexited hok] at hs
      cases hs
    · simpa only [setState, update_of_ne hp] using hs
  | dequeue p₀ => exact hremove p₀ rfl rfl rfl rfl id (hquiet rfl rfl)
  | @resume p₀ why interrupts hborn =>
    by_cases hp : p = p₀ ∧ (s.state p₀).asleep = true
    · obtain ⟨rfl, hasleep⟩ := hp
      obtain rfl := h.nowhere_of_asleep hasleep (hok hasleep)
      refine ⟨.pending a, h.pend (hok hasleep) hborn rfl rfl rfl ?_ fun b => ?_⟩
      · simp [storeState, ProcessState.asleep]
      · have hone : ((resumed p why (s.state p) interrupts).map Instr.any).countP
            (Instr.enqueues p) = 1 := by
          rw [countP_resumed, if_pos ⟨rfl, hasleep⟩]
        have hb := hcount b
        rw [hone] at hb
        simpa [Instr.enqueues] using hb
    · refine ⟨pl, h.frame rfl rfl rfl rfl (fun hs => .inl ?_) (hquiet rfl ?_)⟩
      · by_cases hpp : p = p₀
        · subst hpp
          simp [storeState, ProcessState.asleep] at hs
        · simpa only [storeState, update_of_ne hpp] using hs
      · rw [countP_resumed, if_neg hp]
  | restore p₀ st =>
    refine ⟨pl, h.frame rfl rfl rfl rfl (fun hs => .inl ?_) (hquiet rfl rfl)⟩
    by_cases hp : p = p₀
    · subst hp
      simp only [storeState, update_self, hexited hok] at hs
      cases hs
    · simpa only [storeState, update_of_ne hp] using hs
  | enqueue p₀ front =>
    have hnew : RunQueues.count (if front = true then s.runQueues.enqueueFront s.online p₀
        else s.runQueues.enqueue s.online p₀) p =
        s.runQueues.count p + if p = p₀ then 1 else 0 := by
      cases front with
      | true => exact RunQueues.count_enqueueFront s.online
      | false => exact RunQueues.count_enqueue s.online
    by_cases hp : p = p₀
    · subst hp
      have hhead : [Instr.any (.enqueue p front)].countP (Instr.enqueues p) = 1 := by
        simp
      have hplace : pl = .pending a := by
        have hpos := h.pending a
        rw [hstack, countP_cons] at hpos
        by_contra hpl
        rw [if_neg hpl] at hpos
        simp at hpos
      subst hplace
      rw [if_pos rfl] at hnew
      refine ⟨.queued, h.enqueue hnew rfl rfl rfl rfl fun b => ?_⟩
      have hb := hcount b
      rw [hhead] at hb
      simpa using hb
    · refine ⟨pl, h.frame ?_ rfl rfl rfl .inl (hquiet ?_ rfl)⟩
      · rw [hnew, if_neg hp, add_zero]
      · simp [Ne.symm hp]
  | @setRunnable p₀ hborn =>
    by_cases hp : p = p₀
    · subst hp
      obtain rfl := h.nowhere_of_asleep hok.1 hok.2
      refine ⟨.pending a, h.pend hok.2 hborn rfl rfl rfl ?_ fun b => ?_⟩
      · simp [storeState, ProcessState.asleep]
      · have hb := hcount b
        simpa [Instr.enqueues] using hb
    · refine ⟨pl, h.frame rfl rfl rfl rfl (fun hs => .inl ?_) (hquiet rfl ?_)⟩
      · simpa only [storeState, update_of_ne hp] using hs
      · simp [Ne.symm hp]
  | take q max =>
    refine ⟨pl, h.frame rfl rfl rfl rfl .inl (hquiet rfl ?_)⟩
    rw [countP_eq_zero, map_map]
    intro i hi
    obtain ⟨p', -, rfl⟩ := mem_map.mp hi
    simp
  | requeue max hne => exact ⟨pl, h.frame rfl rfl rfl rfl .inl (hquiet rfl rfl)⟩

/-- An instruction of a process about itself. -/
lemma PlacedAt.own {p₀ : Pid} {x : Choice} {j : OwnAct} (h : PlacedAt s stack p pl)
    (hruns : s.cpus x.cpu = ⟨some p₀, .run⟩) (hstack : stack a = .own j :: rest)
    (hdoes : OwnAct.Does s p₀ x j s' more) :
    ∃ pl', PlacedAt s' (update stack a (more ++ rest)) p pl' := by
  have hquiet : more.countP (Instr.enqueues p) = 0 →
      ∀ b, (update stack a (more ++ rest) b).countP (Instr.enqueues p) =
        (stack b).countP (Instr.enqueues p) := by
    intro hmore b
    have hb := @countP_update stack a (.own j) rest more p hstack b
    rw [hmore] at hb
    simpa [Instr.enqueues] using hb
  -- the process sets its own state while it runs, and is in no run queue then
  have hself : ∀ st : ProcessState, s'.state = update s.state p₀ st →
      (s'.runQueues = s.runQueues ∨ s'.runQueues = s.runQueues.remove p₀) →
      s'.cpus = s.cpus → s'.contextSaved = s.contextSaved → s'.born = s.born →
      more.countP (Instr.enqueues p) = 0 →
      ∃ pl', PlacedAt s' (update stack a (more ++ rest)) p pl' := by
    intro st hstate hq hcpus hsaved hborn hmore
    have hrunning : p = p₀ → (s.cpus x.cpu).runs p := by
      rintro rfl
      rw [hruns]
      exact ⟨rfl, rfl⟩
    refine ⟨pl, h.frame ?_ hcpus (by rw [hsaved]) (by rw [hborn]) ?_ (hquiet hmore)⟩
    · rcases hq with hq | hq
      · rw [hq]
      · rw [hq, RunQueues.count_remove]
        split_ifs with hp
        · rw [h.queued, (h.running x.cpu).mp (hrunning hp)]
          rfl
        · rfl
    · by_cases hp : p = p₀
      · subst hp
        exact fun _ => .inr ⟨x.cpu, hruns⟩
      · rw [hstate, update_of_ne hp]
        exact .inl
  have hset : ∀ st, (s.setState p₀ st).runQueues = s.runQueues ∨
      (s.setState p₀ st).runQueues = s.runQueues.remove p₀ := by
    intro st
    by_cases hst : st = .runnable
    · exact .inl (if_pos hst)
    · exact .inr (if_neg hst)
  cases hdoes with
  | sleep hstep =>
    refine ⟨pl, h.frame rfl rfl rfl rfl .inl (hquiet ?_)⟩
    cases hstep <;> rfl
  | futex hsame hstep =>
    refine ⟨pl, h.frame (by rw [hsame.runQueues]) hsame.cpus (by rw [hsame.contextSaved])
      (by rw [hsame.born]) ?_ (hquiet ?_)⟩
    · rw [hsame.state]
      exact .inl
    · cases hstep <;> rfl
  | setState st => exact hself st rfl (hset st) rfl rfl rfl rfl
  | exitKept status | removeSelf q | ret r => exact ⟨pl, h.frame rfl rfl rfl rfl .inl (hquiet rfl)⟩
  | exitState status => exact hself _ rfl (hset _) rfl rfl rfl rfl
  | yield =>
    have hstage : PlacedAt (s.setStage x.cpu .entered) stack p pl := by
      refine h.restage .entered rfl rfl rfl rfl (.inl rfl) ?_ ?_ ?_ ?_ ?_
      all_goals simp [hruns]
    exact ⟨pl, hstage.frame rfl rfl rfl rfl .inl (hquiet rfl)⟩
  | enter q k => exact hself .blockedSignalable rfl (.inr rfl) rfl rfl rfl rfl

end Agents

/-! ## Runs -/

lemma Placed.boot (h : Boot cfg) : Placed cfg := by
  intro p
  refine ⟨.nowhere, ?_, ?_, ?_, ?_, ?_, ?_, ?_, ?_, ?_, ?_, ?_⟩
  · simp [RunQueues.count, h.runQueues]
  · simp [h.stack]
  all_goals simp [h.cpus]

/-- A call that is entered enqueues nothing itself. -/
lemma countP_enqueues_body {a : Agent} {c : Call} {is : List Instr} (h : c.body a = some is)
    (p : Pid) : is.countP (Instr.enqueues p) = 0 := by
  rw [countP_eq_zero]
  intro i hi
  cases starts_body h i hi <;> nofun

lemma Placed.next {cfg' : KConfig} (h : Placed cfg) (hstacks : StacksOk cfg)
    (hnext : kernelMachine.Next SettledResume cfg cfg') : Placed cfg' := by
  intro p
  obtain ⟨pl, hp⟩ := h p
  obtain ⟨move, hok, hstep⟩ := hnext
  cases move with
  | call a c =>
    obtain ⟨is, hstack, hbody, rfl⟩ := Machine.step_call hstep
    refine ⟨pl, hp.frame rfl rfl rfl rfl .inl fun b => ?_⟩
    dsimp only
    by_cases hb : b = a
    · subst hb
      rw [update_self, hstack, @countP_enqueues_body b c is hbody p]
      rfl
    · rw [update_of_ne hb]
  | act a x =>
    obtain ⟨i, rest, s, more, hstack, hexec, rfl⟩ := Machine.step_act hstep
    obtain ⟨j, l, rfl, rfl, hdoes⟩ | ⟨p₀, j, rfl, rfl, hruns, hdoes⟩ := exec_cases hexec
    · refine hp.any ?_ hstack hdoes
      have hexits := hstacks.exits a (.any j) (by rw [hstack]; exact mem_cons_self)
      rw [SettledResume, hstack] at hok
      cases j <;> first | exact hok | exact hexits
    · exact hp.own hruns hstack hdoes
  | world e =>
    obtain ⟨s, hworld, rfl⟩ := Machine.step_world hstep
    exact hp.world hworld

/-- In a run in which sleeping processes are only resumed when no processor is on their
stack, every process is in the run queues at most once, not while it runs, and runs on at
most one processor. -/
theorem exclusive_of_settledResume {cfg₀ cfg : KConfig} (hboot : Boot cfg₀)
    (h : kernelMachine.Runs SettledResume cfg₀ cfg) : Exclusive cfg.shared := by
  suffices hplaced : Placed cfg from hplaced.exclusive
  induction h with
  | refl => exact .boot hboot
  | tail hrun hnext ih => exact ih.next (stacksOk_of_runs hrun hboot.orderly.fine) hnext

/-- A condition on the code that is executed next, with which nothing is resumed. -/
def resumesNothing (cfg : KConfig) : KMove → Bool
  | .act a _ =>
    match cfg.stack a with
    | .any (.resume ..) :: _ => false
    | .any (.setRunnable _) :: _ => false
    | _ => true
  | _ => true

lemma settledResume_of_resumesNothing (cfg : KConfig) (move : KMove)
    (h : resumesNothing cfg move = true) : SettledResume cfg move := by
  cases move with
  | act a x =>
    rw [resumesNothing] at h
    rw [SettledResume]
    split at h
    · cases h
    · cases h
    · trivial
  | call | world => trivial

/-- A process yields to another one. -/
theorem exclusive_two_processes : ∃ cfg, kernelMachine.Runs SettledResume bootConfig cfg ∧
    cfg.shared.cpus 0 = ⟨some 2, .run⟩ ∧ 1 ∈ cfg.shared.runQueues (RunQueues.slot 1) ∧
    Exclusive cfg.shared := by
  obtain ⟨cfg, hruns, hcpu, hqueue⟩ : ∃ cfg, kernelMachine.Runs SettledResume bootConfig cfg ∧
      cfg.shared.cpus 0 = ⟨some 2, .run⟩ ∧ 1 ∈ cfg.shared.runQueues (RunQueues.slot 1) :=
    Machine.exists_runs_of_play resumesNothing settledResume_of_resumesNothing
    (startOn 0 1 ++ [.world (.spawn 2 none 2), .call (.proc 1) .schedYield, actOn 0 1 .notYet] ++
      switchTo 0)
    (by decide +kernel)
  exact ⟨cfg, hruns, hcpu, hqueue, exclusive_of_settledResume boot_bootConfig hruns⟩

/-- A sleeper that is woken before its own `switch` is in a run queue while it still runs,
and a second processor takes it from there and runs it too. -/
theorem woken_sleeper_on_two_cpus : ∃ cfg,
    kernelMachine.Runs (fun _ _ => True) bootConfig cfg ∧
      cfg.shared.cpus 0 = ⟨some 1, .run⟩ ∧ cfg.shared.cpus 1 = ⟨some 1, .run⟩ :=
  Machine.exists_runs_of_play (fun _ _ => true) (fun _ _ _ => trivial)
    (startOn 0 1 ++ startOn 1 2 ++
      [.call (.proc 1) (.sleep 5 true)] ++ replicate 3 (actOn 0 1 .notYet) ++
      [.call (.proc 2) (.wakeOne 5)] ++ replicate 5 (actOn 1 2 .notYet) ++
      [.call (.proc 2) (.sleep 6 true)] ++ replicate 5 (actOn 1 2 .notYet) ++ switchTo 1)
    (by decide +kernel)

end Kevlar.Sched
