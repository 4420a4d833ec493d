import Kevlar.ThreadSteps

/-!
# The entries of wait queues

A process puts itself into a wait queue before it checks its condition again, and is
taken out by the wake-up or by itself. The count of a queue is always the number of
its entries. A process that is resumed by anything else than the wake-up that takes
its entry may leave the sleep, or start over, without taking the entry with it. If
that does not happen, a process has at most one entry, and only while it sleeps.
-/
namespace Kevlar.Sched
open Nat Instr Kernel Function List Concurrent

/-! ## At most one sleep at a time -/

/-- The queue on which an instruction of a sleep waits, once the process has entered it. -/
def Instr.waitsOn : Instr → Option QueueId
  | .own (.recheck q _) => some q
  | .own (.woken q _) => some q
  | .own (.signalled q _) => some q
  | .own (.removeSelf q) => some q
  | _ => none

/-- The instructions of a sleep. -/
def Instr.sleeps : Instr → Bool
  | .own (.fastCheck ..) => true
  | .own (.pendingCheck ..) => true
  | .own (.enter ..) => true
  | .own (.futexWait ..) => true
  | i => i.waitsOn.isSome

/-- A process is inside a sleep on the queue, and has entered it. -/
def WaitsOn (stack : List Instr) (q : QueueId) : Prop := ∃ i ∈ stack, i.waitsOn = some q

variable {i : Instr} {a : Agent} {more : List Instr} {cfg : KConfig}

variable {q : QueueId} {s s' : Kernel} {x : Choice} {ok : KConfig → KMove → Prop} {cfg' : KConfig}

lemma Instr.sleeps_of_waitsOn (h : i.waitsOn = some q) :
    i.sleeps = true := by
  cases i with
  | any i => cases h
  | own i => cases i <;> first | rfl | cases h

lemma countP_sleeps_any (l : List Act) : (l.map Instr.any).countP Instr.sleeps = 0 := by
  rw [countP_eq_zero]
  intro i hi
  obtain ⟨j, -, rfl⟩ := mem_map.mp hi
  nofun

/-- An instruction leads to an instruction of a sleep only if it is one. -/
lemma countP_sleeps_exec (h : exec s a i x = some (s', more)) :
    more.countP Instr.sleeps ≤ [i].countP Instr.sleeps := by
  obtain ⟨j, l, rfl, rfl, -⟩ | ⟨p, j, -, rfl, -, hdoes⟩ := exec_cases h
  · rw [countP_sleeps_any]
    exact zero_le _
  · cases hdoes with
    | sleep hstep => cases hstep <;> first | exact zero_le _ | exact le_refl 1
    | futex _ hstep => cases hstep <;> exact zero_le _
    | setState | exitKept | exitState | yield | removeSelf | ret => exact zero_le _
    | enter => exact le_refl 1

lemma countP_sleeps_exitBody (p : Pid) (info : ExitInfo) :
    (exitBody p info).countP Instr.sleeps = 0 := by
  obtain ⟨status, orphans, isThread, nocldwait, tid⟩ := info
  cases orphans <;> cases isThread <;> cases nocldwait <;> cases tid <;> rfl

/-- A call that sleeps starts with the sleep and does nothing else. -/
lemma body_sleeps {a : Agent} {c : Call} {is : List Instr} (h : c.body a = some is) :
    is.countP Instr.sleeps = 0 ∨ ∃ i, is = [i] ∧ i.sleeps = true ∧ i.waitsOn = none := by
  cases a with
  | irq n => cases c <;> cases h <;> exact .inl rfl
  | proc p =>
    cases c with
    | sleep n checked => cases checked <;> cases h <;> exact .inr ⟨_, rfl, rfl, rfl⟩
    | exit info =>
      cases h
      exact .inl (countP_sleeps_exitBody p info)
    | exitGroup siblings info =>
      cases h
      have hkill : (siblings.flatMap fun q => [any (.setState q (.exitedWith info.status)),
          .any (.dequeue q), .any (.forget q)]).countP sleeps = 0 := by
        rw [countP_eq_zero]
        intro i hi
        obtain ⟨q, -, hi⟩ := mem_flatMap.mp hi
        simp only [mem_cons, not_mem_nil, or_false] at hi
        rcases hi with rfl | rfl | rfl <;> nofun
      rw [countP_append, hkill, countP_sleeps_exitBody]
      exact .inl rfl
    | exitBySignal sig info =>
      cases h
      rw [countP_cons, countP_sleeps_exitBody]
      exact .inl rfl
    | futex uaddr op val val2 uaddr2 val3 =>
      cases h
      simp only [sysFutex]
      split_ifs <;> first | exact .inl rfl | exact .inr ⟨_, rfl, rfl, rfl⟩
    | _ => cases h <;> exact .inl rfl

lemma countP_sleeps_body {c : Call} {is : List Instr} (h : c.body a = some is) :
    is.countP Instr.sleeps ≤ 1 := by
  obtain hzero | ⟨i, rfl, -⟩ := body_sleeps h
  · rw [hzero]
    exact zero_le 1
  · exact countP_le_length

/-- A process is inside at most one sleep. -/
def OneSleep (cfg : KConfig) : Prop := ∀ a, (cfg.stack a).countP Instr.sleeps ≤ 1

lemma oneSleep_of_runs (h : kernelMachine.Runs ok cfg cfg') (hone : OneSleep cfg) :
    OneSleep cfg' := by
  refine Machine.Runs.stacks (fun _ stack => stack.countP Instr.sleeps ≤ 1) ?_ ?_ h hone
  · exact fun a c is hbody => countP_sleeps_body hbody
  · intro s a x i rest s' more hold hexec
    have hmore := countP_sleeps_exec hexec
    rw [countP_cons] at hold
    rw [countP_singleton] at hmore
    rw [countP_append]
    omega

/-! ## Counts -/

section Queues

variable (s : Kernel) (a : Agent) (p : Pid) (q q' r : QueueId)

lemma enterQueue_waitQueues : (s.enterQueue p q).waitQueues r =
    if r = q then ⟨(s.waitQueues q).queue ++ [p], (s.waitQueues q).waiterCount + 1⟩
    else s.waitQueues r := update_apply ..

lemma takeFrom_waitQueues (max : Option ℕ) : (s.takeFrom a q max).waitQueues r =
    if r = q then ⟨(s.waitQueues q).queue.drop (s.firstOf q max).length,
      (s.waitQueues q).waiterCount - (s.firstOf q max).length⟩
    else s.waitQueues r := update_apply ..

lemma removeFrom_waitQueues : (s.removeFrom p q).waitQueues r =
    if r = q then ⟨(s.waitQueues q).queue.filter (· ≠ p), (s.waitQueues q).waiterCount -
      ((s.waitQueues q).queue.length - ((s.waitQueues q).queue.filter (· ≠ p)).length)⟩
    else s.waitQueues r := update_apply ..

lemma moveTo_waitQueues (max : ℕ) : (s.moveTo a q q' max).waitQueues r =
    if r = q' then ⟨(s.waitQueues q').queue ++ s.firstOf q (some max),
      (s.waitQueues q').waiterCount + (s.firstOf q (some max)).length⟩
    else if r = q then ⟨(s.waitQueues q).queue.drop (s.firstOf q (some max)).length,
      (s.waitQueues q).waiterCount - (s.firstOf q (some max)).length⟩
    else s.waitQueues r := by
  simp only [moveTo, setQueue, note, update_apply]

lemma firstOf_append_drop (max : Option ℕ) :
    s.firstOf q max ++ (s.waitQueues q).queue.drop (s.firstOf q max).length =
      (s.waitQueues q).queue := by
  cases max with
  | none => rw [firstOf, drop_length, append_nil]
  | some n =>
    rw [firstOf, length_take]
    rcases le_total n (s.waitQueues q).queue.length with hn | hn
    · rw [min_eq_left hn, take_append_drop]
    · rw [min_eq_right hn, take_of_length_le hn, drop_length, append_nil]

end Queues

lemma mem_of_firstOf {s : Kernel} {q : QueueId} {max : Option ℕ} {p : Pid}
    (h : p ∈ s.firstOf q max) : p ∈ (s.waitQueues q).queue := by
  rw [← firstOf_append_drop s q max]
  exact mem_append_left _ h

/-- The count of every queue is the number of its entries. -/
def Counted (s : Kernel) : Prop :=
  ∀ q, (s.waitQueues q).waiterCount = (s.waitQueues q).queue.length

lemma Counted.exec (hc : Counted s) (h : exec s a i x = some (s', more)) : Counted s' := by
  have hsame : s'.waitQueues = s.waitQueues → Counted s' := by
    intro hq
    rw [Counted, hq]
    exact hc
  obtain ⟨j, l, -, -, hdoes⟩ | ⟨p, j, -, -, -, hdoes⟩ := exec_cases h
  · cases hdoes with
    | take q max =>
      intro r
      rw [takeFrom_waitQueues]
      split_ifs
      · rw [length_drop, hc]
      · exact hc r
    | requeue max hne =>
      intro r
      rw [moveTo_waitQueues]
      split_ifs
      · rw [length_append, hc]
      · rw [length_drop, hc]
      · exact hc r
    | decides hcore _ => exact hsame hcore.waitQueues
    | setState | dequeue | resume | restore | enqueue | setRunnable => exact hsame rfl
  · cases hdoes with
    | enter q k =>
      intro r
      rw [enterQueue_waitQueues]
      split_ifs
      · rw [length_append, hc]
        rfl
      · exact hc r
    | removeSelf q =>
      intro r
      rw [removeFrom_waitQueues]
      split_ifs
      · have hle := length_filter_le (fun p' => decide (p' ≠ p)) (s.waitQueues q).queue
        have hcount := hc q
        dsimp only
        omega
      · exact hc r
    | futex hcore _ => exact hsame hcore.waitQueues
    | sleep | setState | exitKept | exitState | yield | ret => exact hsame rfl

/-- In every run the counts are right. -/
lemma counted_of_runs (h : kernelMachine.Runs ok cfg cfg') (hc : Counted cfg.shared) :
    Counted cfg'.shared := by
  refine Machine.Runs.invariant (fun cfg => Counted cfg.shared) ?_ ?_ ?_ h hc
  · exact fun cfg a c is hinv _ _ _ => hinv
  · exact fun cfg a x i rest s more hinv _ _ hexec => hinv.exec hexec
  · intro cfg e s hinv _ hworld q
    rw [(world_keeps hworld).1]
    exact hinv q

/-! ## Entries -/

/-- The process has been moved to the queue by `requeue_to`. -/
def MovedTo (log : List Note) (p : Pid) (q : QueueId) : Prop :=
  ∃ a q₀ ps, Note.moved a q₀ q ps ∈ log ∧ p ∈ ps

/-- A process has at most one entry in all queues, and it has one only while it is inside
a sleep on the queue, or on one from which it was moved. -/
structure EntriesOk (cfg : KConfig) : Prop where
  nodup : ∀ q, (cfg.shared.waitQueues q).queue.Nodup
  once : ∀ {p q q'}, p ∈ (cfg.shared.waitQueues q).queue →
    p ∈ (cfg.shared.waitQueues q').queue → q = q'
  inside : ∀ {p q}, p ∈ (cfg.shared.waitQueues q).queue →
    ∃ q', WaitsOn (cfg.stack (.proc p)) q' ∧ (q' = q ∨ MovedTo cfg.shared.log p q)

def NoEntry (s : Kernel) (p : Pid) : Prop := ∀ q, p ∉ (s.waitQueues q).queue

/-- A sleep that does not remove its entry itself has none when it ends or starts over,
and what it removes is in its own queue. -/
def LeavesClean (cfg : KConfig) : KMove → Prop
  | .act (.proc p) x =>
    match cfg.stack (.proc p) with
    | .own (.woken _ k) :: _ =>
      sleepEnd (cfg.shared.verdict p k x.answer) ≠ none → NoEntry cfg.shared p
    | .own (.signalled _ _) :: _ =>
      cfg.shared.hasPendingSignals p = false → NoEntry cfg.shared p
    | .own (.removeSelf q) :: _ => ∀ q', p ∈ (cfg.shared.waitQueues q').queue → q' = q
    | _ => True
  | _ => True

lemma WaitsOn.update {stack : Agent → List Instr} {rest : List Instr}
    (hstack : stack a = i :: rest)
    (hkeep : ∀ q, i.waitsOn = some q → ∃ j ∈ more, j.waitsOn = some q) {p : Pid}
    (h : WaitsOn (stack (.proc p)) q) :
    WaitsOn (update stack a (more ++ rest) (.proc p)) q := by
  by_cases ha : Agent.proc p = a
  · subst ha
    rw [update_self]
    obtain ⟨j, hj, hjq⟩ := h
    rw [hstack, mem_cons] at hj
    rcases hj with rfl | hj
    · obtain ⟨j', hj', hjq'⟩ := hkeep q hjq
      exact ⟨j', mem_append_left _ hj', hjq'⟩
    · exact ⟨j, mem_append_right _ hj, hjq⟩
  · rwa [update_of_ne ha]

namespace EntriesOk

variable {cfg : KConfig} {s' : Kernel} {stack' : Agent → List Instr}

/-- Entries are dropped from queues. -/
lemma shrink (h : EntriesOk cfg)
    (hsub : ∀ q, (s'.waitQueues q).queue.Sublist (cfg.shared.waitQueues q).queue)
    (hlog : cfg.shared.log ⊆ s'.log)
    (hstack : ∀ p, ¬NoEntry s' p → ∀ q, WaitsOn (cfg.stack (.proc p)) q →
      WaitsOn (stack' (.proc p)) q) : EntriesOk ⟨s', stack'⟩ := by
  constructor
  · exact fun q => (h.nodup q).sublist (hsub q)
  · exact fun h₁ h₂ => h.once ((hsub _).subset h₁) ((hsub _).subset h₂)
  · intro p q hp
    obtain ⟨q', hwaits, hsame⟩ := h.inside ((hsub q).subset hp)
    refine ⟨q', hstack p (fun hno => hno q hp) q' hwaits, hsame.imp_right ?_⟩
    rintro ⟨a, q₀, ps, hnote, hps⟩
    exact ⟨a, q₀, ps, hlog hnote, hps⟩

/-- The queues and the sleeps of those that have an entry stay as they are. -/
lemma frame (h : EntriesOk cfg) (hq : s'.waitQueues = cfg.shared.waitQueues)
    (hlog : cfg.shared.log ⊆ s'.log)
    (hstack : ∀ p, ¬NoEntry cfg.shared p → ∀ q, WaitsOn (cfg.stack (.proc p)) q →
      WaitsOn (stack' (.proc p)) q) : EntriesOk ⟨s', stack'⟩ := by
  refine h.shrink ?_ hlog ?_
  · intro q
    rw [hq]
  · intro p hp
    rw [NoEntry, hq] at hp
    exact hstack p hp

variable {p : Pid} {rest : List Instr}

/-- A process with an entry is in the middle of a sleep, so that an instruction that
starts one cannot come next. -/
lemma noEntry (h : EntriesOk cfg) (hone : OneSleep cfg) {i : Instr}
    (hstack : cfg.stack (.proc p) = i :: rest) (hsleeps : i.sleeps = true)
    (hwaits : i.waitsOn = none) : NoEntry cfg.shared p := by
  intro q hp
  obtain ⟨q', ⟨j, hj, hjq⟩, -⟩ := h.inside hp
  rw [hstack, mem_cons] at hj
  rcases hj with rfl | hj
  · rw [hwaits] at hjq
    cases hjq
  · have hcount := hone (.proc p)
    have hpos : 0 < rest.countP sleeps := countP_pos_iff.mpr ⟨j, hj, sleeps_of_waitsOn hjq⟩
    rw [hstack, countP_cons, if_pos hsleeps] at hcount
    omega

lemma enter {p : Pid} {q : QueueId} {k : Condition} {rest : List Instr} (h : EntriesOk cfg)
    (hno : NoEntry cfg.shared p) :
    EntriesOk ⟨cfg.shared.enterQueue p q,
      update cfg.stack (.proc p) (.own (.recheck q k) :: rest)⟩ := by
  have hqueue : ∀ q', ((cfg.shared.enterQueue p q).waitQueues q').queue =
      (cfg.shared.waitQueues q').queue ++ if q' = q then [p] else [] := by
    intro q'
    rw [enterQueue_waitQueues]
    split_ifs with hq
    · rw [hq]
    · rw [append_nil]
  have hmem : ∀ {p' q'}, p' ∈ ((cfg.shared.enterQueue p q).waitQueues q').queue →
      p' ∈ (cfg.shared.waitQueues q').queue ∨ p' = p ∧ q' = q := by
    intro p' q' hp'
    rw [hqueue, mem_append] at hp'
    refine hp'.imp_right fun hp' => ?_
    split_ifs at hp' with hq
    · exact ⟨mem_singleton.mp hp', hq⟩
    · cases hp'
  constructor
  · intro q'
    rw [hqueue]
    split_ifs
    · refine (h.nodup q').append (nodup_singleton p) ?_
      rw [disjoint_singleton]
      exact hno q'
    · rw [append_nil]
      exact h.nodup q'
  · intro p' q₁ q₂ h₁ h₂
    rcases hmem h₁ with hold₁ | ⟨rfl, rfl⟩
    · rcases hmem h₂ with hold₂ | ⟨rfl, rfl⟩
      · exact h.once hold₁ hold₂
      · exact absurd hold₁ (hno q₁)
    · rcases hmem h₂ with hold₂ | ⟨-, rfl⟩
      · exact absurd hold₂ (hno q₂)
      · rfl
  · intro p' q' hp'
    rcases hmem hp' with hp' | ⟨rfl, rfl⟩
    · have hne : Agent.proc p' ≠ .proc p := by
        rintro ⟨⟩
        exact hno q' hp'
      dsimp only
      rw [update_of_ne hne]
      exact h.inside hp'
    · refine ⟨q', ⟨.own (.recheck q' k), ?_, rfl⟩, .inl rfl⟩
      simp

variable {a : Agent} {q : QueueId}

lemma take {max : Option ℕ} (h : EntriesOk cfg)
    (hstack : ∀ p q, WaitsOn (cfg.stack (.proc p)) q → WaitsOn (stack' (.proc p)) q) :
    EntriesOk ⟨cfg.shared.takeFrom a q max, stack'⟩ := by
  refine h.shrink (fun q' => ?_) (subset_append_left _ _) fun p _ => hstack p
  rw [takeFrom_waitQueues]
  split_ifs with hq
  · rw [hq]
    exact drop_sublist _ _
  · exact List.Sublist.refl _

lemma removeSelf (h : EntriesOk cfg) (honly : ∀ q', p ∈ (cfg.shared.waitQueues q').queue → q' = q)
    (hstack : ∀ p', p' ≠ p → ∀ q, WaitsOn (cfg.stack (.proc p')) q →
      WaitsOn (stack' (.proc p')) q) :
    EntriesOk ⟨cfg.shared.removeFrom p q, stack'⟩ := by
  have hno : NoEntry (cfg.shared.removeFrom p q) p := by
    intro q' hp
    rw [removeFrom_waitQueues] at hp
    split_ifs at hp with hq
    · have hne := (mem_filter.mp hp).2
      simp at hne
    · exact hq (honly q' hp)
  refine h.shrink (fun q' => ?_) (List.Subset.refl _) fun p' hp' => ?_
  · rw [removeFrom_waitQueues]
    split_ifs with hq
    · rw [hq]
      exact filter_sublist
    · exact List.Sublist.refl _
  · refine hstack p' ?_
    rintro rfl
    exact hp' hno

lemma move {q' : QueueId} {max : ℕ} (h : EntriesOk cfg) (hne : q ≠ q')
    (hstack : ∀ p q, WaitsOn (cfg.stack (.proc p)) q → WaitsOn (stack' (.proc p)) q) :
    EntriesOk ⟨cfg.shared.moveTo a q q' max, stack'⟩ := by
  have hsplit := firstOf_append_drop cfg.shared q (some max)
  have hqueue := fun r => moveTo_waitQueues cfg.shared a q q' r max
  have hfirst := @mem_of_firstOf cfg.shared q (some max)
  generalize hps : cfg.shared.firstOf q (some max) = ps at hsplit hqueue hfirst
  have hrest : ∀ {p}, p ∈ (cfg.shared.waitQueues q).queue.drop ps.length → p ∉ ps := by
    intro p hp hp'
    have hnodup := h.nodup q
    rw [← hsplit, nodup_append] at hnodup
    exact hnodup.2.2 p hp' p hp rfl
  have hmem : ∀ {p r}, p ∈ ((cfg.shared.moveTo a q q' max).waitQueues r).queue →
      p ∈ (cfg.shared.waitQueues r).queue ∧ p ∉ ps ∨ p ∈ ps ∧ r = q' := by
    intro p r hp
    rw [hqueue] at hp
    split_ifs at hp with hr hr'
    · subst hr
      refine (mem_append.mp hp).imp (fun hp => ⟨hp, fun hp' => ?_⟩) (fun hp => ⟨hp, rfl⟩)
      exact hne (h.once (hfirst hp') hp)
    · subst hr'
      exact .inl ⟨mem_of_mem_drop hp, hrest hp⟩
    · exact .inl ⟨hp, fun hp' => hr' (h.once (hfirst hp') hp).symm⟩
  constructor
  · intro r
    rw [hqueue]
    split_ifs
    · have hnodup := h.nodup q
      rw [← hsplit] at hnodup
      refine (h.nodup q').append hnodup.of_append_left ?_
      intro p hp hp'
      exact hne (h.once (hfirst hp') hp)
    · exact (h.nodup q).sublist (drop_sublist _ _)
    · exact h.nodup r
  · intro p r₁ r₂ h₁ h₂
    rcases hmem h₁ with ⟨hold₁, hnot₁⟩ | ⟨hin₁, rfl⟩
    · rcases hmem h₂ with ⟨hold₂, -⟩ | ⟨hin₂, -⟩
      · exact h.once hold₁ hold₂
      · exact absurd hin₂ hnot₁
    · rcases hmem h₂ with ⟨-, hnot₂⟩ | ⟨-, rfl⟩
      · exact absurd hin₁ hnot₂
      · rfl
  · intro p r hp
    rcases hmem hp with ⟨hold, -⟩ | ⟨hin, rfl⟩
    · obtain ⟨r', hwaits, hsame⟩ := h.inside hold
      refine ⟨r', hstack p r' hwaits, hsame.imp_right ?_⟩
      rintro ⟨b, q₀, ps', hnote, hps'⟩
      exact ⟨b, q₀, ps', mem_append_left _ hnote, hps'⟩
    · obtain ⟨r', hwaits, -⟩ := h.inside (hfirst hin)
      refine ⟨r', hstack p r' hwaits, .inr ⟨a, q, ps, ?_, hin⟩⟩
      simp [moveTo, note, hps]

/-- Every instruction keeps the entries as they should be. -/
lemma act {x : Choice} {i : Instr} {more : List Instr} (h : EntriesOk cfg) (hone : OneSleep cfg)
    (hclean : LeavesClean cfg (.act a x)) (hstack : cfg.stack a = i :: rest)
    (hexec : exec cfg.shared a i x = some (s', more)) :
    EntriesOk ⟨s', update cfg.stack a (more ++ rest)⟩ := by
  obtain ⟨j, l, rfl, rfl, hdoes⟩ | ⟨p, j, rfl, rfl, -, hdoes⟩ := exec_cases hexec
  · have hwaits : ∀ p q, WaitsOn (cfg.stack (.proc p)) q →
        WaitsOn (update cfg.stack a (l.map .any ++ rest) (.proc p)) q :=
      fun p q => WaitsOn.update hstack fun q hq => by cases hq
    cases hdoes with
    | take q max => exact h.take hwaits
    | requeue max hne => exact h.move hne hwaits
    | decides hsame _ =>
      refine h.frame hsame.waitQueues (fun n hn => ?_) fun p _ => hwaits p
      rwa [hsame.log]
    | setState | dequeue | resume | restore | enqueue | setRunnable =>
      exact h.frame rfl (List.Subset.refl _) fun p _ => hwaits p
  · rw [LeavesClean] at hclean
    simp only [hstack] at hclean
    -- the instructions that are none of a sleep that has been entered
    have hframe : waitsOn (.own j) = none → s'.waitQueues = cfg.shared.waitQueues →
        cfg.shared.log ⊆ s'.log →
        EntriesOk ⟨s', update cfg.stack (.proc p) (more ++ rest)⟩ := by
      intro hnone hq hlog
      refine h.frame hq hlog fun p' _ q => WaitsOn.update hstack fun q hq => ?_
      rw [hnone] at hq
      cases hq
    -- the steps from one place in a sleep to the next
    have hgo : ∀ {q}, waitsOn (.own j) = some q → s' = cfg.shared →
        (∃ j ∈ more, waitsOn j = some q) →
        EntriesOk ⟨s', update cfg.stack (.proc p) (more ++ rest)⟩ := by
      rintro q hq rfl hmore
      refine h.frame rfl (List.Subset.refl _) fun p' _ q' => WaitsOn.update hstack fun q' hq' => ?_
      rw [hq, Option.some.injEq] at hq'
      rwa [← hq']
    -- the steps that leave a sleep, or start it over, without a removal
    have hleave : NoEntry cfg.shared p → s' = cfg.shared →
        EntriesOk ⟨s', update cfg.stack (.proc p) (more ++ rest)⟩ := by
      rintro hno rfl
      refine h.frame rfl (List.Subset.refl _) fun p' hp' q hq => ?_
      have hne : Agent.proc p' ≠ .proc p := by
        rintro ⟨⟩
        exact hp' hno
      rwa [update_of_ne hne]
    cases hdoes with
    | sleep hstep =>
      cases hstep with
      | fastEnd | fastGo | interrupted | uninterrupted | futexFails | futexWait =>
        exact hframe rfl rfl (List.Subset.refl _)
      | recheckEnd | wokenGo | signalled => exact hgo rfl rfl ⟨_, mem_cons_self, rfl⟩
      | recheckGo => exact hgo rfl rfl ⟨_, mem_cons_of_mem _ mem_cons_self, rfl⟩
      | wokenEnd hend => exact hleave (hclean (by rw [hend]; exact Option.some_ne_none _)) rfl
      | again hnone => exact hleave (hclean hnone) rfl
    | futex hsame hstep =>
      refine hframe ?_ hsame.waitQueues fun n hn => ?_
      · cases hstep <;> rfl
      · rwa [hsame.log]
    | setState | exitKept | exitState | yield => exact hframe rfl rfl (List.Subset.refl _)
    | enter q k => exact h.enter (h.noEntry hone hstack rfl rfl)
    | removeSelf q =>
      refine h.removeSelf hclean fun p' hp' q hq => ?_
      have hne : Agent.proc p' ≠ .proc p := fun heq => hp' (Agent.proc.inj heq)
      rwa [update_of_ne hne]
    | ret => exact hframe rfl rfl (subset_append_left _ _)

end EntriesOk

lemma entriesOk_of_runs {cfg₀ : KConfig} (hboot : Boot cfg₀)
    (h : kernelMachine.Runs LeavesClean cfg₀ cfg) : EntriesOk cfg := by
  suffices hinv : EntriesOk cfg ∧ OneSleep cfg from hinv.1
  refine Machine.Runs.invariant (fun cfg => EntriesOk cfg ∧ OneSleep cfg) ?_ ?_ ?_ h ?_
  · intro cfg a c is hinv hok hstack hbody
    refine ⟨hinv.1.frame rfl (List.Subset.refl _) fun p _ q hwaits => ?_,
      oneSleep_of_runs (.single ⟨.call a c, hok, ?_⟩) hinv.2⟩
    · by_cases ha : Agent.proc p = a
      · subst ha
        obtain ⟨i, hi, -⟩ := hwaits
        rw [hstack] at hi
        cases hi
      · rwa [update_of_ne ha]
    · simp [Machine.step, hstack, hbody]
  · intro cfg a x i rest s more hinv hok hstack hexec
    exact ⟨hinv.1.act hinv.2 hok hstack hexec,
      oneSleep_of_runs (.single ⟨.act a x, hok, Machine.step_eq_of_exec hstack hexec⟩) hinv.2⟩
  · intro cfg e s hinv hok hworld
    obtain ⟨hq, hlog, -⟩ := world_keeps hworld
    refine ⟨hinv.1.frame hq (fun n hn => by rwa [hlog]) fun p _ q hwaits => hwaits, hinv.2⟩
  · constructor
    · constructor
      all_goals simp [hboot.waitQueues]
    · intro a
      rw [hboot.stack]
      exact zero_le 1

/-- In every run in which sleeps leave no entry behind, the counts are right and the
entries are those of processes that sleep, as is every process that a wake-up takes. -/
theorem entriesOk_of_leavesClean {cfg₀ cfg : KConfig} (hboot : Boot cfg₀)
    (h : kernelMachine.Runs LeavesClean cfg₀ cfg) : Counted cfg.shared ∧ EntriesOk cfg ∧
      ∀ q max, ∀ p ∈ cfg.shared.firstOf q max, ∃ q', WaitsOn (cfg.stack (.proc p)) q' := by
  have hcounted : Counted cfg₀.shared := by
    intro q
    rw [hboot.waitQueues]
    rfl
  have hentries := entriesOk_of_runs hboot h
  refine ⟨counted_of_runs h hcounted, hentries, fun q max p hp => ?_⟩
  exact (hentries.inside (mem_of_firstOf hp)).imp fun _ => And.left

/-- Moves that do not come at the end of a sleep. -/
def notAtEnd (cfg : KConfig) : KMove → Bool
  | .act (.proc p) _ =>
    match cfg.stack (.proc p) with
    | .own (.woken ..) :: _ => false
    | .own (.signalled ..) :: _ => false
    | .own (.removeSelf _) :: _ => false
    | _ => true
  | _ => true

lemma leavesClean_of_notAtEnd (cfg : KConfig) (move : KMove) (h : notAtEnd cfg move = true) :
    LeavesClean cfg move := by
  cases move with
  | act a x =>
    cases a with
    | proc p =>
      rw [notAtEnd] at h
      rw [LeavesClean]
      split at h
      · cases h
      · cases h
      · cases h
      · trivial
    | irq n => trivial
  | call | world => trivial

/-- A process is in the queue that it sleeps on. -/
theorem entriesOk_one_sleeper : ∃ cfg, kernelMachine.Runs LeavesClean bootConfig cfg ∧
    (cfg.shared.waitQueues (.named 5)).queue = [1] ∧ Counted cfg.shared ∧ EntriesOk cfg ∧
      ∃ q, WaitsOn (cfg.stack (.proc 1)) q := by
  obtain ⟨cfg, hruns, hqueue⟩ : ∃ cfg, kernelMachine.Runs LeavesClean bootConfig cfg ∧
      (cfg.shared.waitQueues (.named 5)).queue = [1] :=
    Machine.exists_runs_of_play notAtEnd leavesClean_of_notAtEnd
    (startOn 0 1 ++ [.call (.proc 1) (.sleep 5 true)] ++
      replicate 5 (actOn 0 1 .notYet) ++ switchTo 0) (by decide +kernel)
  obtain ⟨hcounted, hentries, hwaits⟩ := entriesOk_of_leavesClean boot_bootConfig hruns
  exact ⟨cfg, hruns, hqueue, hcounted, hentries, hwaits (.named 5) (some 1) 1 (by
    simp [Kernel.firstOf, hqueue])⟩

/-- A sleeper that a signal has resumed finds its condition true. It returns and keeps its
entry, on which `wake_one` then spends its wake-up. -/
theorem wakeOne_wakes_no_waiter : ∃ cfg, kernelMachine.Runs (fun _ _ => True) bootConfig cfg ∧
    Note.returned 1 (.ok 7) ∈ cfg.shared.log ∧ cfg.stack (.proc 1) = [] ∧
    Note.woke (.proc 2) (.named 5) [1] ∈ cfg.shared.log :=
  Machine.exists_runs_of_play (fun _ _ => true) (fun _ _ _ => trivial)
    (startOn 0 1 ++ startOn 1 2 ++
      [.call (.proc 1) (.sleep 5 true)] ++ replicate 5 (actOn 0 1 .notYet) ++ switchTo 0 ++
      [.call (.proc 2) (.kill 1 10)] ++ replicate 6 (actOn 1 2 .notYet) ++
      [.world (.preempt 0)] ++ switchTo 0 ++ replicate 2 (actOn 0 1 (.ready 7)) ++
      [.call (.proc 2) (.wakeOne 5)] ++ replicate 3 (actOn 1 2 .notYet))
    (by decide +kernel)

end Kevlar.Sched
