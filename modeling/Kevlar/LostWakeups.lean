import Kevlar.WaitQueueEntries

/-!
# No wake-up is lost

A sleeper enters the queue before it checks its condition for the last time. A process
that waits in `switch` of a sleep and is blocked is therefore in the queue, or some
wake-up has taken it and is about to resume it. Once the condition stays true and a
`wake_all` has been called and has returned, it is not in the queue any more without a
resume under way. Between its entry and the last check a sleeper is blocked while it runs: if
the timer interrupt takes the processor from it there, it is not put back into a run queue, and
a `wake_all` before its entry was its last chance.
-/
namespace Kevlar.Sched
open Instr Function List Concurrent

/-! ## What is on the stacks -/

/-- A sleep on the queue of a futex waits for its word. -/
def Fits (q : QueueId) (k : Condition) : Prop :=
  ∀ addr, q = .futex addr → ∃ val, k = .word addr val

/-- What is left of a sleep, at each of its steps. -/
inductive SleepCode : List Instr → Prop
  | futexWait (addr : ℕ) (val : BitVec 32) : SleepCode [.own (.futexWait addr val)]
  | fastCheck {q k} : Fits q k → SleepCode [.own (.fastCheck q k)]
  | pendingCheck {q k} : Fits q k → SleepCode [.own (.pendingCheck q k)]
  | enter {q k} : Fits q k → SleepCode [.own (.enter q k)]
  | recheck {q k} : Fits q k → SleepCode [.own (.recheck q k)]
  | yield {q k} : Fits q k → SleepCode [.own .yield, .own (.woken q k)]
  | woken {q k} : Fits q k → SleepCode [.own (.woken q k)]
  | signalled {q k} : Fits q k → SleepCode [.own (.signalled q k)]
  | ready {q r} : (∀ addr, q = .futex addr → r = .ok 0) →
      SleepCode [.own (.removeSelf q), .own (.setState .runnable), .own (.ret r)]
  | leaving (r : Except Errno ℕ) : SleepCode [.own (.setState .runnable), .own (.ret r)]
  | interrupted (q : QueueId) : SleepCode [.own (.removeSelf q), .own (.ret (.error .eintr))]

/-- The instructions of a sleep, the last of which makes the process runnable again. -/
def Instr.ofSleep : Instr → Bool
  | .own (.setState .runnable) => true
  | i => i.sleeps

/-- The state of another process is only ever set to an exit, or restored to one. -/
def Instr.exits : Instr → Bool
  | .any (.setState _ st) => st.exited
  | .any (.restore _ st) => st.exited
  | _ => true

/-- A process inside a sleep executes nothing else. -/
structure StacksOk (cfg : KConfig) : Prop where
  code : ∀ a, (∃ i ∈ cfg.stack a, i.ofSleep = true) → SleepCode (cfg.stack a)
  exits : ∀ a, ∀ i ∈ cfg.stack a, i.exits = true

variable {i : Instr} {s s' : Kernel} {a : Agent} {x : Choice} {more : List Instr} {cfg : KConfig}
  {early : Bool} {q : QueueId}

lemma exits_body {a : Agent} {c : Call} {is : List Instr} (h : c.body a = some is) :
    ∀ i ∈ is, i.exits = true := by
  intro i hi
  cases starts_body h i hi <;> rfl

lemma exits_resumed (p : Pid) (why : Cause) (old : ProcessState) (interrupts : Bool) :
    ∀ i ∈ (resumed p why old interrupts).map Instr.any, i.exits = true := by
  intro i hi
  rw [resumed] at hi
  split_ifs at hi with hexited
  · simp only [map_cons, map_nil, mem_singleton] at hi
    rw [hi]
    exact hexited
  · cases hi
  all_goals
    simp only [map_append, map_cons, map_nil, nil_append, mem_append,
      mem_singleton] at hi
    rcases hi with rfl | rfl <;> rfl

lemma exits_exec (h : exec s a i x = some (s', more)) : ∀ j ∈ more, j.exits = true := by
  obtain ⟨j, l, rfl, rfl, hdoes⟩ | ⟨p, j, -, rfl, -, hdoes⟩ := exec_cases h
  · cases hdoes with
    | resume why interrupts _ => exact exits_resumed _ why _ interrupts
    | take q max =>
      intro i hi
      rw [map_map] at hi
      obtain ⟨p, -, rfl⟩ := mem_map.mp hi
      rfl
    | decides _ hdecides =>
      rw [← all_eq_true]
      cases hdecides <;> rfl
    | setState | dequeue | restore | enqueue | setRunnable | requeue =>
      rw [← all_eq_true]
      rfl
  · rw [← all_eq_true]
    cases hdoes with
    | sleep hstep | futex _ hstep => cases hstep <;> rfl
    | setState | exitKept | exitState | yield | removeSelf | ret | enter => rfl

/-- The end of a sleep for a word of memory. -/
lemma sleepEnd_word {val : BitVec 32}
    (h : sleepEnd (s.verdict p (.word addr val) answer) = some r) :
    r = .ok 0 := by
  rw [Kernel.verdict] at h
  split_ifs at h
  · cases h
  · exact (Option.some.inj h).symm

lemma Fits.sleepEnd {k : Condition} (hfits : Fits q k)
    (h : sleepEnd (s.verdict p k answer) = some r) :
    ∀ addr, q = .futex addr → r = .ok 0 := by
  intro addr hq
  obtain ⟨val, rfl⟩ := hfits addr hq
  exact sleepEnd_word h

/-- A step of a sleep leads to the code of a sleep, or ends it. -/
lemma SleepCode.exec (h : SleepCode (i :: rest))
    (hexec : exec s a i x = some (s', more)) :
    SleepCode (more ++ rest) ∨ ∀ j ∈ more ++ rest, j.ofSleep = false := by
  obtain ⟨j, l, rfl, -⟩ | ⟨p', j, -, rfl, -, hdoes⟩ := exec_cases hexec
  · cases h
  have hends : ∀ {l : List Instr}, l.all (fun j => !j.ofSleep) = true →
      ∀ j ∈ l, j.ofSleep = false := by simp
  cases hdoes with
  | futex _ hstep => cases hstep <;> cases h
  | exitKept | exitState | ret => cases h
  | setState => cases h; exact .inr (hends rfl)
  | enter =>
    cases h with
    | enter hfits => exact .inl (.recheck hfits)
  | yield =>
    cases h with
    | yield hfits => exact .inl (.woken hfits)
  | removeSelf q =>
    cases h with
    | ready => exact .inl (.leaving _)
    | interrupted => exact .inr (hends rfl)
  | sleep hstep =>
    cases hstep with
    | fastEnd | interrupted | wokenEnd | futexFails => cases h; exact .inr (hends rfl)
    | fastGo =>
      cases h with
      | fastCheck hfits => exact .inl (.pendingCheck hfits)
    | uninterrupted =>
      cases h with
      | pendingCheck hfits => exact .inl (.enter hfits)
    | recheckEnd hend =>
      cases h with
      | recheck hfits => exact .inl (.ready (hfits.sleepEnd hend))
    | recheckGo =>
      cases h with
      | recheck hfits => exact .inl (.yield hfits)
    | wokenGo =>
      cases h with
      | woken hfits => exact .inl (.signalled hfits)
    | signalled => cases h; exact .inl (.interrupted _)
    | again =>
      cases h with
      | signalled hfits => exact .inl (.pendingCheck hfits)
    | @futexWait addr val =>
      cases h
      refine .inl (.fastCheck fun addr' haddr => ?_)
      cases haddr
      exact ⟨val, rfl⟩

/-- What belongs to a sleep comes from one. -/
lemma ofSleep_exec {j : Instr} (h : exec s a i x = some (s', more)) (hj : j ∈ more)
    (hsleep : j.ofSleep = true) : i.ofSleep = true := by
  have hany : more.any ofSleep = true := any_eq_true.mpr ⟨j, hj, hsleep⟩
  obtain ⟨j', l, -, rfl, -⟩ | ⟨p, j', -, rfl, -, hdoes⟩ := exec_cases h
  · obtain ⟨j', -, rfl⟩ := mem_map.mp hj
    cases hsleep
  · cases hdoes with
    | sleep hstep => cases hstep <;> rfl
    | futex _ hstep => cases hstep <;> cases hany
    | enter => rfl
    | setState | exitKept | exitState | yield | removeSelf | ret => cases hj

lemma ofSleep_before (hexec : exec s a i x = some (s', more))
    (h : ∃ j ∈ more ++ rest, j.ofSleep = true) : ∃ j ∈ i :: rest, j.ofSleep = true := by
  obtain ⟨j, hj, hsleep⟩ := h
  rcases mem_append.mp hj with hj | hj
  · exact ⟨i, mem_cons_self, ofSleep_exec hexec hj hsleep⟩
  · exact ⟨j, mem_cons_of_mem i hj, hsleep⟩

lemma sleepCode_body {a : Agent} {c : Call} {is : List Instr} (h : c.body a = some is)
    (hsleep : ∃ i ∈ is, i.ofSleep = true) : SleepCode is := by
  obtain ⟨i, hi, hs⟩ := hsleep
  have hnamed : ∀ {n : ℕ}, Fits (.named n) .any := fun addr haddr => nomatch haddr
  obtain hzero | ⟨j, rfl, -, -⟩ := body_sleeps h
  · have hno := countP_eq_zero.mp hzero i hi
    cases starts_body h i hi <;> first | exact absurd rfl hno | cases hs
  · cases starts_body h j mem_cons_self with
    | fastCheck => exact .fastCheck hnamed
    | pendingCheck => exact .pendingCheck hnamed
    | futexWait => exact .futexWait _ _
    | _ =>
      rw [mem_singleton.mp hi] at hs
      cases hs

lemma stacksOk_of_runs {ok : KConfig → KMove → Prop} {cfg' : KConfig}
    (h : kernelMachine.Runs ok cfg cfg') (hok : StacksOk cfg) : StacksOk cfg' := by
  have hboth := Machine.Runs.stacks (fun _ (stack : List Instr) =>
    ((∃ i ∈ stack, i.ofSleep = true) → SleepCode stack) ∧ ∀ i ∈ stack, i.exits = true)
    ?_ ?_ h fun a => ⟨hok.code a, hok.exits a⟩
  · exact ⟨fun a => (hboth a).1, fun a => (hboth a).2⟩
  · exact fun a c is hbody => ⟨sleepCode_body hbody, exits_body hbody⟩
  · intro s a x i rest s' more hold hexec
    refine ⟨fun hsleep => ?_, fun j hj => ?_⟩
    · refine ((hold.1 (ofSleep_before hexec hsleep)).exec hexec).resolve_right fun hnone => ?_
      obtain ⟨j, hj, hj'⟩ := hsleep
      rw [hnone j hj] at hj'
      cases hj'
    · exact (mem_append.mp hj).elim (exits_exec hexec j)
        fun hj => hold.2 j (mem_cons_of_mem _ hj)

/-- A process is put to sleep by itself only. -/
lemma asleep_of_exec {p : Pid} {st : ProcessState} (h : exec s a i x = some (s', more))
    (hexits : i.exits = true) (hst : st.asleep = true) (hstate : s'.state p = st) :
    (s.state p = st ∧ ∀ why, i ≠ .any (.resume p why)) ∨
      a = .proc p ∧ (i = .own (.setState st) ∨
        st = .blockedSignalable ∧ ∃ q k, i = .own (.enter q k)) := by
  have hset : ∀ {q : Pid} {st' : ProcessState}, s'.state = update s.state q st' →
      p ≠ q ∧ s.state p = st ∨ p = q ∧ st' = st := by
    intro q st' hupdate
    rw [hupdate] at hstate
    by_cases hp : p = q
    · subst hp
      exact .inr ⟨rfl, by simpa using hstate⟩
    · exact .inl ⟨hp, by simpa [update_of_ne hp] using hstate⟩
  have hexited : st.exited ≠ true := by
    cases st <;> first | exact Bool.false_ne_true | cases hst
  obtain ⟨j, l, rfl, rfl, hdoes⟩ | ⟨q, j, rfl, rfl, -, hdoes⟩ := exec_cases h
  · left
    cases hdoes with
    | decides hsame hdecides =>
      rw [hsame.state] at hstate
      refine ⟨hstate, ?_⟩
      rintro why ⟨⟩
      cases hdecides
    | setState q st' | restore q st' =>
      rcases hset rfl with ⟨-, hold⟩ | ⟨-, rfl⟩
      · exact ⟨hold, fun _ => nofun⟩
      · exact absurd hexits hexited
    | resume why interrupts _ =>
      rcases hset rfl with ⟨hne, hold⟩ | ⟨-, rfl⟩
      · refine ⟨hold, ?_⟩
        rintro why' ⟨⟩
        exact hne rfl
      · cases hst
    | setRunnable _ =>
      rcases hset rfl with ⟨-, hold⟩ | ⟨-, rfl⟩
      · exact ⟨hold, fun _ => nofun⟩
      · cases hst
    | dequeue | enqueue | take | requeue => exact ⟨hstate, fun _ => nofun⟩
  · cases hdoes with
    | sleep | exitKept | yield | removeSelf | ret => exact .inl ⟨hstate, fun _ => nofun⟩
    | futex hsame _ =>
      rw [hsame.state] at hstate
      exact .inl ⟨hstate, fun _ => nofun⟩
    | setState st' =>
      rcases hset rfl with ⟨-, hold⟩ | ⟨rfl, rfl⟩
      · exact .inl ⟨hold, fun _ => nofun⟩
      · exact .inr ⟨rfl, .inl rfl⟩
    | exitState =>
      rcases hset rfl with ⟨-, hold⟩ | ⟨-, rfl⟩
      · exact .inl ⟨hold, fun _ => nofun⟩
      · exact absurd rfl hexited
    | enter q k =>
      rcases hset rfl with ⟨-, hold⟩ | ⟨rfl, rfl⟩
      · exact .inl ⟨hold, fun _ => nofun⟩
      · exact .inr ⟨rfl, .inr ⟨rfl, q, k, rfl⟩⟩

/-! ## A blocked sleeper is in the queue or about to be resumed -/

/-- Some code is about to resume the process. -/
def Owed (cfg : KConfig) (p : Pid) : Prop := ∃ a why, Instr.any (.resume p why) ∈ cfg.stack a

/-- The places of a sleep up to the end of `switch`: from the entry, or from `switch` on. -/
def Instr.dozes (early : Bool) (q : QueueId) : Instr → Bool
  | .own (.recheck q' _) => early && decide (q' = q)
  | .own (.woken q' _) => decide (q' = q)
  | _ => false

def Dozes (early : Bool) (q : QueueId) (p : Pid) (cfg : KConfig) : Prop :=
  ∃ i ∈ cfg.stack (.proc p), i.dozes early q = true

/-- A process that waits is runnable, or was made to exit, or is blocked and about to be
resumed; if `early`, it may instead still be in the queue. -/
def Kept (early : Bool) (q : QueueId) (p : Pid) (cfg : KConfig) : Prop :=
  Dozes early q p cfg →
    cfg.shared.state p = .runnable ∨ (cfg.shared.state p).exited = true ∨
      cfg.shared.state p = .blockedSignalable ∧
        (early = true ∧ p ∈ (cfg.shared.waitQueues q).queue ∨ Owed cfg p)

/-- No entry of the queue is moved to another one. -/
def NotMoved (q : QueueId) (cfg : KConfig) : KMove → Prop
  | .act a _ => ∀ q' max rest, cfg.stack a ≠ .any (.requeue q q' max) :: rest
  | _ => True

/-- The instructions that evaluate the condition of a sleep. -/
def Instr.evaluates : Instr → Option (QueueId × Condition)
  | .own (.fastCheck q k) => some (q, k)
  | .own (.recheck q k) => some (q, k)
  | .own (.woken q k) => some (q, k)
  | _ => none

/-- The condition of the process is true, or fails, whenever it is evaluated. -/
def CondHolds (q : QueueId) (p : Pid) (cfg : KConfig) : KMove → Prop
  | .act (.proc p') x => p' = p → ∀ i rest k, cfg.stack (.proc p) = i :: rest →
      i.evaluates = some (q, k) → sleepEnd (cfg.shared.verdict p k x.answer) ≠ none
  | _ => True

lemma Instr.waitsOn_of_dozes (h : i.dozes early q = true) : i.waitsOn = some q := by
  cases i with
  | any i => cases h
  | own i =>
    cases i with
    | recheck q' k =>
      obtain rfl : q' = q := of_decide_eq_true (Bool.and_eq_true_iff.mp h).2
      rfl
    | woken q' k =>
      obtain rfl : q' = q := of_decide_eq_true h
      rfl
    | _ => cases h

lemma Instr.sleeps_of_dozes (h : i.dozes early q = true) : i.sleeps = true :=
  sleeps_of_waitsOn (waitsOn_of_dozes h)

lemma Instr.ofSleep_of_dozes (h : i.dozes early q = true) : i.ofSleep = true := by
  unfold dozes at h
  split at h <;> first | rfl | cases h

/-- A call does not start in the middle of a sleep. -/
lemma body_dozes {c : Call} {is : List Instr} (h : c.body a = some is) :
    ∀ i ∈ is, i.dozes early q ≠ true := by
  intro i hi hdozes
  obtain hzero | ⟨j, rfl, -, hj⟩ := body_sleeps h
  · exact countP_eq_zero.mp hzero i hi (sleeps_of_dozes hdozes)
  · rw [mem_singleton.mp hi] at hdozes
    rw [waitsOn_of_dozes hdozes] at hj
    cases hj

section Step

variable {cfg : KConfig} {a : Agent} {i : Instr} {rest more : List Instr} {s' : Kernel} {p : Pid}
  {q : QueueId} {early : Bool}

/-- A resume that is under way stays so until it is executed. -/
lemma Owed.step (h : Owed cfg p) (hstack : cfg.stack a = i :: rest)
    (hi : ∀ why, i ≠ .any (.resume p why)) :
    Owed ⟨s', update cfg.stack a (more ++ rest)⟩ p := by
  obtain ⟨b, why, hb⟩ := h
  refine ⟨b, why, ?_⟩
  dsimp only
  by_cases hba : b = a
  · subst hba
    rw [hstack, mem_cons] at hb
    rw [update_self]
    exact mem_append_right _ (hb.resolve_left fun heq => hi why heq.symm)
  · rwa [update_of_ne hba]

/-- A process that waits after a step did so before, unless the step is its entry. -/
lemma Dozes.before (h : Dozes early q p ⟨s', update cfg.stack a (more ++ rest)⟩)
    (hstack : cfg.stack a = i :: rest)
    (hmore : .proc p = a → ∀ j ∈ more, j.dozes early q = true → i.dozes early q = true) :
    Dozes early q p cfg := by
  obtain ⟨j, hj, hdozes⟩ := h
  dsimp only at hj
  by_cases hpa : Agent.proc p = a
  · subst hpa
    rw [update_self, mem_append] at hj
    rcases hj with hj | hj
    · exact ⟨i, by rw [hstack]; exact mem_cons_self, hmore rfl j hj hdozes⟩
    · exact ⟨j, by rw [hstack]; exact mem_cons_of_mem _ hj, hdozes⟩
  · rw [update_of_ne hpa] at hj
    exact ⟨j, hj, hdozes⟩

/-- What `Kept` says after a step that neither changes the state of the process nor lets
go of its entry without a resume. -/
lemma Kept.same {cfg' : KConfig} (h : Kept early q p cfg) (hdozes : Dozes early q p cfg)
    (hstate : cfg'.shared.state p = cfg.shared.state p)
    (hqueue : p ∈ (cfg.shared.waitQueues q).queue →
      p ∈ (cfg'.shared.waitQueues q).queue ∨ Owed cfg' p)
    (howed : Owed cfg p → Owed cfg' p) :
    cfg'.shared.state p = .runnable ∨ (cfg'.shared.state p).exited = true ∨
      cfg'.shared.state p = .blockedSignalable ∧
        (early = true ∧ p ∈ (cfg'.shared.waitQueues q).queue ∨ Owed cfg' p) := by
  rw [hstate]
  refine (h hdozes).imp_right (Or.imp_right fun hblocked => ⟨hblocked.1, ?_⟩)
  rcases hblocked.2 with ⟨hearly, hin⟩ | how
  · exact (hqueue hin).imp_left fun hin' => ⟨hearly, hin'⟩
  · exact .inr (howed how)

/-- An instruction that any code may execute. -/
lemma Kept.any {j : Act} {l : List Act} (h : Kept early q p cfg) (hstacks : StacksOk cfg)
    (hmoved : ∀ q' max, j ≠ .requeue q q' max) (hstack : cfg.stack a = .any j :: rest)
    (hdoes : Act.Does cfg.shared a j s' l) :
    Kept early q p ⟨s', update cfg.stack a (l.map .any ++ rest)⟩ := by
  intro hafter
  have hdozes : Dozes early q p cfg := hafter.before hstack fun _ i hi hi' => by
    obtain ⟨k, -, rfl⟩ := mem_map.mp hi
    cases hi'
  have hexits := hstacks.exits a (.any j) (by rw [hstack]; exact mem_cons_self)
  have howed : (∀ why, j ≠ .resume p why) → Owed cfg p →
      Owed ⟨s', update cfg.stack a (l.map .any ++ rest)⟩ p := by
    intro hj how
    exact how.step hstack fun why heq => hj why (any.inj heq)
  cases hdoes with
  | decides hsame hdecides =>
    refine h.same hdozes (congrFun hsame.state p) (fun hin => .inl ?_) (howed ?_)
    · rwa [hsame.waitQueues]
    · rintro why rfl
      cases hdecides
  | setState p₀ st =>
    by_cases hp : p = p₀
    · subst hp
      refine .inr (.inl ?_)
      simpa [Kernel.setState, exits] using hexits
    · exact h.same hdozes (update_of_ne hp _ _) .inl (howed fun _ => nofun)
  | dequeue p₀ | enqueue p₀ front => exact h.same hdozes rfl .inl (howed fun _ => nofun)
  | @resume p₀ why interrupts hborn =>
    by_cases hp : p = p₀
    · subst hp
      exact .inl (update_self ..)
    · refine h.same hdozes (update_of_ne hp _ _) .inl (howed ?_)
      rintro why' ⟨⟩
      exact hp rfl
  | restore p₀ st =>
    by_cases hp : p = p₀
    · subst hp
      refine .inr (.inl ?_)
      simpa [Kernel.storeState, exits] using hexits
    · exact h.same hdozes (update_of_ne hp _ _) .inl (howed fun _ => nofun)
  | @setRunnable p₀ _ =>
    by_cases hp : p = p₀
    · subst hp
      exact .inl (update_self ..)
    · exact h.same hdozes (update_of_ne hp _ _) .inl (howed fun _ => nofun)
  | take q₀ max =>
    refine h.same hdozes rfl (fun hin => ?_) (howed fun _ => nofun)
    rw [takeFrom_waitQueues]
    split_ifs with hq
    · subst hq
      rw [← firstOf_append_drop cfg.shared q max, mem_append] at hin
      refine hin.symm.imp_right fun hfirst => ⟨a, .wake, ?_⟩
      simp [hfirst]
    · exact .inl hin
  | @requeue q₀ q' max hne =>
    refine h.same hdozes rfl (fun hin => .inl ?_) (howed fun _ => nofun)
    have hq : q ≠ q₀ := fun hq => hmoved q' max (hq ▸ rfl)
    rw [moveTo_waitQueues]
    split_ifs with hq'
    · subst hq'
      exact mem_append_left _ hin
    · exact hin

/-- An instruction of a process about itself. -/
lemma Kept.own {p₀ : Pid} {x : Choice} {j : OwnAct} (h : Kept early q p cfg)
    (hstacks : StacksOk cfg) (hone : OneSleep cfg)
    (hcond : early = true ∨ CondHolds q p cfg (.act (.proc p₀) x))
    (hstack : cfg.stack (.proc p₀) = .own j :: rest)
    (hdoes : OwnAct.Does cfg.shared p₀ x j s' more) :
    Kept early q p ⟨s', update cfg.stack (.proc p₀) (more ++ rest)⟩ := by
  intro hafter
  have howed : Owed cfg p → Owed ⟨s', update cfg.stack (.proc p₀) (more ++ rest)⟩ p :=
    fun how => how.step hstack fun _ => nofun
  -- a sleep has at most one place, so that the rest of the stack has none
  have hlast : sleeps (.own j) = true → ∀ i ∈ rest, i.dozes early q ≠ true := by
    intro hj i hi hdozes
    have hcount := hone (.proc p₀)
    have hpos : 0 < rest.countP sleeps := countP_pos_iff.mpr ⟨i, hi, sleeps_of_dozes hdozes⟩
    rw [hstack, countP_cons, if_pos hj] at hcount
    omega
  have hbefore : (p = p₀ → ∀ i ∈ more, i.dozes early q = true →
      dozes early q (.own j) = true) → Dozes early q p cfg :=
    fun hmore => hafter.before hstack fun heq => hmore (Agent.proc.inj heq)
  cases hdoes with
  | sleep hstep =>
    refine h.same (hbefore fun hp => ?_) rfl .inl howed
    subst hp
    cases hstep with
    | @recheckGo q' k hnone =>
      rcases hcond with rfl | hcond
      · simp [dozes]
      · intro i hi hi'
        -- the last check would have seen that the condition is true
        simp only [mem_cons, not_mem_nil, or_false] at hi
        rcases hi with rfl | rfl
        · cases hi'
        · obtain rfl : q' = q := of_decide_eq_true hi'
          exact absurd hnone (hcond rfl _ _ k hstack rfl)
    | _ => simp [dozes]
  | futex hsame hstep =>
    refine h.same (hbefore fun _ => ?_) (congrFun hsame.state p) (fun hin => .inl ?_) howed
    · cases hstep <;> simp [dozes]
    · rwa [hsame.waitQueues]
  | setState st =>
    have hdozes := hbefore fun _ i hi => by cases hi
    by_cases hp : p = p₀
    · subst hp
      obtain ⟨i, hi, hi'⟩ := hdozes
      have hcode := hstacks.code (.proc p) ⟨i, hi, ofSleep_of_dozes hi'⟩
      rw [hstack] at hcode
      cases hcode
      exact .inl (update_self ..)
    · exact h.same hdozes (update_of_ne hp _ _) .inl howed
  | exitKept status | yield | ret r =>
    exact h.same (hbefore fun _ i hi => by cases hi) rfl .inl howed
  | exitState status =>
    by_cases hp : p = p₀
    · subst hp
      refine .inr (.inl ?_)
      simp [Kernel.setState, ProcessState.exited]
    · exact h.same (hbefore fun _ i hi => by cases hi) (update_of_ne hp _ _) .inl howed
  | enter q₀ k =>
    by_cases hp : p = p₀
    · subst hp
      obtain ⟨i, hi, hi'⟩ := hafter
      simp only [update_self, cons_append, nil_append, mem_cons] at hi
      rcases hi with rfl | hi
      · obtain ⟨hearly, hq⟩ := Bool.and_eq_true_iff.mp hi'
        obtain rfl : q₀ = q := of_decide_eq_true hq
        refine .inr (.inr ⟨update_self .., .inl ⟨hearly, ?_⟩⟩)
        simp [enterQueue_waitQueues]
      · exact absurd hi' (hlast rfl i hi)
    · have hdozes := hbefore fun heq => absurd heq hp
      refine h.same hdozes (update_of_ne hp _ _) (fun hin => .inl ?_) howed
      rw [enterQueue_waitQueues]
      split_ifs with hq
      · subst hq
        exact mem_append_left _ hin
      · exact hin
  | removeSelf q₀ =>
    have hdozes := hbefore fun _ i hi => by cases hi
    by_cases hp : p = p₀
    · subst hp
      obtain ⟨i, hi, hi'⟩ := hdozes
      rw [hstack, mem_cons] at hi
      rcases hi with rfl | hi
      · cases hi'
      · exact absurd hi' (hlast rfl i hi)
    · refine h.same hdozes rfl (fun hin => .inl ?_) howed
      rw [removeFrom_waitQueues]
      split_ifs with hq
      · subst hq
        exact mem_filter.mpr ⟨hin, decide_eq_true hp⟩
      · exact hin

/-- Every instruction. -/
lemma Kept.act {x : Choice} (h : Kept early q p cfg) (hstacks : StacksOk cfg)
    (hone : OneSleep cfg) (hmoved : NotMoved q cfg (.act a x))
    (hcond : early = true ∨ CondHolds q p cfg (.act a x)) (hstack : cfg.stack a = i :: rest)
    (hexec : exec cfg.shared a i x = some (s', more)) :
    Kept early q p ⟨s', update cfg.stack a (more ++ rest)⟩ := by
  obtain ⟨j, l, rfl, rfl, hdoes⟩ | ⟨p₀, j, rfl, rfl, -, hdoes⟩ := exec_cases hexec
  · refine h.any hstacks ?_ hstack hdoes
    rintro q' max rfl
    exact hmoved q' max rest hstack
  · exact h.own hstacks hone hcond hstack hdoes

lemma Kept.call {c : Call} {is : List Instr} (h : Kept early q p cfg)
    (hempty : cfg.stack a = []) (hbody : c.body a = some is) :
    Kept early q p { cfg with stack := update cfg.stack a is } := by
  intro hafter
  have hdozes : Dozes early q p cfg := by
    obtain ⟨i, hi, hi'⟩ := hafter
    dsimp only at hi
    by_cases ha : Agent.proc p = a
    · subst ha
      rw [update_self] at hi
      exact absurd hi' (body_dozes hbody i hi)
    · rw [update_of_ne ha] at hi
      exact ⟨i, hi, hi'⟩
  refine h.same hdozes rfl .inl ?_
  rintro ⟨b, why, hb⟩
  refine ⟨b, why, ?_⟩
  have hba : b ≠ a := by
    rintro rfl
    rw [hempty] at hb
    cases hb
  dsimp only
  rwa [update_of_ne hba]

lemma Kept.world {e : Event} (h : Kept early q p cfg) (hworld : world cfg.shared e = some s') :
    Kept early q p { cfg with shared := s' } := by
  intro hafter
  obtain ⟨hq, -, hstate, -⟩ := world_keeps hworld
  rcases hstate p with hsame | ⟨-, hrunnable⟩
  · refine h.same hafter hsame (fun hin => .inl ?_) id
    rwa [hq]
  · exact .inl hrunnable

/-- If the process is not in the queue, only a resume under way is left. -/
lemma Kept.late (h : Kept true q p cfg) (hnot : p ∉ (cfg.shared.waitQueues q).queue) :
    Kept false q p cfg := by
  rintro ⟨i, hi, hi'⟩
  have hdozes : Dozes true q p cfg := by
    refine ⟨i, hi, ?_⟩
    cases i with
    | any i => cases hi'
    | own i => cases i <;> first | exact hi' | cases hi'
  refine (h hdozes).imp_right (Or.imp_right fun hblocked => ⟨hblocked.1, ?_⟩)
  exact .inr (hblocked.2.resolve_left fun hin => hnot hin.2)

end Step

/-! ## Before its own `switch` a sleeper runs -/

/-- A processor executes the code of the process. -/
def Running (s : Kernel) (p : Pid) : Prop := ∃ c, s.cpus c = ⟨some p, .run⟩

/-- The timer interrupt does not take the processor from the process while it is blocked,
which it is from its entry into the queue on. -/
def Unpreempted (p : Pid) (cfg : KConfig) : KMove → Prop
  | .world (.preempt c) =>
    (cfg.shared.cpus c).current = some p → cfg.shared.state p ≠ .blockedSignalable
  | _ => True

/-- The places of a sleep from the entry into the queue to the end of the last check. -/
def Instr.checks : Instr → Bool
  | .own (.recheck ..) => true
  | .own (.setState .runnable) => true
  | _ => false

lemma Instr.ofSleep_of_checks (h : i.checks = true) : i.ofSleep = true := by
  unfold checks at h
  split at h <;> first | rfl | cases h

lemma checks_body {c : Call} {is : List Instr} (h : c.body a = some is) :
    ∀ i ∈ is, i.checks = false := by
  intro i hi
  cases starts_body h i hi <;> rfl

lemma Running.exec {p : Pid} (h : Running s p) (hexec : exec s a i x = some (s', more))
    (hstays : ¬(a = .proc p ∧ i = .own .yield)) : Running s' p := by
  obtain ⟨c, hc⟩ := h
  refine ⟨c, ?_⟩
  rcases exec_cpus hexec with hcpus | ⟨q, rfl, rfl, hq, hcpus⟩
  · rwa [hcpus]
  · have hne : c ≠ x.cpu := by
      rintro rfl
      rw [hc] at hq
      cases hq
      exact hstays ⟨rfl, rfl⟩
    rwa [hcpus, update_of_ne hne]

/-- At the last check a process is not stopped, and runs if it is blocked. -/
def Checked (p : Pid) (cfg : KConfig) : Prop :=
  (∃ i ∈ cfg.stack (.proc p), i.checks = true) → ∀ st, st.asleep = true →
    cfg.shared.state p = st → st = .blockedSignalable ∧ Running cfg.shared p

section Checked

variable {p : Pid} {rest : List Instr}

/-- A process that is at the last check after a step of its own has just entered the queue, or
was there before and has not changed its state. -/
lemma checks_before (hcode : SleepCode (i :: rest)) (hexec : exec s a i x = some (s', more))
    (h : ∃ j ∈ more ++ rest, j.checks = true) :
    (∃ q k, i = .own (.enter q k)) ∨ (∃ j ∈ i :: rest, j.checks = true) ∧
      ((∃ q k, i = .own (.recheck q k)) ∨ ∃ q, i = .own (.removeSelf q)) := by
  have hany : (more ++ rest).any checks = true := any_eq_true.mpr h
  obtain ⟨j, l, rfl, -⟩ | ⟨p', j, -, rfl, -, hdoes⟩ := exec_cases hexec
  · cases hcode
  cases hcode with
  | enter => exact .inl ⟨_, _, rfl⟩
  | recheck => exact .inr ⟨⟨_, mem_cons_self, rfl⟩, .inl ⟨_, _, rfl⟩⟩
  | ready => exact .inr ⟨⟨.own (.setState .runnable), by simp, rfl⟩, .inr ⟨_, rfl⟩⟩
  | _ =>
    cases hdoes with
    | sleep hstep | futex _ hstep => cases hstep <;> cases hany
    | _ => cases hany

lemma Checked.act (h : Checked p cfg) (hstacks : StacksOk cfg) (hstack : cfg.stack a = i :: rest)
    (hexec : exec cfg.shared a i x = some (s', more)) :
    Checked p ⟨s', update cfg.stack a (more ++ rest)⟩ := by
  intro hchecks st hst hstate
  dsimp only at hchecks hstate ⊢
  have hexits := hstacks.exits a i (by rw [hstack]; exact mem_cons_self)
  have hasleep := asleep_of_exec hexec hexits hst hstate
  by_cases ha : Agent.proc p = a
  · subst ha
    rw [update_self] at hchecks
    have hcode := hstacks.code (.proc p)
    rw [hstack] at hcode
    have hsleep := hcode (ofSleep_before hexec (hchecks.imp fun _ hj =>
      ⟨hj.1, ofSleep_of_checks hj.2⟩))
    rcases checks_before hsleep hexec hchecks with ⟨q, k, rfl⟩ | ⟨hbefore, hi⟩
    · have hruns : Running cfg.shared p := ⟨x.cpu, cpu_of_exec_own hexec⟩
      refine ⟨?_, hruns.exec hexec fun hyield => by cases hyield.2⟩
      obtain ⟨j, l, hj, -⟩ | ⟨p', j, hp, hj, -, hdoes⟩ := exec_cases hexec
      · cases hj
      · cases hp
        cases hj
        cases hdoes with
        | sleep hstep | futex _ hstep => cases hstep
        | enter =>
          rw [← hstate]
          exact update_self ..
    · rcases hasleep with ⟨hold, -⟩ | ⟨-, hown⟩
      · rw [← hstack] at hbefore
        obtain ⟨hblocked, hruns⟩ := h hbefore st hst hold
        refine ⟨hblocked, hruns.exec hexec ?_⟩
        rintro ⟨-, rfl⟩
        rcases hi with ⟨q, k, hi⟩ | ⟨q, hi⟩ <;> cases hi
      · rcases hi with ⟨q, k, rfl⟩ | ⟨q, rfl⟩ <;>
          rcases hown with hown | ⟨-, q', k', hown⟩ <;> cases hown
  · rw [update_of_ne ha] at hchecks
    rcases hasleep with ⟨hold, -⟩ | ⟨rfl, -⟩
    · obtain ⟨hblocked, hruns⟩ := h hchecks st hst hold
      exact ⟨hblocked, hruns.exec hexec fun hyield => ha hyield.1.symm⟩
    · exact absurd rfl ha

lemma Checked.call {c : Call} {is : List Instr} (h : Checked p cfg)
    (hbody : c.body a = some is) : Checked p { cfg with stack := update cfg.stack a is } := by
  rintro ⟨i, hi, hchecks⟩
  dsimp only at hi ⊢
  by_cases ha : Agent.proc p = a
  · subst ha
    rw [update_self] at hi
    rw [@checks_body (.proc p) c is hbody i hi] at hchecks
    cases hchecks
  · rw [update_of_ne ha] at hi
    exact h ⟨i, hi, hchecks⟩

lemma Checked.world {e : Event} (h : Checked p cfg) (hok : Unpreempted p cfg (.world e))
    (hworld : world cfg.shared e = some s') : Checked p { cfg with shared := s' } := by
  intro hchecks st hst hstate
  have hold : cfg.shared.state p = st := by
    rcases (world_keeps hworld).2.2.1 p with heq | ⟨-, heq⟩
    · exact heq.symm.trans hstate
    · rw [← hstate, heq] at hst
      cases hst
  obtain ⟨rfl, c, hc⟩ := h hchecks st hst hold
  refine ⟨rfl, c, ?_⟩
  cases e with
  | switchStep c' =>
    have hne : c ≠ c' := by
      rintro rfl
      simp [Sched.world, switchStep, hc] at hworld
    have hswitch := switches hworld
    generalize (cfg.shared.cpus c').stage = stage at hswitch
    cases hswitch <;> simpa [Kernel.setStage, update_of_ne hne] using hc
  | preempt c' =>
    have hne : c ≠ c' := by
      rintro rfl
      exact hok (by rw [hc]) hold
    rw [Sched.world] at hworld
    split at hworld
    · cases hworld
      simpa [Kernel.setStage, update_of_ne hne] using hc
    · cases hworld
  | spawn q parent space =>
    rw [Sched.world] at hworld
    split at hworld
    · cases hworld
    · cases hworld
      exact hc
  | store | setMask | setAction | takeSignals =>
    cases hworld
    exact hc

end Checked

/-! ## Runs -/

/-- What holds of stacks and queues in every run. -/
structure Orderly (cfg : KConfig) : Prop where
  fine : StacksOk cfg
  one : OneSleep cfg
  counted : Counted cfg.shared

lemma Boot.orderly (h : Boot cfg) : Orderly cfg where
  fine := by
    constructor
    · rintro p ⟨i, hi, -⟩
      rw [h.stack] at hi
      cases hi
    · intro a i hi
      rw [h.stack] at hi
      cases hi
  one := by
    intro a
    rw [h.stack]
    exact Nat.zero_le 1
  counted := by
    intro q
    rw [h.waitQueues]
    rfl

lemma Orderly.runs {ok : KConfig → KMove → Prop} {cfg' : KConfig}
    (h : kernelMachine.Runs ok cfg cfg') (hord : Orderly cfg) : Orderly cfg' :=
  ⟨stacksOk_of_runs h hord.fine, oneSleep_of_runs h hord.one, counted_of_runs h hord.counted⟩

/-- The entries of the queue stay there, and the process keeps its processor while it is
blocked. -/
def Steady (q : QueueId) (p : Pid) (cfg : KConfig) (move : KMove) : Prop :=
  NotMoved q cfg move ∧ Unpreempted p cfg move

/-- Moreover, the condition of the process is true. -/
def Calls (q : QueueId) (p : Pid) (cfg : KConfig) (move : KMove) : Prop :=
  Steady q p cfg move ∧ CondHolds q p cfg move

section Runs

variable {ok : KConfig → KMove → Prop} {cfg cfg' : KConfig} {q : QueueId} {p : Pid} {w : Agent}

lemma Kept.next {early : Bool} (hmoved : ∀ cfg move, ok cfg move → NotMoved q cfg move)
    (hcond : early = true ∨ ∀ cfg move, ok cfg move → CondHolds q p cfg move)
    (hord : Orderly cfg) (h : Kept early q p cfg) (hnext : kernelMachine.Next ok cfg cfg') :
    Kept early q p cfg' := by
  obtain ⟨move, hok, hstep⟩ := hnext
  cases move with
  | call a c =>
    obtain ⟨is, hempty, hbody, rfl⟩ := Machine.step_call hstep
    exact h.call hempty hbody
  | act a x =>
    obtain ⟨i, rest, s', more, hstack, hexec, rfl⟩ := Machine.step_act hstep
    exact h.act hord.fine hord.one (hmoved _ _ hok) (hcond.imp_right fun hc => hc _ _ hok)
      hstack hexec
  | world e =>
    obtain ⟨s', hworld, rfl⟩ := Machine.step_world hstep
    exact h.world hworld

lemma Kept.runs {early : Bool} (hmoved : ∀ cfg move, ok cfg move → NotMoved q cfg move)
    (hcond : early = true ∨ ∀ cfg move, ok cfg move → CondHolds q p cfg move)
    (hord : Orderly cfg) (h : Kept early q p cfg) (hruns : kernelMachine.Runs ok cfg cfg') :
    Kept early q p cfg' := by
  induction hruns with
  | refl => exact h
  | tail hinit hnext ih => exact ih.next hmoved hcond (hord.runs hinit) hnext

lemma Checked.runs (hsteady : ∀ cfg move, ok cfg move → Unpreempted p cfg move)
    (hord : Orderly cfg) (h : Checked p cfg) (hruns : kernelMachine.Runs ok cfg cfg') :
    Checked p cfg' := by
  induction hruns with
  | refl => exact h
  | tail hinit hnext ih =>
    obtain ⟨move, hok, hstep⟩ := hnext
    cases move with
    | call a c =>
      obtain ⟨is, -, hbody, rfl⟩ := Machine.step_call hstep
      exact ih.call hbody
    | act a x =>
      obtain ⟨i, rest, s', more, hstack, hexec, rfl⟩ := Machine.step_act hstep
      exact ih.act (hord.runs hinit).fine hstack hexec
    | world e =>
      obtain ⟨s', hworld, rfl⟩ := Machine.step_world hstep
      exact ih.world (hsteady _ _ hok) hworld

/-- While a `wake_all` of the queue has not emptied it, it has the test or the section
under the lock before it. After that, the process is resumable. -/
def Wakes (w : Agent) (q : QueueId) (p : Pid) (cfg : KConfig) : Prop :=
  cfg.stack w = [.any (.wakeTest q none)] ∨ cfg.stack w = [.any (.take q none)] ∨
    Kept false q p cfg

lemma Wakes.next (hord : Orderly cfg) (hkept : Kept true q p cfg) (h : Wakes w q p cfg)
    (hnext : kernelMachine.Next (Calls q p) cfg cfg') : Wakes w q p cfg' := by
  have hkept' := hkept.next (fun _ _ hok => hok.1.1) (.inl rfl) hord hnext
  have hlate : Kept false q p cfg → Kept false q p cfg' := fun hkept =>
    hkept.next (fun _ _ (hok : Calls q p _ _) => hok.1.1)
      (.inr fun _ _ (hok : Calls q p _ _) => hok.2) hord hnext
  obtain ⟨move, -, hstep⟩ := hnext
  cases move with
  | world e =>
    obtain ⟨s', -, rfl⟩ := Machine.step_world hstep
    exact h.imp_right (Or.imp_right hlate)
  | call a c =>
    obtain ⟨is, hempty, -, rfl⟩ := Machine.step_call hstep
    have hne : ∀ i rest, cfg.stack w = i :: rest → w ≠ a := by
      rintro i rest hw rfl
      rw [hempty] at hw
      cases hw
    rcases h with hw | hw | hw
    · refine .inl ?_
      dsimp only
      rwa [update_of_ne (hne _ _ hw)]
    · refine .inr (.inl ?_)
      dsimp only
      rwa [update_of_ne (hne _ _ hw)]
    · exact .inr (.inr (hlate hw))
  | act a x =>
    obtain ⟨i, rest, s', more, hstack, hexec, rfl⟩ := Machine.step_act hstep
    by_cases hw : w = a
    · subst hw
      obtain ⟨j, l, rfl, rfl, hdoes⟩ | ⟨p₀, j, -, rfl, -, -⟩ := exec_cases hexec
      · rcases h with htest | htake | hkept
        · rw [hstack, cons.injEq, any.injEq] at htest
          obtain ⟨rfl, rfl⟩ := htest
          cases hdoes with
          | decides hsame hdecides =>
            cases hdecides with
            | noWaiters hnone =>
              refine .inr (.inr (hkept'.late ?_))
              have hzero := hnone.resolve_right nofun
              rw [hord.counted, length_eq_zero_iff] at hzero
              rw [hsame.waitQueues, hzero]
              exact not_mem_nil
            | wakeTest => exact .inr (.inl (update_self ..))
        · rw [hstack, cons.injEq, any.injEq] at htake
          obtain ⟨rfl, rfl⟩ := htake
          cases hdoes with
          | decides _ hdecides => cases hdecides
          | take =>
            refine .inr (.inr (hkept'.late ?_))
            rw [takeFrom_waitQueues, if_pos rfl, Kernel.firstOf, drop_length]
            exact not_mem_nil
        · exact .inr (.inr (hlate hkept))
      · rcases h with htest | htake | hkept
        · rw [hstack] at htest
          cases htest
        · rw [hstack] at htake
          cases htake
        · exact .inr (.inr (hlate hkept))
    · refine h.imp ?_ (Or.imp ?_ hlate)
      all_goals
        intro hstack'
        dsimp only
        rwa [update_of_ne hw]

lemma Wakes.runs (hord : Orderly cfg) (hkept : Kept true q p cfg) (h : Wakes w q p cfg)
    (hruns : kernelMachine.Runs (Calls q p) cfg cfg') : Wakes w q p cfg' := by
  induction hruns with
  | refl => exact h
  | tail hinit hnext ih =>
    have hkept' := hkept.runs (fun _ _ hok => hok.1.1) (.inl rfl) hord hinit
    exact ih.next (hord.runs hinit) hkept' hnext

end Runs

/-- The places of a sleep on the queue from the entry to the return. -/
def Instr.queued (q : QueueId) (i : Instr) : Bool := i.checks || i.dozes false q

/-- A `wake_all` is called and returns, and from the call on the condition of a process is
true. From then on the process, if it has entered the queue and has not returned, is runnable or
was made to exit, or is at its last check and runs, or another wake-up has taken it and is about
to resume it. The process keeps its processor while it is blocked. -/
theorem not_left_blocked {cfg₀ cfg₁ cfg₂ cfg₃ cfg₄ : KConfig} {w : Agent} {n : ℕ} {p : Pid}
    (hboot : Boot cfg₀) (hbefore : kernelMachine.Runs (Steady (.named n) p) cfg₀ cfg₁)
    (hcall : kernelMachine.step cfg₁ (.call w (.wakeAll n)) = some cfg₂)
    (hwake : kernelMachine.Runs (Calls (.named n) p) cfg₂ cfg₃) (hdone : cfg₃.stack w = [])
    (hafter : kernelMachine.Runs (Calls (.named n) p) cfg₃ cfg₄)
    (hqueued : ∃ i ∈ cfg₄.stack (.proc p), i.queued (.named n) = true) :
    cfg₄.shared.state p = .runnable ∨ (cfg₄.shared.state p).exited = true ∨
      cfg₄.shared.state p = .blockedSignalable ∧ (Owed cfg₄ p ∨ Running cfg₄.shared p) := by
  have hord₁ := hboot.orderly.runs hbefore
  have hnext : kernelMachine.Next (fun _ move => move = .call w (.wakeAll n)) cfg₁ cfg₂ :=
    ⟨_, rfl, hcall⟩
  have hord₂ := hord₁.runs (.single hnext)
  have hkept₀ : Kept true (.named n) p cfg₀ := by
    rintro ⟨i, hi, -⟩
    rw [hboot.stack] at hi
    cases hi
  have hchecked₀ : Checked p cfg₀ := by
    rintro ⟨i, hi, -⟩
    rw [hboot.stack] at hi
    cases hi
  have hkept₁ := hkept₀.runs (fun _ _ hok => hok.1) (.inl rfl) hboot.orderly hbefore
  have hkept₂ := hkept₁.next (by rintro _ _ rfl; trivial) (.inl rfl) hord₁ hnext
  have hchecked₁ := hchecked₀.runs (fun _ _ hok => hok.2) hboot.orderly hbefore
  have hchecked₂ := hchecked₁.runs (by rintro _ _ rfl; trivial) hord₁ (.single hnext)
  have hwakes₂ : Wakes w (.named n) p cfg₂ := by
    obtain ⟨is, -, hbody, rfl⟩ := Machine.step_call hcall
    refine .inl ?_
    dsimp only
    rw [update_self]
    cases w with
    | proc p' | irq m => exact (Option.some.inj hbody).symm
  have hkept₃ : Kept false (.named n) p cfg₃ := by
    rcases hwakes₂.runs hord₂ hkept₂ hwake with htest | htake | hkept
    · rw [hdone] at htest
      cases htest
    · rw [hdone] at htake
      cases htake
    · exact hkept
  have hkept₄ := hkept₃.runs (fun _ _ hok => hok.1.1) (.inr fun _ _ hok => hok.2)
    (hord₂.runs hwake) hafter
  have hchecked₄ := hchecked₂.runs (fun _ _ hok => hok.1.2) hord₂ (hwake.trans hafter)
  obtain ⟨i, hi, hi'⟩ := hqueued
  rcases Bool.or_eq_true_iff.mp hi' with hchecks | hdozes
  · have hasleep := hchecked₄ ⟨i, hi, hchecks⟩
    cases hstate : cfg₄.shared.state p with
    | runnable => exact .inl rfl
    | blockedSignalable => exact .inr (.inr ⟨rfl, .inr (hasleep _ rfl hstate).2⟩)
    | stopped sig => cases (hasleep _ rfl hstate).1
    | _ => exact .inr (.inl rfl)
  · refine (hkept₄ ⟨i, hi, hdozes⟩).imp_right (Or.imp_right fun hblocked => ⟨hblocked.1, .inl ?_⟩)
    exact hblocked.2.resolve_left fun hin => by cases hin.1

/-- Moves that requeue nothing. -/
def requeuesNothing (cfg : KConfig) : KMove → Bool
  | .act a _ =>
    match cfg.stack a with
    | .any (.requeue ..) :: _ => false
    | _ => true
  | _ => true

lemma notMoved_of_requeuesNothing (q : QueueId) (cfg : KConfig) (move : KMove)
    (h : requeuesNothing cfg move = true) : NotMoved q cfg move := by
  cases move with
  | act a x =>
    intro q' max rest hstack
    rw [requeuesNothing, hstack] at h
    cases h
  | call | world => trivial

/-- The process does not evaluate its condition next. -/
def evaluatesNothing (p : Pid) (cfg : KConfig) : KMove → Bool
  | .act (.proc p') _ => p' ≠ p || ((cfg.stack (.proc p)).head?.bind evaluates).isNone
  | _ => true

lemma condHolds_of_evaluatesNothing (q : QueueId) (p : Pid) (cfg : KConfig) (move : KMove)
    (h : evaluatesNothing p cfg move = true) : CondHolds q p cfg move := by
  cases move with
  | act a x =>
    cases a with
    | proc p' =>
      rintro rfl i rest k hstack hk
      simp [evaluatesNothing, hstack, hk] at h
    | irq n => trivial
  | call | world => trivial

/-- The processor is not taken from the process while it is blocked. -/
def unpreempts (p : Pid) (cfg : KConfig) : KMove → Bool
  | .world (.preempt c) =>
    (cfg.shared.cpus c).current ≠ some p || cfg.shared.state p ≠ .blockedSignalable
  | _ => true

lemma unpreempted_of_unpreempts (p : Pid) (cfg : KConfig) (move : KMove)
    (h : unpreempts p cfg move = true) : Unpreempted p cfg move := by
  cases move with
  | world e =>
    cases e with
    | preempt c =>
      intro hcpu
      simpa [unpreempts, hcpu] using h
    | _ => trivial
  | call | act => trivial

/-- A process sleeps, another one calls `wake_all`, and the first one is not blocked. -/
theorem not_left_blocked_two_processes : ∃ cfg, cfg.stack (.proc 2) = [] ∧
    (∃ i ∈ cfg.stack (.proc 1), i.queued (.named 5) = true) ∧
    (cfg.shared.state 1 = .runnable ∨ (cfg.shared.state 1).exited = true ∨
      cfg.shared.state 1 = .blockedSignalable ∧ (Owed cfg 1 ∨ Running cfg.shared 1)) := by
  have hplay : ((kernelMachine.play (fun cfg move => requeuesNothing cfg move &&
        unpreempts 1 cfg move) bootConfig
      (startOn 0 1 ++ startOn 1 2 ++ [.call (.proc 1) (.sleep 5 true)] ++
        replicate 5 (actOn 0 1 .notYet) ++ switchTo 0)).any fun cfg₁ =>
      (kernelMachine.step cfg₁ (.call (.proc 2) (.wakeAll 5))).any fun cfg₂ =>
        (kernelMachine.play (fun cfg move => requeuesNothing cfg move &&
            unpreempts 1 cfg move && evaluatesNothing 1 cfg move) cfg₂
          (replicate 5 (actOn 1 2 .notYet))).any fun cfg₃ =>
          (cfg₃.stack (.proc 2)).isEmpty && (cfg₃.stack (.proc 1)).any (queued (.named 5))) =
      true := by
    decide +kernel
  obtain ⟨cfg₁, hbefore, hplay⟩ := (Option.any_eq_true _ _).mp hplay
  obtain ⟨cfg₂, hcall, hplay⟩ := (Option.any_eq_true _ _).mp hplay
  obtain ⟨cfg₃, hwake, hend⟩ := (Option.any_eq_true _ _).mp hplay
  obtain ⟨hdone, hany⟩ := Bool.and_eq_true_iff.mp hend
  have hempty := isEmpty_iff.mp hdone
  have hqueued := any_eq_true.mp hany
  have hsteady : ∀ cfg move, (requeuesNothing cfg move && unpreempts 1 cfg move) = true →
      Steady (.named 5) 1 cfg move := by
    intro cfg move h
    obtain ⟨hnothing, hunpreempted⟩ := Bool.and_eq_true_iff.mp h
    exact ⟨notMoved_of_requeuesNothing _ cfg move hnothing,
      unpreempted_of_unpreempts 1 cfg move hunpreempted⟩
  refine ⟨cfg₃, hempty, hqueued, ?_⟩
  refine not_left_blocked boot_bootConfig (Machine.runs_of_play hsteady hbefore) hcall
    (Machine.runs_of_play (fun cfg move h => ?_) hwake) hempty .refl hqueued
  obtain ⟨hsteps, hevaluates⟩ := Bool.and_eq_true_iff.mp h
  exact ⟨hsteady cfg move hsteps, condHolds_of_evaluatesNothing _ 1 cfg move hevaluates⟩

/-- A sleeper finds its condition false. Another process makes it true and calls `wake_all`,
which finds nobody in the queue and returns. The sleeper enters the queue, and the timer
interrupt takes its processor before the last check. It is blocked, on no processor and in no
run queue, and nobody is about to resume it. -/
theorem preempted_sleeper_left_blocked : ∃ cfg₁ cfg₂ cfg₃ cfg₄,
    kernelMachine.Runs (fun _ _ => True) bootConfig cfg₁ ∧
      kernelMachine.step cfg₁ (.call (.proc 2) (.wakeAll 5)) = some cfg₂ ∧
      kernelMachine.Runs (CondHolds (.named 5) 1) cfg₂ cfg₃ ∧ cfg₃.stack (.proc 2) = [] ∧
      kernelMachine.Runs (CondHolds (.named 5) 1) cfg₃ cfg₄ ∧
      (∃ i ∈ cfg₄.stack (.proc 1), i.queued (.named 5) = true) ∧
      cfg₄.shared.state 1 = .blockedSignalable ∧ cfg₄.shared.runQueues.count 1 = 0 ∧
      (cfg₄.shared.cpus 0).current = none ∧ (cfg₄.shared.cpus 1).current = some 2 ∧
      cfg₄.stack (.proc 2) = [] := by
  have hplay : ((kernelMachine.play (fun _ _ => true) bootConfig
      (startOn 0 1 ++ startOn 1 2 ++ [.call (.proc 1) (.sleep 5 true)] ++
        replicate 2 (actOn 0 1 .notYet))).any fun cfg₁ =>
      (kernelMachine.step cfg₁ (.call (.proc 2) (.wakeAll 5))).any fun cfg₂ =>
        (kernelMachine.play (evaluatesNothing 1) cfg₂ [actOn 1 2 .notYet]).any fun cfg₃ =>
          (cfg₃.stack (.proc 2)).isEmpty &&
            (kernelMachine.play (evaluatesNothing 1) cfg₃ ([actOn 0 1 (.ready 0),
              .world (.preempt 0)] ++ switchTo 0)).any fun cfg₄ =>
              (cfg₄.stack (.proc 1)).any (queued (.named 5)) &&
                decide (cfg₄.shared.state 1 = .blockedSignalable ∧
                  cfg₄.shared.runQueues.count 1 = 0 ∧ (cfg₄.shared.cpus 0).current = none ∧
                  (cfg₄.shared.cpus 1).current = some 2) && (cfg₄.stack (.proc 2)).isEmpty) =
      true := by
    decide +kernel
  obtain ⟨cfg₁, hbefore, hplay⟩ := (Option.any_eq_true _ _).mp hplay
  obtain ⟨cfg₂, hcall, hplay⟩ := (Option.any_eq_true _ _).mp hplay
  obtain ⟨cfg₃, hwake, hplay⟩ := (Option.any_eq_true _ _).mp hplay
  obtain ⟨hdone, hplay⟩ := Bool.and_eq_true_iff.mp hplay
  obtain ⟨cfg₄, hafter, hend⟩ := (Option.any_eq_true _ _).mp hplay
  obtain ⟨hend, hidle⟩ := Bool.and_eq_true_iff.mp hend
  obtain ⟨hqueued, hleft⟩ := Bool.and_eq_true_iff.mp hend
  obtain ⟨hblocked, hcount, hcpu₀, hcpu₁⟩ := of_decide_eq_true hleft
  exact ⟨cfg₁, cfg₂, cfg₃, cfg₄, Machine.runs_of_play (fun _ _ _ => trivial) hbefore, hcall,
    Machine.runs_of_play (condHolds_of_evaluatesNothing _ 1) hwake, isEmpty_iff.mp hdone,
    Machine.runs_of_play (condHolds_of_evaluatesNothing _ 1) hafter, any_eq_true.mp hqueued,
    hblocked, hcount, hcpu₀, hcpu₁, isEmpty_iff.mp hidle⟩

end Kevlar.Sched
