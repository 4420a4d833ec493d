import Kevlar.LostWakeups

/-!
# What becomes of a futex waiter that was woken

A futex call counts the waiters that it takes off the queue. Such a waiter is resumed and
reads its word again. If the word has changed it returns 0 after at most four steps of its
own; if not, it goes back into the queue although it was counted. A waiter that was moved
to another futex is in the queue of that one until it is taken or moved from there.
-/
namespace Kevlar.Sched
open Instr Function List Concurrent

/-! ## The code of a sleep -/

variable {s s' : Kernel} {p : Pid} {q : QueueId} {i : Instr} {x : Choice} {more stack : List Instr}
  {cfg cfg' : KConfig} {n : ℕ} {a : Agent}

variable {addr : ℕ} {r : Except Errno ℕ} {rest : List Instr}
  {ok : KConfig → KMove → Prop} {moves : List KMove}

/-! ## Waiters that were taken -/

/-- A waiter that is still to look at its word again, or has found it changed. -/
def HearsWake (stack : List Instr) : Prop :=
  (∃ addr k, .own (.recheck (.futex addr) k) ∈ stack ∨ .own (.woken (.futex addr) k) ∈ stack) ∨
    ∃ addr, stack =
      [.own (.removeSelf (.futex addr)), .own (.setState .runnable), .own (.ret (.ok 0))]

/-- A futex call takes waiters that are still to look at their word, and a waiter that was
taken off its queue then finds the word changed. -/
def Heard (cfg : KConfig) : KMove → Prop
  | .act a x =>
    match cfg.stack a with
    | .any (.take (.futex addr) max) :: _ =>
      ∀ p ∈ cfg.shared.firstOf (.futex addr) max, HearsWake (cfg.stack (.proc p))
    | .own (.woken (.futex _) k) :: _ => ∀ p, a = .proc p → NoEntry cfg.shared p →
        sleepEnd (cfg.shared.verdict p k x.answer) ≠ none
    | _ => True
  | _ => True

/-- What is left of a futex wait that returns 0, with the number of steps. -/
inductive ReturningCode : ℕ → List Instr → Prop
  | recheck (addr : ℕ) (val : BitVec 32) :
      ReturningCode 4 [.own (.recheck (.futex addr) (.word addr val))]
  | yield (addr : ℕ) (val : BitVec 32) :
      ReturningCode 3 [.own .yield, .own (.woken (.futex addr) (.word addr val))]
  | ready (addr : ℕ) : ReturningCode 3
      [.own (.removeSelf (.futex addr)), .own (.setState .runnable), .own (.ret (.ok 0))]
  | woken (addr : ℕ) (val : BitVec 32) :
      ReturningCode 2 [.own (.woken (.futex addr) (.word addr val))]
  | leaving : ReturningCode 2 [.own (.setState .runnable), .own (.ret (.ok 0))]
  | last : ReturningCode 1 [.own (.ret (.ok 0))]

lemma ReturningCode.pos (h : ReturningCode n stack) : 0 < n := by
  cases h <;> decide

/-- The waiter needs no further wake: it is in no queue, and not blocked unless its resume
is under way. -/
structure Returning (p : Pid) (n : ℕ) (cfg : KConfig) : Prop where
  code : ReturningCode n (cfg.stack (.proc p))
  noEntry : NoEntry cfg.shared p
  resumed : cfg.shared.state p = .blockedSignalable → Owed cfg p

lemma SleepCode.returning (h : SleepCode stack) (hhears : HearsWake stack) :
    ∃ n ≤ 4, ReturningCode n stack := by
  rcases hhears with ⟨addr, k, hmem⟩ | ⟨addr, rfl⟩
  · cases h with
    | recheck hfits =>
      simp only [mem_singleton, own.injEq, reduceCtorEq, or_false] at hmem
      cases hmem
      obtain ⟨val, rfl⟩ := hfits addr rfl
      exact ⟨4, le_refl 4, .recheck addr val⟩
    | yield hfits =>
      simp at hmem
      obtain ⟨rfl, rfl⟩ := hmem
      obtain ⟨val, rfl⟩ := hfits addr rfl
      exact ⟨3, by omega, .yield addr val⟩
    | woken hfits =>
      simp only [mem_singleton, own.injEq, reduceCtorEq, false_or] at hmem
      cases hmem
      obtain ⟨val, rfl⟩ := hfits addr rfl
      exact ⟨2, by omega, .woken addr val⟩
    | _ => simp at hmem
  · exact ⟨3, by omega, .ready addr⟩

/-- An instruction puts a process into a queue only if it was in one, or enters one. -/
lemma mem_queue_of_exec (h : exec s a i x = some (s', more)) (hp : p ∈ (s'.waitQueues q).queue) :
    ¬NoEntry s p ∨ a = .proc p ∧ ∃ q k, i = .own (.enter q k) := by
  have hin : ∀ {q' : QueueId}, p ∈ (s.waitQueues q').queue → ¬NoEntry s p :=
    fun hold hno => hno _ hold
  obtain ⟨j, l, rfl, rfl, hdoes⟩ | ⟨p', j, rfl, rfl, -, hdoes⟩ := exec_cases h
  · left
    cases hdoes with
    | decides hsame _ =>
      rw [hsame.waitQueues] at hp
      exact hin hp
    | setState | dequeue | resume | restore | enqueue | setRunnable => exact hin hp
    | take q' max =>
      rw [takeFrom_waitQueues] at hp
      split_ifs at hp
      · exact hin (mem_of_mem_drop hp)
      · exact hin hp
    | @requeue q₁ q₂ max hne =>
      rw [moveTo_waitQueues] at hp
      split_ifs at hp
      · rcases mem_append.mp hp with hp | hp
        · exact hin hp
        · exact hin (mem_of_mem_take hp)
      · exact hin (mem_of_mem_drop hp)
      · exact hin hp
  · cases hdoes with
    | futex hsame _ =>
      rw [hsame.waitQueues] at hp
      exact .inl (hin hp)
    | sleep | setState | exitKept | exitState | yield | ret => exact .inl (hin hp)
    | removeSelf q' =>
      rw [removeFrom_waitQueues] at hp
      split_ifs at hp
      · exact .inl (hin (mem_of_mem_filter hp))
      · exact .inl (hin hp)
    | enter q' k =>
      rw [enterQueue_waitQueues] at hp
      split_ifs at hp
      · rcases mem_append.mp hp with hp | hp
        · exact .inl (hin hp)
        · exact .inr ⟨by rw [mem_singleton.mp hp], q', k, rfl⟩
      · exact .inl (hin hp)

/-- What an instruction adds to the log; only the end of a call adds its result. -/
lemma exec_log (h : exec s a i x = some (s', more)) :
    ∃ l, s'.log = s.log ++ l ∧
      ∀ p r, Note.returned p r ∈ l → a = .proc p ∧ i = .own (.ret r) := by
  have hsame : s'.log = s.log → ∃ l, s'.log = s.log ++ l ∧
      ∀ p r, Note.returned p r ∈ l → a = .proc p ∧ i = .own (.ret r) :=
    fun hlog => ⟨[], by rw [hlog, append_nil], nofun⟩
  obtain ⟨j, l, rfl, rfl, hdoes⟩ | ⟨p', j, rfl, rfl, -, hdoes⟩ := exec_cases h
  · cases hdoes with
    | decides hcore _ => exact hsame hcore.log
    | setState | dequeue | resume | restore | enqueue | setRunnable => exact hsame rfl
    | take | requeue => exact ⟨_, rfl, by simp⟩
  · cases hdoes with
    | futex hcore _ => exact hsame hcore.log
    | sleep | setState | exitKept | exitState | yield | removeSelf | enter => exact hsame rfl
    | ret r =>
      refine ⟨_, rfl, fun p r' hr => ?_⟩
      cases mem_singleton.mp hr
      exact ⟨rfl, rfl⟩

namespace Returning

variable {cfg : KConfig} {p : Pid} {n : ℕ} {a : Agent} {i : Instr} {x : Choice}
  {rest more : List Instr} {s : Kernel}

/-- The own step of the waiter, as far as its code and the log are concerned. -/
lemma code_own (h : Returning p n cfg) (hheard : Heard cfg (.act (.proc p) x))
    (hstack : cfg.stack (.proc p) = i :: rest)
    (hexec : exec cfg.shared (.proc p) i x = some (s, more)) :
    (i ≠ .own (.setState .blockedSignalable) ∧ ∀ q k, i ≠ .own (.enter q k)) ∧
      ∃ n', n = n' + 1 ∧ (n' = 0 ∧ s.log = cfg.shared.log ++ [.returned p (.ok 0)] ∨
        s.log = cfg.shared.log ∧ ReturningCode n' (more ++ rest)) := by
  have hcode := h.code
  rw [hstack] at hcode
  rw [Heard, hstack] at hheard
  obtain ⟨j, l, rfl, -⟩ | ⟨p', j, hp, rfl, -, hdoes⟩ := exec_cases hexec
  · cases hcode
  cases hp
  cases hcode with
  | recheck addr val =>
    refine ⟨⟨nofun, fun _ _ => nofun⟩, 3, rfl, .inr ?_⟩
    cases hdoes with
    | sleep hstep =>
      cases hstep with
      | recheckEnd hend =>
        cases sleepEnd_word hend
        exact ⟨rfl, .ready addr⟩
      | recheckGo => exact ⟨rfl, .yield addr val⟩
    | futex _ hstep => cases hstep
  | yield addr val =>
    refine ⟨⟨nofun, fun _ _ => nofun⟩, 2, rfl, .inr ?_⟩
    cases hdoes with
    | sleep hstep | futex _ hstep => cases hstep
    | yield => exact ⟨rfl, .woken addr val⟩
  | ready addr =>
    refine ⟨⟨nofun, fun _ _ => nofun⟩, 2, rfl, .inr ?_⟩
    cases hdoes with
    | sleep hstep | futex _ hstep => cases hstep
    | removeSelf => exact ⟨rfl, .leaving⟩
  | woken addr val =>
    refine ⟨⟨nofun, fun _ _ => nofun⟩, 1, rfl, .inr ?_⟩
    cases hdoes with
    | sleep hstep =>
      cases hstep with
      | wokenEnd hend =>
        cases sleepEnd_word hend
        exact ⟨rfl, .last⟩
      | wokenGo hend => exact absurd hend (hheard p rfl h.noEntry)
    | futex _ hstep => cases hstep
  | leaving =>
    refine ⟨⟨nofun, fun _ _ => nofun⟩, 1, rfl, .inr ?_⟩
    cases hdoes with
    | sleep hstep | futex _ hstep => cases hstep
    | setState => exact ⟨rfl, .last⟩
  | last =>
    refine ⟨⟨nofun, fun _ _ => nofun⟩, 0, rfl, .inl ⟨rfl, ?_⟩⟩
    cases hdoes with
    | sleep hstep | futex _ hstep => cases hstep
    | ret => rfl

/-- A waiter that needs no further wake does not need one later. -/
lemma keeps (h : Returning p n cfg) (hstacks : StacksOk cfg)
    (hstack : cfg.stack a = i :: rest) (hexec : exec cfg.shared a i x = some (s, more))
    (hsets : a = .proc p → i ≠ .own (.setState .blockedSignalable) ∧
      ∀ q k, i ≠ .own (.enter q k)) :
    NoEntry s p ∧ (s.state p = .blockedSignalable →
      Owed ⟨s, update cfg.stack a (more ++ rest)⟩ p) := by
  have hexits := hstacks.exits a i (by rw [hstack]; exact mem_cons_self)
  constructor
  · intro q hq
    rcases mem_queue_of_exec hexec hq with hold | ⟨ha, q', k, hi⟩
    · exact hold h.noEntry
    · exact (hsets ha).2 q' k hi
  · intro hblocked
    obtain ⟨hold, hresume⟩ | ⟨ha, hi⟩ := asleep_of_exec hexec hexits rfl hblocked
    · exact (h.resumed hold).step hstack hresume
    · rcases hi with hi | ⟨-, q, k, hi⟩
      · exact absurd hi (hsets ha).1
      · exact absurd hi ((hsets ha).2 q k)

lemma act (h : Returning p n cfg) (hstacks : StacksOk cfg) (hheard : Heard cfg (.act a x))
    (hstack : cfg.stack a = i :: rest) (hexec : exec cfg.shared a i x = some (s, more)) :
    a ≠ .proc p ∧ Returning p n ⟨s, update cfg.stack a (more ++ rest)⟩ ∨
      a = .proc p ∧ ∃ n', n = n' + 1 ∧
        (s.log = cfg.shared.log ++ [.returned p (.ok 0)] ∨ s.log = cfg.shared.log ∧
          Returning p n' ⟨s, update cfg.stack a (more ++ rest)⟩) := by
  by_cases ha : a = .proc p
  · subst ha
    obtain ⟨hsets, n', hn, hend⟩ := h.code_own hheard hstack hexec
    obtain ⟨hno, howed⟩ := h.keeps hstacks hstack hexec fun _ => hsets
    refine .inr ⟨rfl, n', hn, hend.imp And.right fun ⟨hlog, hcode⟩ => ⟨hlog, ?_, hno, howed⟩⟩
    dsimp only
    rwa [update_self]
  · obtain ⟨hno, howed⟩ := h.keeps hstacks hstack hexec fun heq => absurd heq ha
    refine .inl ⟨ha, ?_, hno, howed⟩
    dsimp only
    rw [update_of_ne (Ne.symm ha)]
    exact h.code

end Returning

def isStepOf (p : Pid) : KMove → Bool
  | .act a _ => a = .proc p
  | _ => false

/-- The first call of the process that returns after `cfg` has returned 0. -/
def ReturnsZero (p : Pid) (cfg cfg' : KConfig) : Prop :=
  ∃ l l', cfg'.shared.log = cfg.shared.log ++ l ++ .returned p (.ok 0) :: l' ∧
    ∀ r, .returned p r ∉ l

/-- No call of the process has returned after `cfg`. -/
def NotReturned (p : Pid) (cfg cfg' : KConfig) : Prop :=
  ∃ l, cfg'.shared.log = cfg.shared.log ++ l ∧ ∀ r, .returned p r ∉ l

lemma NotReturned.refl (p : Pid) (cfg : KConfig) : NotReturned p cfg cfg :=
  ⟨[], by rw [append_nil], fun _ => not_mem_nil⟩

lemma ReturnsZero.append {p : Pid} {cfg cfg' cfg'' : KConfig} {l : List Note}
    (h : ReturnsZero p cfg cfg') (hlog : cfg''.shared.log = cfg'.shared.log ++ l) :
    ReturnsZero p cfg cfg'' := by
  obtain ⟨l₁, l₂, hold, hno⟩ := h
  refine ⟨l₁, l₂ ++ l, ?_, hno⟩
  rw [hlog, hold, append_assoc _ _ l, cons_append]

lemma NotReturned.append {p : Pid} {cfg cfg' cfg'' : KConfig} {l : List Note}
    (h : NotReturned p cfg cfg') (hlog : cfg''.shared.log = cfg'.shared.log ++ l)
    (hl : ∀ r, .returned p r ∉ l) : NotReturned p cfg cfg'' := by
  obtain ⟨l₁, hold, hno⟩ := h
  refine ⟨l₁ ++ l, by rw [hlog, hold, append_assoc], fun r hr => ?_⟩
  rcases mem_append.mp hr with hr | hr
  · exact hno r hr
  · exact hl r hr

/-- A step adds to the log. -/
lemma step_log {move : KMove} (h : kernelMachine.step cfg move = some cfg') :
    ∃ l, cfg'.shared.log = cfg.shared.log ++ l ∧
      ∀ p r, Note.returned p r ∈ l → isStepOf p move = true := by
  cases move with
  | call a c =>
    obtain ⟨is, -, -, rfl⟩ := Machine.step_call h
    exact ⟨[], by rw [append_nil], nofun⟩
  | act a x =>
    obtain ⟨i, rest, s, more, hstack, hexec, rfl⟩ := Machine.step_act h
    obtain ⟨l, hlog, hl⟩ := exec_log hexec
    exact ⟨l, hlog, fun p r hr => decide_eq_true (hl p r hr).1⟩
  | world e =>
    obtain ⟨s, hworld, rfl⟩ := Machine.step_world h
    exact ⟨[], by rw [append_nil, (world_keeps hworld).2.1], nofun⟩

/-- A waiter that was taken returns 0 after at most as many steps of its own as are left,
however the steps of the others come in between. -/
lemma Returning.path (h : Returning p n cfg) (hstacks : StacksOk cfg)
    (hpath : kernelMachine.Path Heard cfg moves cfg') :
    ReturnsZero p cfg cfg' ∨ NotReturned p cfg cfg' ∧
      ∃ n', moves.countP (isStepOf p) + n' ≤ n ∧ Returning p n' cfg' := by
  induction hpath with
  | nil => exact .inr ⟨.refl p cfg, n, by simp, h⟩
  | @snoc moves move cfg₁ cfg₂ hpath hheard hstep ih =>
    obtain ⟨l, hlog, hl⟩ := step_log hstep
    rcases ih with hdone | ⟨hnot, n', hn', hret⟩
    · exact .inl (hdone.append hlog)
    · have hstacks₁ := stacksOk_of_runs hpath.runs hstacks
      have hcount : (moves ++ [move]).countP (isStepOf p) =
          moves.countP (isStepOf p) + if isStepOf p move then 1 else 0 := by
        rw [countP_append, countP_singleton]
      rw [hcount]
      cases move with
      | call b c =>
        obtain ⟨is, hstack, -, rfl⟩ := Machine.step_call hstep
        refine .inr ⟨hnot.append hlog (fun r hr => nomatch hl p r hr), n', hn', ?_, hret.noEntry,
          fun hblocked => ?_⟩
        · have hcode := hret.code
          dsimp only
          by_cases hb : Agent.proc p = b
          · subst hb
            rw [hstack] at hcode
            cases hcode
          · rwa [update_of_ne hb]
        · obtain ⟨b', why, hb'⟩ := hret.resumed hblocked
          refine ⟨b', why, ?_⟩
          dsimp only
          by_cases hb : b' = b
          · subst hb
            rw [hstack] at hb'
            cases hb'
          · rwa [update_of_ne hb]
      | act b x =>
        obtain ⟨i, rest, s, more, hstack, hexec, rfl⟩ := Machine.step_act hstep
        rcases hret.act hstacks₁ hheard hstack hexec with ⟨hb, hret⟩ | ⟨rfl, n'', rfl, hend⟩
        · have hother : isStepOf p (.act b x) = false := decide_eq_false hb
          refine .inr ⟨hnot.append hlog fun r hr => ?_, n', by simpa [hother] using hn', hret⟩
          rw [hl p r hr] at hother
          cases hother
        · have hown : isStepOf p (.act (.proc p) x) = true := decide_eq_true rfl
          rcases hend with hlast | ⟨hsame, hret⟩
          · obtain ⟨l₁, hold, hno⟩ := hnot
            refine .inl ⟨l₁, [], ?_, hno⟩
            rw [hlast, hold]
          · refine .inr ⟨hnot.append (by rw [hsame, append_nil]) fun _ => not_mem_nil,
              n'', ?_, hret⟩
            rw [hown, if_pos rfl]
            omega
      | world e =>
        obtain ⟨s, hworld, rfl⟩ := Machine.step_world hstep
        refine .inr ⟨hnot.append hlog (fun r hr => nomatch hl p r hr), n', hn', hret.code, ?_,
          fun hblocked => ?_⟩
        · intro q
          rw [(world_keeps hworld).1]
          exact hret.noEntry q
        · rcases (world_keeps hworld).2.2.1 p with heq | ⟨-, heq⟩
          · exact hret.resumed (heq ▸ hblocked)
          · rw [heq] at hblocked
            cases hblocked

lemma HearsWake.ofSleep (h : HearsWake stack) :
    ∃ i ∈ stack, i.ofSleep = true := by
  rcases h with ⟨addr, k, hmem | hmem⟩ | ⟨addr, rfl⟩
  · exact ⟨_, hmem, rfl⟩
  · exact ⟨_, hmem, rfl⟩
  · exact ⟨_, mem_cons_self, rfl⟩

/-- A waiter that a futex call takes off its queue. -/
lemma Returning.taken {max : Option ℕ} (hentries : EntriesOk cfg) (hstacks : StacksOk cfg)
    (hheard : Heard cfg (.act a x)) (hstack : cfg.stack a = .any (.take (.futex addr) max) :: rest)
    (hstep : kernelMachine.step cfg (.act a x) = some cfg')
    (hp : p ∈ cfg.shared.firstOf (.futex addr) max) : ∃ n ≤ 4, Returning p n cfg' := by
  rw [Heard, hstack] at hheard
  have hhears := hheard p hp
  have hcode := hstacks.code (.proc p) hhears.ofSleep
  obtain ⟨n, hn, hreturning⟩ := hcode.returning hhears
  have ha : Agent.proc p ≠ a := by
    rintro rfl
    rw [hstack] at hcode
    cases hcode
  obtain ⟨i, rest', s, more, hstack', hexec, rfl⟩ := Machine.step_act hstep
  obtain ⟨rfl, rfl⟩ := cons.inj (hstack.symm.trans hstack')
  have hexec' : exec cfg.shared a (.any (.take (.futex addr) max)) x = some (s, more) := hexec
  obtain ⟨j, l, hj, rfl, hdoes⟩ | ⟨p', j, -, hj, -⟩ := exec_cases hexec'
  swap
  · cases hj
  cases hj
  cases hdoes with
  | decides _ hdecides => cases hdecides
  | take =>
    have hqueue := firstOf_append_drop cfg.shared (.futex addr) max
    have hin := mem_of_firstOf hp
    refine ⟨n, hn, ?_, fun q hq => ?_, fun _ => ⟨a, .wake, ?_⟩⟩
    · dsimp only
      rwa [update_of_ne ha]
    · rw [takeFrom_waitQueues] at hq
      split_ifs at hq with hsame
      · have hnodup := hentries.nodup (.futex addr)
        rw [← hqueue] at hnodup
        exact disjoint_of_nodup_append hnodup hp hq
      · exact hsame (hentries.once hq hin)
    · dsimp only
      rw [update_self, map_map]
      exact mem_append_left _ (mem_map.mpr ⟨p, hp, rfl⟩)

/-- The waiter can go on whenever a processor runs it. -/
lemma Returning.enabled (h : Returning p n cfg)
    (hruns : (Agent.proc p).runsOn cfg.shared x.cpu = true) :
    ∃ cfg', kernelMachine.step cfg (.act (.proc p) x) = some cfg' := by
  have hsome : ∀ i rest, cfg.stack (.proc p) = i :: rest →
      (∃ r, exec cfg.shared (.proc p) i x = some r) →
      ∃ cfg', kernelMachine.step cfg (.act (.proc p) x) = some cfg' := by
    rintro i rest hstack ⟨r, hexec⟩
    exact ⟨_, Machine.step_eq_of_exec hstack hexec⟩
  have hown : ∀ j : OwnAct, exec cfg.shared (.proc p) (.own j) x = j.exec cfg.shared p x := by
    intro j
    rw [exec.eq_def, if_pos hruns]
  have hcode := h.code
  generalize hstack : cfg.stack (.proc p) = stack at hcode
  cases hcode with
  | recheck addr val | woken addr val =>
    refine hsome _ _ hstack ?_
    rw [hown, OwnAct.exec]
    split <;> exact ⟨_, rfl⟩
  | yield | ready | leaving | last =>
    refine hsome _ _ hstack ?_
    rw [hown]
    exact ⟨_, rfl⟩

/-! ## Waiters that were moved -/

/-- The note says that the process was taken or moved, or that its call has returned. -/
def Note.concerns (p : Pid) : Note → Prop
  | .woke _ _ ps => p ∈ ps
  | .moved _ _ _ ps => p ∈ ps
  | .returned p' _ => p' = p

/-- The process has removed its entry itself and is about to return. -/
def Leaves (stack : List Instr) : Prop :=
  ∃ r, stack = [.own (.setState .runnable), .own (.ret r)] ∨ stack = [.own (.ret r)]

/-- The process is in the queue, unless it has been taken or moved from there or has left
by itself since `cfg`. -/
def StaysIn (p : Pid) (q : QueueId) (cfg cfg' : KConfig) : Prop :=
  p ∈ (cfg'.shared.waitQueues q).queue ∨ Leaves (cfg'.stack (.proc p)) ∨
    ∃ l, cfg'.shared.log = cfg.shared.log ++ l ∧ ∃ n ∈ l, n.concerns p

/-- An entry disappears only when it is taken or moved, or removed by the process. -/
lemma queue_of_exec (h : exec s a i x = some (s', more)) (hp : p ∈ (s.waitQueues q).queue) :
    p ∈ (s'.waitQueues q).queue ∨ (∃ n, s'.log = s.log ++ [n] ∧ n.concerns p) ∨
      a = .proc p ∧ ∃ q', i = .own (.removeSelf q') := by
  obtain ⟨j, l, rfl, rfl, hdoes⟩ | ⟨p', j, rfl, rfl, -, hdoes⟩ := exec_cases h
  · cases hdoes with
    | decides hsame _ =>
      rw [hsame.waitQueues]
      exact .inl hp
    | setState | dequeue | resume | restore | enqueue | setRunnable => exact .inl hp
    | take q' max =>
      rw [takeFrom_waitQueues]
      split_ifs with hq
      · subst hq
        rw [← firstOf_append_drop s q max, mem_append] at hp
        exact hp.symm.imp_right fun hfirst => .inl ⟨_, rfl, hfirst⟩
      · exact .inl hp
    | @requeue q₁ q₂ max hne =>
      rw [moveTo_waitQueues]
      split_ifs with hq₂ hq₁
      · subst hq₂
        exact .inl (mem_append_left _ hp)
      · subst hq₁
        rw [← firstOf_append_drop s q (some max), mem_append] at hp
        exact hp.symm.imp_right fun hfirst => .inl ⟨_, rfl, hfirst⟩
      · exact .inl hp
  · cases hdoes with
    | futex hsame _ =>
      rw [hsame.waitQueues]
      exact .inl hp
    | sleep | setState | exitKept | exitState | yield | ret => exact .inl hp
    | removeSelf q' =>
      by_cases hself : p = p'
      · subst hself
        exact .inr (.inr ⟨rfl, q', rfl⟩)
      · rw [removeFrom_waitQueues]
        split_ifs with hq
        · subst hq
          exact .inl (mem_filter.mpr ⟨hp, decide_eq_true hself⟩)
        · exact .inl hp
    | enter q' k =>
      rw [enterQueue_waitQueues]
      split_ifs with hq
      · subst hq
        exact .inl (mem_append_left _ hp)
      · exact .inl hp

lemma StaysIn.step {p : Pid} {q : QueueId} {cfg₀ cfg cfg' : KConfig} {move : KMove}
    (h : StaysIn p q cfg₀ cfg) (hstacks : StacksOk cfg)
    (hlog : ∃ l, cfg.shared.log = cfg₀.shared.log ++ l)
    (hstep : kernelMachine.step cfg move = some cfg') : StaysIn p q cfg₀ cfg' := by
  obtain ⟨l₀, hl₀⟩ := hlog
  have hnoted : ∀ {n : Note}, cfg'.shared.log = cfg.shared.log ++ [n] → n.concerns p →
      StaysIn p q cfg₀ cfg' := by
    intro n hn hconcerns
    refine .inr (.inr ⟨l₀ ++ [n], by rw [hn, hl₀, append_assoc], n, ?_, hconcerns⟩)
    exact mem_append_right _ mem_cons_self
  rcases h with hin | hleaves | ⟨l, hl, n, hn, hconcerns⟩
  · cases move with
    | call a c =>
      obtain ⟨is, -, -, rfl⟩ := Machine.step_call hstep
      exact .inl hin
    | act a x =>
      obtain ⟨i, rest, s, more, hstack, hexec, rfl⟩ := Machine.step_act hstep
      rcases queue_of_exec hexec hin with hin | ⟨n, hn, hconcerns⟩ | ⟨rfl, q', rfl⟩
      · exact .inl hin
      · exact hnoted hn hconcerns
      · -- the process removes its entry at the end of its sleep
        have hcode := hstacks.code (.proc p) ⟨_, by rw [hstack]; exact mem_cons_self, rfl⟩
        have hexec' : exec cfg.shared (.proc p) (.own (.removeSelf q')) x = some (s, more) := hexec
        obtain ⟨j, l, hj, -⟩ | ⟨p', j, -, hj, -, hdoes⟩ := exec_cases hexec'
        · cases hj
        cases hj
        refine .inr (.inl ?_)
        dsimp only
        rw [update_self]
        rw [hstack] at hcode
        cases hdoes with
        | sleep hstep | futex _ hstep => cases hstep
        | removeSelf =>
          cases hcode with
          | ready => exact ⟨_, .inl rfl⟩
          | interrupted => exact ⟨_, .inr rfl⟩
    | world e =>
      obtain ⟨s, hworld, rfl⟩ := Machine.step_world hstep
      refine .inl ?_
      rwa [(world_keeps hworld).1]
  · obtain ⟨r, hr⟩ := hleaves
    cases move with
    | call a c =>
      obtain ⟨is, hstack, -, rfl⟩ := Machine.step_call hstep
      refine .inr (.inl ⟨r, ?_⟩)
      dsimp only
      by_cases ha : Agent.proc p = a
      · subst ha
        rw [hstack] at hr
        rcases hr with hr | hr <;> cases hr
      · rwa [update_of_ne ha]
    | act a x =>
      obtain ⟨i, rest, s, more, hstack, hexec, rfl⟩ := Machine.step_act hstep
      by_cases ha : Agent.proc p = a
      · subst ha
        obtain ⟨j, l, rfl, rfl, -⟩ | ⟨p', j, hp, rfl, -, hdoes⟩ := exec_cases hexec
        · rw [hstack] at hr
          rcases hr with hr | hr <;> cases hr
        cases hp
        rw [hstack] at hr
        rcases hr with hr | hr
        · cases hr
          cases hdoes with
          | sleep hstep | futex _ hstep => cases hstep
          | setState =>
            refine .inr (.inl ⟨r, .inr ?_⟩)
            dsimp only
            rw [update_self]
            rfl
        · cases hr
          cases hdoes with
          | sleep hstep | futex _ hstep => cases hstep
          | ret => exact hnoted rfl rfl
      · refine .inr (.inl ⟨r, ?_⟩)
        dsimp only
        rwa [update_of_ne ha]
    | world e =>
      obtain ⟨s, -, rfl⟩ := Machine.step_world hstep
      exact .inr (.inl ⟨r, hr⟩)
  · obtain ⟨l', hl', -⟩ := step_log hstep
    refine .inr (.inr ⟨l ++ l', by rw [hl', hl, append_assoc], n, ?_, hconcerns⟩)
    exact mem_append_left _ hn

lemma StaysIn.path (hstacks : StacksOk cfg) (hpath : kernelMachine.Path ok cfg moves cfg')
    (hp : p ∈ (cfg.shared.waitQueues q).queue) :
    StaysIn p q cfg cfg' := by
  suffices hboth : StaysIn p q cfg cfg' ∧ ∃ l, cfg'.shared.log = cfg.shared.log ++ l from hboth.1
  induction hpath with
  | nil => exact ⟨.inl hp, [], by rw [append_nil]⟩
  | snoc hpath _ hstep ih =>
    obtain ⟨hstays, l, hl⟩ := ih
    obtain ⟨l', hl', -⟩ := step_log hstep
    exact ⟨hstays.step (stacksOk_of_runs hpath.runs hstacks) ⟨l, hl⟩ hstep, l ++ l',
      by rw [hl', hl, append_assoc]⟩

/-- A waiter that was counted as woken: it has returned 0, or has made less than four steps
of its own, needs no further wake and can go on whenever a processor runs it. -/
def Served (p : Pid) (cfg : KConfig) (moves : List KMove) (cfg' : KConfig) : Prop :=
  ReturnsZero p cfg cfg' ∨ NotReturned p cfg cfg' ∧ moves.countP (isStepOf p) < 4 ∧
    (cfg'.shared.state p = .blockedSignalable → Owed cfg' p) ∧
    ∀ x, (Agent.proc p).runsOn cfg'.shared x.cpu = true →
      ∃ cfg'', kernelMachine.step cfg' (.act (.proc p) x) = some cfg''

/-- In a run in which waiters leave no entries behind, and those that are taken off the
queue of a futex find their word changed, every waiter that a futex call takes and counts
returns 0 without a further wake, and every waiter that it moves stays in the queue of the
second address. -/
theorem futex_waiters_served {cfg₀ cfg₁ cfg₂ cfg₃ : KConfig} {moves : List KMove} {p : Pid}
    {a : Agent} {x : Choice} {i : Instr} {rest : List Instr} (hboot : Boot cfg₀)
    (hbefore : kernelMachine.Runs (fun cfg move => LeavesClean cfg move ∧ Heard cfg move)
      cfg₀ cfg₁)
    (hheard : Heard cfg₁ (.act a x)) (hstack : cfg₁.stack a = i :: rest)
    (hstep : kernelMachine.step cfg₁ (.act a x) = some cfg₂)
    (hafter : kernelMachine.Path (fun cfg move => LeavesClean cfg move ∧ Heard cfg move)
      cfg₂ moves cfg₃) :
    (∀ addr max, i = .any (.take (.futex addr) max) →
        p ∈ cfg₁.shared.firstOf (.futex addr) max → Served p cfg₂ moves cfg₃) ∧
      ∀ q addr max, i = .any (.requeue q (.futex addr) max) →
        p ∈ cfg₁.shared.firstOf q (some max) → StaysIn p (.futex addr) cfg₂ cfg₃ := by
  have hnext : kernelMachine.Runs Heard cfg₁ cfg₂ := .single ⟨_, hheard, hstep⟩
  have hstacks₁ := stacksOk_of_runs hbefore hboot.orderly.fine
  have hstacks₂ := stacksOk_of_runs hnext hstacks₁
  constructor
  · rintro addr max rfl hp
    have hentries := entriesOk_of_runs hboot (hbefore.mono fun _ _ hok => hok.1)
    obtain ⟨n, hn, hret⟩ := Returning.taken hentries hstacks₁ hheard hstack hstep hp
    rcases hret.path hstacks₂ (hafter.mono fun _ _ hok => hok.2) with hdone | ⟨hnot, n', hn', hret⟩
    · exact .inl hdone
    · refine .inr ⟨hnot, ?_, hret.resumed, fun x => hret.enabled⟩
      have hpos := hret.code.pos
      omega
  · rintro q addr max rfl hp
    have hmoved : p ∈ (cfg₂.shared.waitQueues (.futex addr)).queue := by
      obtain ⟨i, rest', s, more, hstack', hexec, rfl⟩ := Machine.step_act hstep
      obtain ⟨rfl, rfl⟩ := cons.inj (hstack.symm.trans hstack')
      have hexec' : exec cfg₁.shared a (.any (.requeue q (.futex addr) max)) x =
          some (s, more) := hexec
      obtain ⟨j, l, hj, rfl, hdoes⟩ | ⟨p', j, -, hj, -⟩ := exec_cases hexec'
      · cases hj
        cases hdoes with
        | decides _ hdecides => cases hdecides
        | requeue =>
          rw [moveTo_waitQueues, if_pos rfl]
          exact mem_append_right _ hp
      · cases hj
    exact StaysIn.path hstacks₂ hafter hmoved

/-- Moves that neither come at the end of a sleep nor take waiters of a futex. -/
def takesNoFutex (cfg : KConfig) (move : KMove) : Bool :=
  notAtEnd cfg move && match move with
    | .act a _ =>
      match cfg.stack a with
      | .any (.take (.futex _) _) :: _ => false
      | .own (.woken (.futex _) _) :: _ => false
      | _ => true
    | _ => true

lemma heard_of_takesNoFutex (cfg : KConfig) (move : KMove) (h : takesNoFutex cfg move = true) :
    LeavesClean cfg move ∧ Heard cfg move := by
  obtain ⟨hend, htake⟩ := Bool.and_eq_true_iff.mp h
  refine ⟨leavesClean_of_notAtEnd cfg move hend, ?_⟩
  cases move with
  | act a x =>
    dsimp only at htake
    rw [Heard]
    split at htake
    · cases htake
    · cases htake
    · trivial
  | call | world => trivial

/-- The instruction takes a waiter of the futex at 4096. -/
def Instr.takesOne : Instr → Bool
  | .any (.take (.futex addr) max) => addr = 4096 && max = some 1
  | _ => false

def Instr.readsAgain : Instr → Bool
  | .own (.woken (.futex _) _) => true
  | _ => false

/-- A thread changes the word and wakes the waiter, which then runs again. -/
theorem futex_waiters_served_two_threads : ∃ cfg₂ moves cfg₃,
    Note.woke (.proc 2) (.futex 4096) [1] ∈ cfg₂.shared.log ∧
      cfg₃.shared.cpus 0 = ⟨some 1, .run⟩ ∧ Served 1 cfg₂ moves cfg₃ := by
  have hplay : ((kernelMachine.play takesNoFutex bootConfig
      (startOn 0 1 ++ [.call (.proc 1) (.futex 4096 futexWaitCmd 0 0 0 0)] ++
        replicate 6 (actOn 0 1 .notYet) ++ switchTo 0 ++
        [.world (.spawn 2 (some 1) 1), .world (.preempt 1)] ++ switchTo 1 ++
        [.world (.store 1 4096 (some 1)), .call (.proc 2) (.futex 4096 futexWakeCmd 1 0 0 0)] ++
        replicate 2 (actOn 1 2 .notYet))).any fun cfg₁ =>
      (cfg₁.stack (.proc 2)).head?.any takesOne &&
        (cfg₁.shared.firstOf (.futex 4096) (some 1) = [1] &&
        ((cfg₁.stack (.proc 1)).any readsAgain &&
        (kernelMachine.step cfg₁ (actOn 1 2 .notYet)).any fun cfg₂ =>
          Note.woke (.proc 2) (.futex 4096) [1] ∈ cfg₂.shared.log &&
          (kernelMachine.play takesNoFutex cfg₂ (replicate 3 (actOn 1 2 .notYet) ++
            [.world (.preempt 0)] ++ switchTo 0)).any fun cfg₃ =>
            cfg₃.shared.cpus 0 = ⟨some 1, .run⟩))) = true := by decide +kernel
  obtain ⟨cfg₁, hbefore, hplay⟩ := (Option.any_eq_true _ _).mp hplay
  obtain ⟨htop, hplay⟩ := Bool.and_eq_true_iff.mp hplay
  obtain ⟨hfirst, hplay⟩ := Bool.and_eq_true_iff.mp hplay
  obtain ⟨hreads, hplay⟩ := Bool.and_eq_true_iff.mp hplay
  obtain ⟨cfg₂, hstep, hplay⟩ := (Option.any_eq_true _ _).mp hplay
  obtain ⟨hwoke, hplay⟩ := Bool.and_eq_true_iff.mp hplay
  obtain ⟨cfg₃, hafter, hend⟩ := (Option.any_eq_true _ _).mp hplay
  obtain ⟨i, hi, htakes⟩ := (Option.any_eq_true _ _).mp htop
  obtain ⟨rest, hstack⟩ := head?_eq_some_iff.mp hi
  rw [takesOne.eq_def] at htakes
  split at htakes
  swap
  · cases htakes
  obtain ⟨haddr, hmax⟩ := Bool.and_eq_true_iff.mp htakes
  obtain rfl := of_decide_eq_true haddr
  obtain rfl := of_decide_eq_true hmax
  have hheard : Heard cfg₁ (actOn 1 2 .notYet) := by
    rw [actOn, Heard, hstack]
    intro p hp
    rw [of_decide_eq_true hfirst, mem_singleton] at hp
    subst hp
    obtain ⟨j, hj, hreads⟩ := any_eq_true.mp hreads
    rw [readsAgain.eq_def] at hreads
    split at hreads
    · exact .inl ⟨_, _, .inr hj⟩
    · cases hreads
  refine ⟨cfg₂, _, cfg₃, of_decide_eq_true hwoke, of_decide_eq_true hend,
    (futex_waiters_served boot_bootConfig (Machine.runs_of_play heard_of_takesNoFutex hbefore)
      hheard hstack hstep (Machine.path_of_play heard_of_takesNoFutex hafter)).1 4096 (some 1)
      rfl ?_⟩
  rw [of_decide_eq_true hfirst]
  exact mem_cons_self

/-- FUTEX_WAKE counts a waiter whose word has not changed. The waiter runs, goes back into
the queue and sleeps again. -/
theorem counted_waiter_sleeps_again : ∃ cfg,
    kernelMachine.Runs (fun _ _ => True) bootConfig cfg ∧
      Note.woke (.proc 2) (.futex 4096) [1] ∈ cfg.shared.log ∧
      Note.returned 2 (.ok 1) ∈ cfg.shared.log ∧
      (∀ r, Note.returned 1 r ∉ cfg.shared.log) ∧
      cfg.shared.state 1 = .blockedSignalable ∧
      1 ∈ (cfg.shared.waitQueues (.futex 4096)).queue ∧ cfg.stack (.proc 2) = [] := by
  obtain ⟨cfg, hruns, hwoke, hcounted, hnone, hrest⟩ : ∃ cfg,
      kernelMachine.Runs (fun _ _ => True) bootConfig cfg ∧
      Note.woke (.proc 2) (.futex 4096) [1] ∈ cfg.shared.log ∧
      Note.returned 2 (.ok 1) ∈ cfg.shared.log ∧
      (cfg.shared.log.all fun n => match n with
        | .returned p _ => p ≠ 1
        | _ => true) = true ∧
      cfg.shared.state 1 = .blockedSignalable ∧
      1 ∈ (cfg.shared.waitQueues (.futex 4096)).queue ∧ cfg.stack (.proc 2) = [] :=
    Machine.exists_runs_of_play (fun _ _ => true) (fun _ _ _ => trivial)
    (startOn 0 1 ++ [.call (.proc 1) (.futex 4096 futexWaitCmd 0 0 0 0)] ++
      replicate 6 (actOn 0 1 .notYet) ++ switchTo 0 ++
      [.world (.spawn 2 (some 1) 1), .world (.preempt 1)] ++ switchTo 1 ++
      [.call (.proc 2) (.futex 4096 futexWakeCmd 1 0 0 0)] ++
      replicate 8 (actOn 1 2 .notYet) ++ [.world (.preempt 0)] ++ switchTo 0 ++
      replicate 6 (actOn 0 1 .notYet) ++ switchTo 0) (by decide +kernel)
  refine ⟨cfg, hruns, hwoke, hcounted, fun r hr => ?_, hrest⟩
  exact of_decide_eq_true (all_eq_true.mp hnone _ hr) rfl

end Kevlar.Sched
