import Kevlar.MachineWord
import Kevlar.StepRuns

/-!
# The timers of the timer interrupt

`handle_timer_irq` counts down the sleeping processes of `TIMERS` and fires the
interval timers of `REAL_TIMERS`. Both lists name a process only. An entry of
`TIMERS` is not removed when a signal ends its sleep early, and a pass over
`REAL_TIMERS` notes its expirations in a single variable.
-/
namespace Kevlar

open Function List

namespace SleepTimers

def tickHz : ℕ := 100

/-- The process is an `Arc<Process>`: processes are numbered and a number is
never used again. -/
structure Timer where
  current : ℕ
  process : ℕ

inductive ProcessState
  | runnable
  | blockedSignalable
  | exited
  deriving DecidableEq

/-- `expired` holds the processes that some CPU has taken out of `timers` and
has yet to resume. `owed p` is the number of ticks that the call of `_sleep_ms`
that `p` is in has still to wait, none after a signal. -/
structure State where
  timers : List Timer
  expired : List ℕ
  states : ℕ → ProcessState
  owed : ℕ → Option ℕ

def boot : State := ⟨[], [], fun _ => .runnable, fun _ => none⟩

/-- The ticks of `_sleep_ms`, computed in a `usize`. -/
def sleepTicks (ms : ℕ) : ℕ := wadd (ms * tickHz % 2 ^ 64) 999 / 1000

/-- `resume` and `resume_boosted`. -/
def State.resume (s : State) (p : ℕ) : State :=
  { s with states := if s.states p = .exited then s.states else update s.states p .runnable }

inductive Event
  | sleepMs (p : ℕ) (ms : ℕ)
  | tick
  | resume (p : ℕ)
  | signal (p : ℕ)
  | wake (p : ℕ)
  | exit (p : ℕ)

/-- The interrupt takes the expired timers out under the lock of `TIMERS` and
resumes their processes after its release, so other steps may come between. -/
def step (s : State) : Event → Option State
  | .sleepMs p ms =>
    if s.states p = .runnable ∧ s.owed p = none then
      some { s with
        timers := s.timers ++ [⟨sleepTicks ms, p⟩]
        states := update s.states p .blockedSignalable
        owed := update s.owed p (some ((ms * tickHz + 999) / 1000)) }
    else none
  | .tick =>
    let timers := s.timers.map fun t => { t with current := t.current - 1 }
    some { s with
      timers := timers.filter (·.current ≠ 0)
      expired := s.expired ++ (timers.filter (·.current = 0)).map Timer.process
      owed := fun p => (s.owed p).map (· - 1) }
  | .resume p =>
    if p ∈ s.expired then some { s.resume p with expired := s.expired.erase p } else none
  | .signal p =>
    some { s.resume p with owed := update s.owed p ((s.owed p).map fun _ => 0) }
  | .wake p =>
    if s.states p = .runnable then some { s with owed := update s.owed p none } else none
  | .exit p => some { s with states := update s.states p .exited }

/-- No timer of an earlier sleep is left when a process goes to sleep, and the
product of its argument does not wrap. -/
def Fresh (s : State) : Event → Prop
  | .sleepMs p ms =>
    (∀ t ∈ s.timers, t.process ≠ p) ∧ p ∉ s.expired ∧ ms * tickHz + 999 < 2 ^ 64
  | _ => True

/-- A process that has ticks to wait is blocked and nothing wakes it before. -/
def Waits (s : State) : Prop :=
  ∀ p n, s.owed p = some (n + 1) → s.states p ≠ .runnable ∧ p ∉ s.expired ∧
    ∀ t ∈ s.timers, t.process = p → n < t.current

lemma resume_states_of_ne {s : State} {p q : ℕ} (h : p ≠ q) :
    (s.resume q).states p = s.states p := by
  dsimp only [State.resume]
  split_ifs
  · rfl
  · exact update_of_ne h _ _

lemma Waits.step {s s' : State} {e : Event} (h : Waits s) (hfresh : Fresh s e)
    (hstep : step s e = some s') : Waits s' := by
  intro p n howed
  cases e with
  | sleepMs q ms =>
    simp only [SleepTimers.step, Option.ite_none_right_eq_some, Option.some.injEq] at hstep
    obtain ⟨-, rfl⟩ := hstep
    obtain ⟨htimers, hexpired, hms⟩ := hfresh
    by_cases hp : p = q
    · subst hp
      simp only [update_self, Option.some.injEq] at howed
      refine ⟨by simp, hexpired, ?_⟩
      intro t ht hpt
      rcases mem_append.mp ht with hold | hnew
      · exact absurd hpt (htimers t hold)
      · rw [mem_singleton.mp hnew]
        change n < sleepTicks ms
        rw [sleepTicks, Nat.mod_eq_of_lt (by omega), wadd_of_lt hms]
        omega
    · simp only [update_of_ne hp] at howed ⊢
      obtain ⟨hstate, hout, hlater⟩ := h p n howed
      refine ⟨hstate, hout, ?_⟩
      intro t ht hpt
      rcases mem_append.mp ht with hold | hnew
      · exact hlater t hold hpt
      · rw [mem_singleton.mp hnew] at hpt
        exact absurd hpt.symm hp
  | tick =>
    cases hstep
    obtain ⟨k, hk, hkn⟩ := Option.map_eq_some_iff.mp howed
    obtain ⟨hstate, hout, hlater⟩ := h p (n + 1) (by rw [hk]; congr 1; omega)
    refine ⟨hstate, ?_, ?_⟩
    · simp only [mem_append, mem_map, mem_filter, decide_eq_true_eq]
      rintro (hp | ⟨t, ⟨⟨u, hu, rfl⟩, hzero⟩, hpt⟩)
      · exact hout hp
      · have := hlater u hu hpt
        dsimp only at hzero
        omega
    · intro t ht hpt
      obtain ⟨u, hu, rfl⟩ := mem_map.mp (mem_filter.mp ht).1
      have := hlater u hu hpt
      dsimp only
      omega
  | resume q =>
    simp only [SleepTimers.step, Option.ite_none_right_eq_some, Option.some.injEq] at hstep
    obtain ⟨hq, rfl⟩ := hstep
    obtain ⟨hstate, hout, hlater⟩ := h p n howed
    have hp : p ≠ q := fun hpq => hout (hpq ▸ hq)
    refine ⟨?_, fun hin => hout (mem_of_mem_erase hin), hlater⟩
    rwa [resume_states_of_ne hp]
  | signal q =>
    cases hstep
    by_cases hp : p = q
    · subst hp
      simp at howed
    · simp only [update_of_ne hp] at howed
      obtain ⟨hstate, hout, hlater⟩ := h p n howed
      refine ⟨?_, hout, hlater⟩
      rwa [resume_states_of_ne hp]
  | wake q =>
    simp only [SleepTimers.step, Option.ite_none_right_eq_some, Option.some.injEq] at hstep
    obtain ⟨-, rfl⟩ := hstep
    by_cases hp : p = q
    · subst hp
      simp at howed
    · simp only [update_of_ne hp] at howed
      exact h p n howed
  | exit q =>
    cases hstep
    obtain ⟨hstate, hout, hlater⟩ := h p n howed
    refine ⟨?_, hout, hlater⟩
    by_cases hp : p = q
    · subst hp
      simp
    · simpa only [update_of_ne hp] using hstate

/-- In every run whose sleeps all start with no timer of the caller left, a
process that can return from `_sleep_ms` has waited all its ticks, unless a
signal was sent to it. -/
theorem owed_of_runnable {s : State} (h : Reached step Fresh boot s) {p : ℕ} {n : ℕ}
    (howed : s.owed p = some n) (hrun : s.states p = .runnable) : n = 0 := by
  have hwaits : Waits s := by
    refine h.invariant ?_ fun _ _ _ hw hfresh hstep => hw.step hfresh hstep
    intro p n howed
    cases howed
  cases n with
  | zero => rfl
  | succ n => exact absurd hrun (hwaits p n howed).1

theorem owed_of_runnable_ten : ∃ s n, Reached step Fresh boot s ∧ s.owed 1 = some n ∧ n = 0 := by
  have hsleep : Fresh boot (.sleepMs 1 10) := ⟨forall_mem_nil _, not_mem_nil, by decide⟩
  have hasleep : Reached step Fresh boot _ := Reached.start.next hsleep rfl
  have htick := hasleep.next (show Fresh _ .tick from trivial) rfl
  have hresume := htick.next (show Fresh _ (.resume 1) from trivial) rfl
  exact ⟨_, _, hresume, rfl, owed_of_runnable (p := 1) hresume rfl rfl⟩

/-- A sleep of 10 ms that a signal ends at once leaves its timer behind, which
ends the next sleep of 20 ms after one tick. -/
theorem stale_timer_ends_sleep : ∃ s, Reached step (fun _ _ => True) boot s ∧
    s.states 1 = .runnable ∧ s.owed 1 = some 1 :=
  ⟨_, Reached.start.play [.sleepMs 1 10, .signal 1, .wake 1, .sleepMs 1 20, .tick, .resume 1] rfl,
    by decide⟩

end SleepTimers

namespace RealTimers

/-- `PId`, an `i32`. -/
abbrev PId := Fin (2 ^ 32)

structure RealTimer where
  pid : PId
  deadlineNs : ℕ
  deriving DecidableEq

/-- `REAL_TIMERS` and `TIMER_COUNT`. -/
structure Timers where
  realTimers : List RealTimer
  timerCount : ℕ
  deriving DecidableEq

inductive Errno
  | ENOSYS
  | EFAULT

structure ITimerVal where
  intervalSec : ℤ
  intervalUsec : ℤ
  valueSec : ℤ
  valueUsec : ℤ

/-- The exact length of a `timeval`, of which `timeval_to_ns` keeps 64 bits. -/
def nanoseconds (sec usec : ℤ) : ℤ := sec * 1000000000 + usec * 1000

def timevalToNs (sec usec : ℤ) : ℕ := (nanoseconds sec usec % 2 ^ 64).toNat

/-- `Vec::retain` with a closure that notes the last timer it drops. The count
goes down by one if there is such a timer. -/
def Timers.retain (s : Timers) (drop : RealTimer → Bool) : Timers × Option RealTimer :=
  let dropped := (s.realTimers.filter drop).getLast?
  ({ realTimers := s.realTimers.filter (!drop ·)
     timerCount := if dropped.isSome then wsub s.timerCount 1 else s.timerCount }, dropped)

def Timers.push (s : Timers) (t : RealTimer) : Timers :=
  ⟨s.realTimers ++ [t], wadd s.timerCount 1⟩

/-- The processes that get SIGALRM come with the new state. `findByPid` says
which processes exist. -/
def tickRealTimers (now : ℕ) (findByPid : PId → Bool) (s : Timers) : Timers × List PId :=
  if s.timerCount = 0 then (s, [])
  else
    let r := s.retain (·.deadlineNs ≤ now)
    (r.1, (r.2.toList.map RealTimer.pid).filter findByPid)

def remainingNs (now : ℕ) (old : Option RealTimer) : ℕ :=
  (old.map fun t => t.deadlineNs - now).getD 0

def ITimerVal.ofNs (ns : ℕ) : ITimerVal := ⟨0, 0, ns / 1000 / 1000000, ns / 1000 % 1000000⟩

/-- The user memory answers whether a store of the old value succeeds, and what
a read of the new one gives. -/
def sysSetitimer (pid : PId) (now : ℕ) (which : ℤ) (newValue : Option (Option ITimerVal))
    (oldValue : Option (ITimerVal → Bool)) (s : Timers) : Timers × Except Errno ℕ :=
  if which ≠ 0 then (s, .error .ENOSYS)
  else
    let r := s.retain (·.pid = pid)
    if (oldValue.map fun write => write (.ofNs (remainingNs now r.2))) = some false then
      (r.1, .error .EFAULT)
    else match newValue with
      | none => (r.1, .ok 0)
      | some none => (r.1, .error .EFAULT)
      | some (some itv) =>
        let intervalNs := timevalToNs itv.valueSec itv.valueUsec
        (if 0 < intervalNs then r.1.push ⟨pid, wadd now intervalNs⟩ else r.1, .ok 0)

def sysAlarm (pid : PId) (now seconds : ℕ) (s : Timers) : Timers × ℕ :=
  let r := s.retain (·.pid = pid)
  (if 0 < seconds then r.1.push ⟨pid, wadd now (seconds * 1000000000 % 2 ^ 64)⟩ else r.1,
    wadd (remainingNs now r.2) 999999999 / 1000000000)

inductive Event
  | setitimer (pid : PId) (now : ℕ) (which : ℤ) (newValue : Option (Option ITimerVal))
      (oldValue : Option (ITimerVal → Bool))
  | alarm (pid : PId) (now seconds : ℕ)
  | tick (now : ℕ) (findByPid : PId → Bool)

def Event.exec : Event → Timers → Timers
  | .setitimer pid now which newValue oldValue, s =>
    (sysSetitimer pid now which newValue oldValue s).1
  | .alarm pid now seconds, s => (sysAlarm pid now seconds s).1
  | .tick now findByPid, s => (tickRealTimers now findByPid s).1

/-- The deadline that the new value of `setitimer` asks for. -/
def asked (now : ℕ) : Option (Option ITimerVal) → Option ℕ
  | some (some itv) =>
    let ns := nanoseconds itv.valueSec itv.valueUsec
    if 0 < ns then some (now + ns.toNat) else none
  | _ => none

/-- The deadlines that the processes have asked for, until the first tick at or
after each. A call that fails asks for nothing. -/
def Event.request (s : Timers) (r : PId → Option ℕ) : Event → PId → Option ℕ
  | .setitimer pid now which newValue oldValue =>
    match (sysSetitimer pid now which newValue oldValue s).2 with
    | .ok _ => update r pid (asked now newValue)
    | .error _ => r
  | .alarm pid now seconds =>
    update r pid (if 0 < seconds then some (now + seconds * 1000000000) else none)
  | .tick now _ => fun p => (r p).filter (now < ·)

def step (s : Timers × (PId → Option ℕ)) (e : Event) : Option (Timers × (PId → Option ℕ)) :=
  some (e.exec s.1, e.request s.1 s.2)

/-- At most one timer is due at a tick, the user memory that a call names is
mapped and no deadline is past the range of the clock. -/
def Orderly (s : Timers × (PId → Option ℕ)) : Event → Prop
  | .setitimer pid now which newValue oldValue =>
    (which = 0 → newValue ≠ some none ∧ ∀ write, oldValue = some write →
      write (.ofNs (remainingNs now (s.1.retain (·.pid = pid)).2)) = true) ∧
      ∀ itv, newValue = some (some itv) → 0 ≤ nanoseconds itv.valueSec itv.valueUsec ∧
        now + nanoseconds itv.valueSec itv.valueUsec < 2 ^ 64
  | .alarm _ now seconds => now + seconds * 1000000000 < 2 ^ 64
  | .tick now _ => (s.1.realTimers.filter (·.deadlineNs ≤ now)).length ≤ 1

/-- The list holds one timer for each requested deadline, and the count is the
length of the list. -/
structure Synced (s : Timers) (r : PId → Option ℕ) : Prop where
  count : s.timerCount = s.realTimers.length
  nodup : (s.realTimers.map RealTimer.pid).Nodup
  mem : ∀ p d, ⟨p, d⟩ ∈ s.realTimers ↔ r p = some d

variable {s : Timers} {r : PId → Option ℕ}

lemma Synced.length_le (h : Synced s r) : s.realTimers.length ≤ 2 ^ 32 := by
  have hcard := h.nodup.length_le_card
  rwa [length_map, Fintype.card_fin] at hcard

lemma length_filter_add (l : List RealTimer) (drop : RealTimer → Bool) :
    (l.filter drop).length + (l.filter (!drop ·)).length = l.length := by
  rw [← countP_eq_length_filter, ← countP_eq_length_filter]
  simpa using (length_eq_countP_add_countP drop).symm

lemma toList_retain {drop : RealTimer → Bool} (hone : (s.realTimers.filter drop).length ≤ 1) :
    (s.retain drop).2.toList = s.realTimers.filter drop := by
  change (s.realTimers.filter drop).getLast?.toList = _
  match hl : s.realTimers.filter drop, hone with
  | [], _ | [t], _ => rfl

section

variable (h : Synced s r)
include h

/-- A pass that drops at most one timer adjusts the count as it should. -/
lemma Synced.retain {drop : RealTimer → Bool} (hone : (s.realTimers.filter drop).length ≤ 1) :
    Synced (s.retain drop).1 fun p => (r p).filter fun d => !drop ⟨p, d⟩ where
  count := by
    have hsum := length_filter_add s.realTimers drop
    have hlen := h.length_le
    change (if (s.realTimers.filter drop).getLast?.isSome then wsub s.timerCount 1
      else s.timerCount) = (s.realTimers.filter (!drop ·)).length
    rw [h.count]
    match hl : s.realTimers.filter drop, hone with
    | [], _ =>
      rw [hl] at hsum
      simpa using hsum.symm
    | [t], _ =>
      rw [hl, length_singleton] at hsum
      rw [getLast?_singleton, Option.isSome_some, if_pos rfl, wsub_of_le (by omega) (by omega)]
      omega
  nodup := h.nodup.sublist (filter_sublist.map _)
  mem p d := by
    change _ ∈ s.realTimers.filter (!drop ·) ↔ _
    rw [mem_filter, h.mem, Option.filter_eq_some_iff]

lemma Synced.cancel (pid : PId) :
    Synced (s.retain (·.pid = pid)).1 (update r pid none) := by
  have hone : (s.realTimers.filter (·.pid = pid)).length ≤ 1 := by
    have hcount := nodup_iff_count_le_one.mp h.nodup pid
    rw [count_eq_countP, countP_map, countP_eq_length_filter] at hcount
    exact hcount
  convert h.retain hone using 1
  funext p
  by_cases hp : p = pid
  · subst hp
    simp
  · simp only [update_of_ne hp, hp, decide_false, Bool.not_false]
    cases r p <;> rfl

lemma Synced.arm (pid : PId) (d : ℕ) :
    Synced ((s.retain (·.pid = pid)).1.push ⟨pid, d⟩) (update r pid (some d)) := by
  have hc := h.cancel pid
  generalize (s.retain (·.pid = pid)).1 = u at hc
  have hnone : ∀ t ∈ u.realTimers, t.pid ≠ pid := by
    intro t ht hpid
    have := (hc.mem t.pid t.deadlineNs).mp ht
    rw [hpid, update_self] at this
    cases this
  refine ⟨?_, ?_, ?_⟩
  · have hlen := hc.length_le
    change wadd u.timerCount 1 = (u.realTimers ++ [_]).length
    rw [hc.count, wadd_of_lt (by omega), length_append, length_singleton]
  · change ((u.realTimers ++ [_]).map _).Nodup
    rw [map_append, nodup_append]
    refine ⟨hc.nodup, nodup_singleton _, ?_⟩
    intro a ha b hb
    obtain ⟨t, ht, rfl⟩ := mem_map.mp ha
    rw [mem_singleton.mp hb]
    exact hnone t ht
  · intro p e
    change _ ∈ u.realTimers ++ [_] ↔ _
    rw [mem_append, mem_singleton, hc.mem]
    by_cases hp : p = pid
    · subst hp
      simp [eq_comm]
    · simp [hp]

/-- With nothing registered the fast path does what the pass would do. -/
lemma Synced.tick_eq (now : ℕ) (findByPid : PId → Bool) :
    tickRealTimers now findByPid s = ((s.retain (·.deadlineNs ≤ now)).1,
      ((s.retain (·.deadlineNs ≤ now)).2.toList.map RealTimer.pid).filter findByPid) := by
  unfold tickRealTimers
  split_ifs with hzero
  · obtain ⟨timers, count⟩ := s
    have hnil := h.count
    rw [hzero] at hnil
    cases eq_nil_of_length_eq_zero hnil.symm
    cases hzero
    rfl
  · rfl

lemma Synced.next {e : Event} (hok : Orderly (s, r) e) : Synced (e.exec s) (e.request s r) := by
  cases e with
  | setitimer pid now which newValue oldValue =>
    obtain ⟨hmapped, hrange⟩ := hok
    simp only [Event.exec, Event.request, sysSetitimer]
    split_ifs with hwhich hwrite
    · exact h
    · obtain ⟨write, hold, hfails⟩ := Option.map_eq_some_iff.mp hwrite
      rw [(hmapped (not_not.mp hwhich)).2 write hold] at hfails
      cases hfails
    · match newValue with
      | none => exact h.cancel pid
      | some none => exact absurd rfl (hmapped (not_not.mp hwhich)).1
      | some (some itv) =>
        obtain ⟨hpos, hlt⟩ := hrange itv rfl
        have hns : timevalToNs itv.valueSec itv.valueUsec =
            (nanoseconds itv.valueSec itv.valueUsec).toNat := by
          rw [timevalToNs, Int.emod_eq_of_lt hpos (by omega)]
        simp only [asked, hns]
        split_ifs with ha hb hb
        · rw [wadd_of_lt (by omega)]
          exact h.arm pid _
        · omega
        · omega
        · exact h.cancel pid
  | alarm pid now seconds =>
    simp only [Event.exec, Event.request, sysAlarm]
    have hrange : now + seconds * 1000000000 < 2 ^ 64 := hok
    split_ifs
    · rw [Nat.mod_eq_of_lt (by omega), wadd_of_lt hrange]
      exact h.arm pid _
    · exact h.cancel pid
  | tick now findByPid =>
    simp only [Event.exec, Event.request, h.tick_eq]
    convert h.retain hok using 1
    funext p
    congr 1
    funext d
    rw [← decide_not, decide_eq_decide]
    exact not_le.symm

end

/-- In every run whose calls and ticks are orderly the count is right, and an
orderly tick sends SIGALRM once to each process whose deadline has come and to
no other. -/
theorem reached_fires {u : Timers × (PId → Option ℕ)}
    (h : Reached step Orderly (⟨[], 0⟩, fun _ => none) u) :
    u.1.timerCount = u.1.realTimers.length ∧ ∀ now findByPid, Orderly u (.tick now findByPid) →
      ∀ p, (tickRealTimers now findByPid u.1).2.count p =
        if findByPid p ∧ ∃ d ≤ now, u.2 p = some d then 1 else 0 := by
  have hsynced : Synced u.1 u.2 := by
    have hstart : Synced ⟨[], 0⟩ fun _ => none := ⟨rfl, nodup_nil, by simp⟩
    refine Reached.invariant (P := fun u => Synced u.1 u.2) h hstart ?_
    intro v e v' hv hok hstep
    cases hstep
    exact hv.next hok
  refine ⟨hsynced.count, ?_⟩
  intro now findByPid hone p
  rw [hsynced.tick_eq, toList_retain hone]
  have hnodup := (hsynced.nodup.sublist
    (filter_sublist (p := (·.deadlineNs ≤ now))|>.map _)).filter findByPid
  rw [hnodup.count]
  congr 1
  simp only [mem_filter, mem_map, decide_eq_true_eq, eq_iff_iff]
  constructor
  · rintro ⟨⟨t, ⟨ht, hdue⟩, rfl⟩, hfind⟩
    exact ⟨hfind, t.deadlineNs, hdue, (hsynced.mem _ _).mp ht⟩
  · rintro ⟨hfind, d, hdue, hd⟩
    exact ⟨⟨⟨p, d⟩, ⟨(hsynced.mem p d).mpr hd, hdue⟩, rfl⟩, hfind⟩

theorem reached_fires_alarm : ∃ u, Reached step Orderly (⟨[], 0⟩, fun _ => none) u ∧
    (tickRealTimers 2000000000 (fun _ => true) u.1).2.count 2 = 1 := by
  have halarm : Orderly (⟨[], 0⟩, fun _ => none) (.alarm 1 0 1) :=
    show 0 + 1 * 1000000000 < 2 ^ 64 by decide
  have h : Reached step Orderly _ _ := Reached.start.next halarm rfl
  have h := h.next (e := Event.setitimer 2 0 0 (some (some ⟨0, 0, 2, 0⟩)) (some fun _ => true))
    ⟨fun _ => ⟨by simp, fun write hwrite => by cases hwrite; rfl⟩,
      fun itv hitv => by cases hitv; decide⟩ rfl
  have h := h.next (e := Event.tick 1000000000 fun _ => true) (show _ ≤ 1 by decide) rfl
  refine ⟨_, h, ((reached_fires h).2 2000000000 (fun _ => true) (show _ ≤ 1 by decide) 2).trans ?_⟩
  exact if_pos ⟨rfl, 2000000000, le_rfl, rfl⟩

/-- Two alarms for the same second: the tick drops both timers, signals one
process and leaves the count at one. -/
theorem two_alarms_one_signal :
    let u := (sysAlarm 2 0 1 (sysAlarm 1 0 1 ⟨[], 0⟩).1).1
    tickRealTimers 1000000000 (fun _ => true) u = (⟨[], 1⟩, [2]) := by
  decide +kernel

end RealTimers

end Kevlar
