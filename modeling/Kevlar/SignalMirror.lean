import Kevlar.KernelThreads

/-!
# The lock-free mirror of the pending signals

`send_signal` sets the bit of its signal in the locked `SignalDelivery` and, once the lock
is released, in the atomic `signal_pending`. `try_delivering_signal` returns at once when
the mirror is zero; else it takes the lock, takes a signal out and overwrites the mirror
with the bits that are left.
-/
namespace Kevlar.Sched.SignalMirror

open Kernel (signalBit)

/-- Where the process is in `try_delivering_signal`; in `locked` it holds the lock. -/
inductive Delivery
  | outside
  | checked
  | locked (popped : Option Signal)

/-- `sending` are the signals whose sender has released the lock and not yet set the bit
of the mirror. -/
structure Signals where
  pending : BitVec 64
  actions : Signal → SigAction
  sigset : BitVec 64
  signalPending : BitVec 64
  sending : List Signal
  delivery : Delivery

def getAction (s : Signals) (sig : Signal) : SigAction :=
  if sig = 0 ∨ 64 ≤ sig then .ignore else s.actions sig

/-- `pop_pending_unblocked`: every turn clears a bit, so 64 turns are enough. -/
def popPendingUnblocked (blocked : BitVec 64) : ℕ → BitVec 64 → Option Signal × BitVec 64
  | 0, pending => (none, pending)
  | fuel + 1, pending =>
    let deliverable := pending &&& ~~~(blocked &&& ~~~(signalBit sigkill ||| signalBit sigstop))
    match (List.range 64).find? (deliverable.getLsbD ·) with
    | none => (none, pending)
    | some bit =>
      let rest := pending &&& ~~~(1#64 <<< bit)
      if 64 ≤ bit + 1 then popPendingUnblocked blocked fuel rest else (some (bit + 1), rest)

/-- The steps of any number of senders and of the process. An ignored signal and a
return on the fast path leave everything as it is. -/
inductive Step (s : Signals) : Signals → Prop
  | signal (sig : Signal) (hlock : ∀ popped, s.delivery ≠ .locked popped)
      (hqueued : getAction s sig = .ignore → sig = sigkill ∨ sig = sigstop) :
      Step s { s with pending := s.pending ||| signalBit sig, sending := sig :: s.sending }
  | mirror (sig : Signal) (hsent : sig ∈ s.sending) :
      Step s { s with
        signalPending := s.signalPending ||| signalBit sig, sending := s.sending.erase sig }
  | check (hat : s.delivery = .outside) (hne : s.signalPending ≠ 0) :
      Step s { s with delivery := .checked }
  | pop (hat : s.delivery = .checked) :
      Step s { s with
        pending := (popPendingUnblocked s.sigset 64 s.pending).2
        delivery := .locked (popPendingUnblocked s.sigset 64 s.pending).1 }
  | store (popped : Option Signal) (hat : s.delivery = .locked popped) :
      Step s { s with signalPending := s.pending, delivery := .outside }
  | configure (actions : Signal → SigAction) (sigset : BitVec 64) :
      Step s { s with actions := actions, sigset := sigset }

def start (actions : Signal → SigAction) (sigset : BitVec 64) : Signals :=
  ⟨0, actions, sigset, 0, [], .outside⟩

/-- A pending bit is in the mirror or on its way there. -/
def Mirrored (s : Signals) : Prop :=
  ∀ k, s.pending.getLsbD k →
    s.signalPending.getLsbD k ∨ ∃ sig ∈ s.sending, (signalBit sig).getLsbD k

lemma popPendingUnblocked_subset (blocked : BitVec 64) (fuel : ℕ) (pending : BitVec 64) (k : ℕ)
    (h : (popPendingUnblocked blocked fuel pending).2.getLsbD k) : pending.getLsbD k := by
  induction fuel generalizing pending with
  | zero => exact h
  | succ fuel ih =>
    have hrest : ∀ mask, (pending &&& mask).getLsbD k → pending.getLsbD k := by
      intro mask hk
      rw [BitVec.getLsbD_and, Bool.and_eq_true] at hk
      exact hk.1
    unfold popPendingUnblocked at h
    dsimp only at h
    split at h
    · exact h
    · split_ifs at h
      · exact hrest _ (ih _ h)
      · exact hrest _ h

lemma Step.mirrored {s s' : Signals} (h : Step s s') (hs : Mirrored s) : Mirrored s' := by
  cases h with
  | signal sig =>
    intro k hk
    rw [BitVec.getLsbD_or, Bool.or_eq_true] at hk
    obtain hk | hk := hk
    · exact (hs k hk).imp id fun ⟨sig', hmem, hbit⟩ => ⟨sig', .tail _ hmem, hbit⟩
    · exact .inr ⟨sig, .head _, hk⟩
  | mirror sig =>
    intro k hk
    rw [BitVec.getLsbD_or, Bool.or_eq_true]
    obtain hk | ⟨sig', hmem, hbit⟩ := hs k hk
    · exact .inl (.inl hk)
    · by_cases heq : sig' = sig
      · exact .inl (.inr (heq ▸ hbit))
      · exact .inr ⟨sig', (List.mem_erase_of_ne heq).mpr hmem, hbit⟩
  | check => exact hs
  | pop => exact fun k hk => hs k (popPendingUnblocked_subset _ _ _ k hk)
  | store => exact fun k hk => .inl hk
  | configure => exact hs

/-- While no sender is between its two steps, the mirror has every pending signal, so the
fast path is not taken when there is one. -/
theorem pending_mirrored {actions : Signal → SigAction} {sigset : BitVec 64} {s : Signals}
    (h : Relation.ReflTransGen Step (start actions sigset) s) (hs : s.sending = []) :
    (∀ k, s.pending.getLsbD k → s.signalPending.getLsbD k) ∧
      (s.pending ≠ 0 → s.signalPending ≠ 0) := by
  have hinv : Mirrored s := by
    clear hs
    induction h with
    | refl => exact fun k hk => by simp [start] at hk
    | tail _ hstep ih => exact hstep.mirrored ih
  have hmirror : ∀ k, s.pending.getLsbD k → s.signalPending.getLsbD k := by
    intro k hk
    obtain hk | ⟨sig, hmem, -⟩ := hinv k hk
    · exact hk
    · simp [hs] at hmem
  refine ⟨hmirror, fun hne hzero => hne ?_⟩
  apply BitVec.eq_of_getLsbD_eq
  intro k hk
  have hbit := hmirror k
  simp_all

theorem pending_mirrored_sigterm :
    ∃ s, Relation.ReflTransGen Step (start (fun _ => .terminate) 0) s ∧ s.pending ≠ 0 ∧
      s.signalPending ≠ 0 := by
  have hsent := (Relation.ReflTransGen.single (Step.signal (s := start (fun _ => .terminate) 0) 15
    nofun nofun)).tail (.signal 2 nofun nofun)
  have hrun := (hsent.tail (.mirror 15 (.tail _ (.head _)))).tail (.mirror 2 (.head _))
  exact ⟨_, hrun, by decide, (pending_mirrored hrun rfl).2 (by decide)⟩

end Kevlar.Sched.SignalMirror
