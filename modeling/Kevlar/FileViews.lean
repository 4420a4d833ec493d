import Kevlar.EpollSteps

/-!
# Files as their watchers see them

A watched file maintains its generation. A step leads to a later state of the file if
the generation does not go back, and if the readiness is the same whenever the
generation is. Announced changes, changes of the watchers of files and new states of
sockets are taken in turn.
-/
namespace Kevlar.Watch

open Function StreamPair

namespace Files

/-- The file maintains its generation. -/
def watched (s : Files) : File → Prop
  | .pipeReader k => 0 < (s.pipes k).etWatcherCount
  | .pipeWriter k => 0 < (s.pipes k).etWatcherCount
  | .eventfd _ => True
  | .stream k _ => ∃ e, 0 < (s.pairs k).watchers e
  | .socket k =>
    match s.sockets k with
    | .listening l => 0 < (s.listeners l).etWatcherCount
    | .connected k _ => ∃ e, 0 < (s.pairs k).watchers e
    | _ => False
  | .other _ => False

/-- The generation that a watched file shows. -/
def generation (s : Files) : File → ℕ
  | .pipeReader k => (s.pipes k).stateGen
  | .pipeWriter k => (s.pipes k).stateGen
  | .eventfd k => (s.eventfds k).stateGen
  | .stream k _ => wadd (s.pairs k).a.stateGen (s.pairs k).b.stateGen
  | .socket k =>
    match s.sockets k with
    | .listening l => (s.listeners l).stateGen
    | .connected k _ => wadd (s.pairs k).a.stateGen (s.pairs k).b.stateGen
    | _ => 0
  | .other _ => 0

lemma gated_pollGen {δ : Type} {x : Gated δ} (h : x.pollGen ≠ 0) :
    0 < x.etWatcherCount ∧ x.pollGen = x.stateGen := by
  unfold Gated.pollGen at h ⊢
  split_ifs at h ⊢ with hpos
  · exact ⟨hpos, rfl⟩
  · exact absurd rfl h

lemma pair_pollGen {p : StreamPair} {e : End} (h : p.pollGen e ≠ 0) :
    (∃ e, 0 < p.watchers e) ∧ p.pollGen e = wadd p.a.stateGen p.b.stateGen := by
  unfold StreamPair.pollGen at h ⊢
  split_ifs at h ⊢ with hpos
  · constructor
    · obtain hpos | hpos := hpos
      · exact ⟨e, hpos⟩
      · exact ⟨e.other, hpos⟩
    · cases e with
      | a => rfl
      | b =>
        change wadd p.b.stateGen p.a.stateGen = _
        unfold wadd
        rw [add_comm]
  · exact absurd rfl h

/-- A generation that is shown is maintained. -/
lemma watched_of_pollGen {s : Files} {file : File} (h : s.pollGen file ≠ 0) :
    s.watched file ∧ s.pollGen file = s.generation file := by
  cases file with
  | pipeReader k | pipeWriter k => exact gated_pollGen h
  | eventfd k => exact ⟨trivial, rfl⟩
  | stream k e => exact pair_pollGen h
  | socket k =>
    unfold pollGen at h
    unfold watched pollGen generation
    match hs : s.sockets k with
    | .created | .bound => simp [hs] at h
    | .listening l =>
      simp only [hs] at h ⊢
      exact gated_pollGen h
    | .connected k e =>
      simp only [hs] at h ⊢
      exact pair_pollGen h
  | other k => exact absurd rfl h


/-! ## Later states of a file -/

/-- Seen from a watched file, `t` is a later state than `s`. -/
def Later (s t : Files) (file : File) : Prop :=
  s.watched file → t.watched file ∧ s.generation file ≤ t.generation file ∧
    (t.generation file = s.generation file → t.poll file = s.poll file)

/-- Both sides of every pair have the same watchers. -/
def Even (s : Files) : Prop := ∀ k, (s.pairs k).watchers .a = (s.pairs k).watchers .b

end Files

lemma Gated.Announces.later {δ : Type} {x y : Gated δ} (h : x.Announces y)
    (hpos : 0 < x.etWatcherCount) :
    0 < y.etWatcherCount ∧ x.stateGen ≤ y.stateGen ∧ (y.stateGen = x.stateGen → y = x) := by
  refine ⟨h.1 ▸ hpos, ?_⟩
  obtain rfl | hlt := h.2 hpos
  · exact ⟨le_rfl, fun _ => rfl⟩
  · exact ⟨hlt.le, fun heq => absurd heq hlt.ne'⟩

lemma StreamPair.Announces.later {p q : StreamPair} (h : p.Announces q)
    (heven : p.watchers .a = p.watchers .b) (hq : ∀ e, (q.side e).stateGen < 2 ^ 63)
    (hpos : ∃ e, 0 < p.watchers e) :
    (∃ e, 0 < q.watchers e) ∧
      wadd p.a.stateGen p.b.stateGen ≤ wadd q.a.stateGen q.b.stateGen ∧
      (wadd q.a.stateGen q.b.stateGen = wadd p.a.stateGen p.b.stateGen → q = p) := by
  obtain ⟨e, he⟩ := hpos
  have hall : ∀ f, 0 < p.watchers f := by
    intro f
    cases e <;> cases f <;> omega
  refine ⟨⟨e, lt_of_lt_of_eq he (h.1 e).symm⟩, ?_⟩
  obtain rfl | ⟨hle, f, hlt⟩ := h.2 hall
  · exact ⟨le_rfl, fun _ => rfl⟩
  · have ha : p.a.stateGen ≤ q.a.stateGen := hle .a
    have hb : p.b.stateGen ≤ q.b.stateGen := hle .b
    have hqa : q.a.stateGen < 2 ^ 63 := hq .a
    have hqb : q.b.stateGen < 2 ^ 63 := hq .b
    have hsum : p.a.stateGen + p.b.stateGen < q.a.stateGen + q.b.stateGen := by
      cases f with
      | a =>
        have : p.a.stateGen < q.a.stateGen := hlt
        omega
      | b =>
        have : p.b.stateGen < q.b.stateGen := hlt
        omega
    rw [wadd_of_lt (by omega), wadd_of_lt (by omega)]
    exact ⟨hsum.le, fun heq => absurd heq hsum.ne'⟩

namespace Files

variable {s t : Files} {k : ℕ} {p : StreamPair} {file : File}

/-- Announced changes lead to later states of all files. -/
lemma Announces.later (h : s.Announces t) (heven : s.Even) (ht : t.Young) (file : File) :
    s.Later t file := by
  intro hwatched
  cases file with
  | pipeReader k | pipeWriter k =>
    obtain ⟨hpos, hle, hsame⟩ := (h.pipes k).later hwatched
    exact ⟨hpos, hle, fun hgen => by rw [poll, poll, hsame hgen]⟩
  | eventfd k =>
    refine ⟨trivial, ?_⟩
    change (s.eventfds k).stateGen ≤ (t.eventfds k).stateGen ∧
      ((t.eventfds k).stateGen = (s.eventfds k).stateGen → _)
    obtain hsame | hlt := h.eventfds k
    · rw [poll, poll, hsame]
      exact ⟨le_rfl, fun _ => rfl⟩
    · exact ⟨hlt.le, fun heq => absurd heq hlt.ne'⟩
  | stream k e =>
    obtain ⟨hpos, hle, hsame⟩ := (h.pairs k).later (heven k) (ht.pairs k) hwatched
    exact ⟨hpos, hle, fun hgen => by rw [poll, poll, hsame hgen]⟩
  | socket k =>
    unfold watched generation poll at *
    rw [h.sockets]
    match hs : s.sockets k with
    | .created | .bound => simp [hs] at hwatched
    | .listening l =>
      simp only [hs] at hwatched ⊢
      obtain ⟨hpos, hle, hsame⟩ := (h.listeners l).later hwatched
      exact ⟨hpos, hle, fun hgen => by rw [hsame hgen]⟩
    | .connected k e =>
      simp only [hs] at hwatched ⊢
      obtain ⟨hpos, hle, hsame⟩ := (h.pairs k).later (heven k) (ht.pairs k) hwatched
      exact ⟨hpos, hle, fun hgen => by rw [hsame hgen]⟩
  | other k => exact hwatched.elim

/-! ## The operations that announce their changes -/

/-- A transfer on a pipe or a stream stopped at a user address. A pipe reports what a
woken transfer did before that, and an eventfd moves nothing that it does not report. -/
def Cut (s : Files) (file : File) (attempt : Attempt) (result : Except IoError ℕ) : Prop :=
  result = .error .EFAULT ∧
    match s.streamOf file, file, attempt with
    | some _, _, _ => True
    | none, .pipeReader _, .first _ => True
    | none, .pipeWriter _, .first _ => True
    | _, _, _ => False

/-- A read took a message out of a datagram socket and delivered nothing. -/
def Lost (s : Files) (file : File) (result : Except IoError ℕ) : Prop :=
  match s.streamOf file with
  | some (k, e) => (s.pairs k).dgram = true ∧
      ((s.pairs k).side e.other).inner.buf.isReadable = true ∧ StreamPair.Idle result
  | none => False

lemma announces_unwatched_pipe {p : Pipe} (hcount : p.etWatcherCount = (s.pipes k).etWatcherCount)
    (h : ¬ 0 < (s.pipes k).etWatcherCount) : s.Announces (s.setPipe k p) :=
  announces_setPipe ⟨hcount, fun hpos => absurd hpos h⟩

lemma announces_unwatched_pair (hcount : p.watchers = (s.pairs k).watchers)
    (h : ¬ ∃ e, 0 < (s.pairs k).watchers e) :
    s.Announces (s.setPair k p) :=
  announces_setPair ⟨fun e => congrFun hcount e, fun hpos => absurd ⟨.a, hpos .a⟩ h⟩

lemma watched_of_streamOf {e : End} (h : s.streamOf file = some (k, e)) :
    s.watched file ↔ ∃ e, 0 < (s.pairs k).watchers e := by
  cases file with
  | stream j f =>
    cases h
    exact .rfl
  | socket j =>
    match hs : s.sockets j with
    | .connected j f =>
      simp only [streamOf, hs] at h
      cases h
      simp only [watched, hs]
    | .created | .bound | .listening l => simp [streamOf, hs] at h
  | pipeReader j | pipeWriter j | eventfd j | other j => cases h

section Transfers

variable {s : Files} (hs : s.Young) {file : File} {attempt : Attempt}

include hs

variable {dst : UserBufferMut} {e : End} {src : UserBuffer}

lemma streamRead_announces {k : ℕ} (hfile : s.streamOf file = some (k, e))
    (hundef : (StreamPair.read e dst attempt (s.pairs k)).1 ≠ .error .undefined)
    (hcut : s.watched file → ¬ s.Cut file attempt (StreamPair.read e dst attempt (s.pairs k)).1)
    (hlost : s.watched file → ¬ s.Lost file (StreamPair.read e dst attempt (s.pairs k)).1) :
    s.Announces (onPair k (StreamPair.read e dst attempt) s).2 := by
  by_cases hwatched : s.watched file
  · have hcut := hcut hwatched
    have hlost := hlost hwatched
    simp only [Cut, Lost, hfile, and_true] at hcut hlost
    refine announces_setPair (read_announces (hs.pairs k) e dst attempt ?_ ?_)
    · rintro err herr (rfl | rfl)
      · exact hcut herr
      · exact hundef herr
    · exact fun hd hr hidle => hlost ⟨hd, hr, hidle⟩
  · exact announces_unwatched_pair (read_watchers e dst attempt _)
      ((watched_of_streamOf hfile).not.mp hwatched)

lemma streamWrite_announces {k : ℕ} (hfile : s.streamOf file = some (k, e))
    (hundef : (StreamPair.write e src attempt (s.pairs k)).1 ≠ .error .undefined)
    (hcut : s.watched file → ¬ s.Cut file attempt (StreamPair.write e src attempt (s.pairs k)).1) :
    s.Announces (onPair k (StreamPair.write e src attempt) s).2 := by
  by_cases hwatched : s.watched file
  · have hcut := hcut hwatched
    simp only [Cut, hfile, and_true] at hcut
    have hends := write_announces (hs.pairs k) e src attempt
    unfold Fallible.Ends at hends
    apply announces_setPair
    match hx : StreamPair.write e src attempt (s.pairs k) with
    | (.ok n, q) =>
      rw [hx] at hends
      exact hends
    | (.error err, q) =>
      rw [hx] at hends hcut hundef
      apply hends
      rintro (rfl | rfl)
      · exact hcut rfl
      · exact hundef rfl
  · exact announces_unwatched_pair (write_watchers e src attempt _)
      ((watched_of_streamOf hfile).not.mp hwatched)

lemma read_announces (hundef : (read file dst attempt s).1 ≠ .error .undefined)
    (hcut : s.watched file → ¬ s.Cut file attempt (read file dst attempt s).1)
    (hlost : s.watched file → ¬ s.Lost file (read file dst attempt s).1) :
    s.Announces (read file dst attempt s).2 := by
  have hstream : read file dst attempt s = (match s.streamOf file with
      | some (k, e) => onPair k (StreamPair.read e dst attempt)
      | none => Fallible.throw .ENOTCONN : Fallible IoError Files ℕ) s →
      s.Announces (read file dst attempt s).2 := by
    intro hread
    rw [hread] at hundef hcut hlost ⊢
    match hfile : s.streamOf file with
    | some (k, e) =>
      simp only [hfile] at hundef hcut hlost
      exact streamRead_announces hs hfile hundef hcut hlost
    | none => exact .refl s
  cases file with
  | pipeReader k =>
    by_cases hwatched : 0 < (s.pipes k).etWatcherCount
    · refine announces_setPipe (Pipe.read_reported (hs.pipes k) dst attempt ?_ hundef)
      rintro nonblock rfl hfault
      exact hcut hwatched ⟨hfault, trivial⟩
    · exact announces_unwatched_pipe (Pipe.read_watchers dst attempt _) hwatched
  | pipeWriter k | other k => exact .refl s
  | eventfd k => exact announces_setEventfd (EventFd.read_announces (hs.eventfds k) dst attempt)
  | stream k e | socket k => exact hstream rfl

lemma write_announces (hundef : (write file src attempt s).1 ≠ .error .undefined)
    (hcut : s.watched file → ¬ s.Cut file attempt (write file src attempt s).1) :
    s.Announces (write file src attempt s).2 := by
  have hstream : write file src attempt s = (match s.streamOf file with
      | some (k, e) => onPair k (StreamPair.write e src attempt)
      | none => Fallible.throw .ENOTCONN : Fallible IoError Files ℕ) s →
      s.Announces (write file src attempt s).2 := by
    intro hwrite
    rw [hwrite] at hundef hcut ⊢
    match hfile : s.streamOf file with
    | some (k, e) =>
      simp only [hfile] at hundef hcut
      exact streamWrite_announces hs hfile hundef hcut
    | none => exact .refl s
  cases file with
  | pipeReader k | other k => exact .refl s
  | pipeWriter k =>
    by_cases hwatched : 0 < (s.pipes k).etWatcherCount
    · refine announces_setPipe (Pipe.write_reported (hs.pipes k) src attempt ?_ hundef)
      rintro nonblock rfl hfault
      exact hcut hwatched ⟨hfault, trivial⟩
    · exact announces_unwatched_pipe (Pipe.write_watchers src attempt _) hwatched
  | eventfd k => exact announces_setEventfd (EventFd.write_announces (hs.eventfds k) src attempt)
  | stream k e | socket k => exact hstream rfl

lemma shutdown_announces (how : ShutdownHow) : s.Announces (s.shutdown file how) := by
  unfold shutdown
  match s.streamOf file with
  | some (k, e) => exact announces_setPair (StreamPair.shutdown_announces (hs.pairs k) e how)
  | none => exact .refl s

lemma drop_announces : s.Announces (s.drop file) := by
  cases file with
  | pipeReader k | pipeWriter k => exact announces_setPipe (Gated.announces_change (hs.pipes k) _)
  | stream k e => exact announces_setPair (dropEnd_announces (hs.pairs k) e)
  | eventfd k | socket k | other k => exact .refl s

lemma accept_announces (k : ℕ) : s.Announces (s.accept k) := by
  unfold accept
  split
  · split
    · next haccept =>
      unfold Listener.accept at haccept
      split at haccept
      · cases haccept
      · cases haccept
        exact announces_setListener (Gated.announces_change (hs.listeners _) _)
    · exact .refl s
  · exact .refl s

end Transfers

/-! ## The operations that change watchers or sockets -/

/-- The object behind a file is the same. -/
def SameAt (s t : Files) : File → Prop
  | .pipeReader k => t.pipes k = s.pipes k
  | .pipeWriter k => t.pipes k = s.pipes k
  | .eventfd k => t.eventfds k = s.eventfds k
  | .stream k _ => t.pairs k = s.pairs k
  | .socket k => t.sockets k = s.sockets k ∧
    match s.sockets k with
    | .listening l => t.listeners l = s.listeners l
    | .connected k _ => t.pairs k = s.pairs k
    | _ => True
  | .other _ => True

lemma SameAt.later (h : s.SameAt t file) : s.Later t file := by
  intro hwatched
  have heq : ∀ {p q : Prop} {m n : ℕ} {a b : PollStatus}, p → q = p → n = m → b = a →
      q ∧ m ≤ n ∧ (n = m → b = a) := by
    intro p q m n a b hp hpq hmn hab
    exact ⟨hpq ▸ hp, hmn.ge, fun _ => hab⟩
  cases file with
  | pipeReader k | pipeWriter k =>
    have hpipe : t.pipes k = s.pipes k := h
    refine heq hwatched ?_ ?_ ?_ <;> simp only [watched, generation, poll, hpipe]
  | eventfd k =>
    have heventfd : t.eventfds k = s.eventfds k := h
    refine heq hwatched ?_ ?_ ?_ <;> simp only [watched, generation, poll, heventfd]
  | stream k e =>
    have hpair : t.pairs k = s.pairs k := h
    refine heq hwatched ?_ ?_ ?_ <;> simp only [watched, generation, poll, hpair]
  | socket k =>
    obtain ⟨hstate, hobject⟩ := h
    cases hs : s.sockets k with
    | created | bound => simp [watched, hs] at hwatched
    | listening l | connected k e =>
      simp only [hs] at hobject
      refine heq hwatched ?_ ?_ ?_ <;> simp only [watched, generation, poll, hstate, hs, hobject]
  | other k => exact hwatched.elim

/-- Nothing but watcher counts differs. -/
structure SameState (s t : Files) : Prop where
  pipes : ∀ k, ∃ c, t.pipes k = { s.pipes k with etWatcherCount := c }
  eventfds : t.eventfds = s.eventfds
  pairs : ∀ k, ∃ ca cb, t.pairs k =
    { s.pairs k with
      a := { (s.pairs k).a with etWatcherCount := ca }
      b := { (s.pairs k).b with etWatcherCount := cb } }
  listeners : ∀ k, ∃ c, t.listeners k = { s.listeners k with etWatcherCount := c }
  sockets : t.sockets = s.sockets
  others : t.others = s.others

lemma SameState.refl (s : Files) : s.SameState s :=
  ⟨fun _ => ⟨_, rfl⟩, rfl, fun _ => ⟨_, _, rfl⟩, fun _ => ⟨_, rfl⟩, rfl, rfl⟩

lemma SameState.view (h : s.SameState t) (file : File) :
    t.generation file = s.generation file ∧ t.poll file = s.poll file := by
  have hpair : ∀ k e, wadd (t.pairs k).a.stateGen (t.pairs k).b.stateGen =
      wadd (s.pairs k).a.stateGen (s.pairs k).b.stateGen ∧
      (t.pairs k).poll e = (s.pairs k).poll e := by
    intro k e
    obtain ⟨ca, cb, hk⟩ := h.pairs k
    rw [hk]
    exact ⟨rfl, by cases e <;> rfl⟩
  cases file with
  | pipeReader k | pipeWriter k =>
    obtain ⟨c, hk⟩ := h.pipes k
    rw [generation, poll, hk]
    exact ⟨rfl, rfl⟩
  | eventfd k =>
    rw [generation, poll, h.eventfds]
    exact ⟨rfl, rfl⟩
  | stream k e => exact hpair k e
  | socket k =>
    cases hs : s.sockets k with
    | created | bound => simp [generation, poll, h.sockets, hs]
    | listening l =>
      obtain ⟨c, hl⟩ := h.listeners l
      simp only [generation, poll, h.sockets, hs, hl, true_and]
      rfl
    | connected k e =>
      simp only [generation, poll, h.sockets, hs]
      exact hpair k e
  | other k =>
    rw [generation, poll, h.others]
    exact ⟨rfl, rfl⟩

lemma SameState.young (h : s.SameState t) (hs : s.Young) : t.Young := by
  constructor
  · intro k
    obtain ⟨c, hk⟩ := h.pipes k
    rw [hk]
    exact hs.pipes k
  · rw [h.eventfds]
    exact hs.eventfds
  · intro k e
    obtain ⟨ca, cb, hk⟩ := h.pairs k
    have he := hs.pairs k e
    rw [hk]
    cases e <;> exact he
  · intro k
    obtain ⟨c, hk⟩ := h.listeners k
    rw [hk]
    exact hs.listeners k

lemma sameState_setPipe (s : Files) (k : ℕ) (added : Bool) :
    s.SameState (s.setPipe k ((s.pipes k).notifyEpollEt added)) :=
  { SameState.refl s with
    pipes := fun j => by
      by_cases hj : j = k
      · subst hj
        simp only [setPipe, update_self]
        exact ⟨_, rfl⟩
      · simp only [setPipe, update_of_ne hj]
        exact ⟨_, rfl⟩ }

lemma sameState_setPair (s : Files) (k : ℕ) (added : Bool) :
    s.SameState (s.setPair k ((s.pairs k).notifyEpollEt added)) :=
  { SameState.refl s with
    pairs := fun j => by
      by_cases hj : j = k
      · subst hj
        simp only [setPair, update_self]
        exact ⟨_, _, rfl⟩
      · simp only [setPair, update_of_ne hj]
        exact ⟨_, _, rfl⟩ }

lemma sameState_setListener (s : Files) (k : ℕ) (added : Bool) :
    s.SameState (s.setListener k ((s.listeners k).notifyEpollEt added)) :=
  { SameState.refl s with
    listeners := fun j => by
      by_cases hj : j = k
      · subst hj
        simp only [setListener, update_self]
        exact ⟨_, rfl⟩
      · simp only [setListener, update_of_ne hj]
        exact ⟨_, rfl⟩ }

lemma notifyEpollEt_sameState (s : Files) (file : File) (added : Bool) :
    s.SameState (s.notifyEpollEt file added) := by
  cases file with
  | pipeReader k | pipeWriter k => exact sameState_setPipe s k added
  | eventfd k | other k => exact .refl s
  | stream k e => exact sameState_setPair s k added
  | socket k =>
    simp only [notifyEpollEt]
    split
    · exact sameState_setListener s _ added
    · exact sameState_setPair s _ added
    · exact .refl s

lemma even_setPair (h : s.Even) (hp : p.watchers .a = p.watchers .b) : (s.setPair k p).Even :=
  (forall_update_iff s.pairs fun _ p => p.watchers .a = p.watchers .b).mpr
    ⟨hp, fun j _ => h j⟩

lemma even_notify (h : p.watchers .a = p.watchers .b) (added : Bool) :
    (p.notifyEpollEt added).watchers .a = (p.notifyEpollEt added).watchers .b := by
  have hcount : p.a.etWatcherCount = p.b.etWatcherCount := h
  change (p.a.notifyEpollEt added).etWatcherCount = (p.b.notifyEpollEt added).etWatcherCount
  unfold Gated.notifyEpollEt
  rw [hcount]

lemma notifyEpollEt_even (h : s.Even) (file : File) (added : Bool) :
    (s.notifyEpollEt file added).Even := by
  cases file with
  | stream k e => exact even_setPair h (even_notify (h k) added)
  | socket k =>
    simp only [notifyEpollEt]
    split
    · exact h
    · exact even_setPair h (even_notify (h _) added)
    · exact h
  | _ => exact h

lemma SameWatchers.even (h : s.SameWatchers t) (hs : s.Even) : t.Even := by
  intro k
  rw [h.pairs]
  exact hs k

lemma Later.trans {u : Files} (h₁ : s.Later t file) (h₂ : t.Later u file) :
    s.Later u file := by
  intro hwatched
  obtain ⟨hwatched₁, hle₁, hpoll₁⟩ := h₁ hwatched
  obtain ⟨hwatched₂, hle₂, hpoll₂⟩ := h₂ hwatched₁
  refine ⟨hwatched₂, hle₁.trans hle₂, fun hgen => ?_⟩
  rw [hpoll₂ (by omega), hpoll₁ (by omega)]

/-- A file is seen in the same state if the step only touches one socket and objects that
were not handed out. -/
lemma sameAt_fresh (h : s.Handed) (hfile : file ≠ .socket k)
    (hstream : ∀ j e, file = .stream j e → j < s.nextPair) (hpipes : t.pipes = s.pipes)
    (heventfds : t.eventfds = s.eventfds) (hpairs : ∀ j < s.nextPair, t.pairs j = s.pairs j)
    (hlisteners : ∀ l < s.nextListener, t.listeners l = s.listeners l)
    (hsockets : ∀ j ≠ k, t.sockets j = s.sockets j) : s.SameAt t file := by
  cases file with
  | pipeReader j | pipeWriter j => exact congrFun hpipes j
  | eventfd j => exact congrFun heventfds j
  | stream j e => exact hpairs j (hstream j e rfl)
  | socket j =>
    refine ⟨hsockets j fun hj => hfile (hj ▸ rfl), ?_⟩
    split
    · next l hl => exact hlisteners l (h.listeners j l hl)
    · next i e hi => exact hpairs i (h.pairs j i e hi)
    · trivial
  | other j => trivial

lemma not_watched_idle (h : s.sockets k = .created ∨ s.sockets k = .bound) :
    ¬ s.watched (.socket k) := by
  obtain h | h := h <;> simp [watched, h]

lemma newPair_unwatched (dgram : Bool) :
    ¬ ∃ e, 0 < (newPairTyped dgram).watchers e := by
  rintro ⟨e, he⟩
  cases e <;> exact lt_irrefl 0 he

lemma Later.refl (s : Files) (file : File) : s.Later s file :=
  fun hwatched => ⟨hwatched, le_rfl, fun _ => rfl⟩

section Sockets

variable {s : Files} (h : s.Handed) {file : File}
  (hstream : ∀ j e, file = .stream j e → j < s.nextPair)

include h hstream

/-- `bind` and `listen` work on sockets that have no watchers yet. -/
lemma bind_later (k : ℕ) : s.Later (s.bind k) file := by
  unfold bind
  split
  · next hcreated =>
    by_cases hfile : file = .socket k
    · rw [hfile]
      exact fun hwatched => absurd hwatched (not_watched_idle (.inl hcreated))
    · apply SameAt.later
      refine sameAt_fresh h hfile hstream rfl rfl (fun _ _ => rfl) (fun _ _ => rfl) ?_
      exact fun j hj => update_of_ne hj _ _
  · exact .refl s file

lemma listen_later (k : ℕ) (backlog : ℤ) : s.Later (s.listen k backlog) file := by
  unfold Files.listen
  split
  · next hbound =>
    by_cases hfile : file = .socket k
    · rw [hfile]
      exact fun hwatched => absurd hwatched (not_watched_idle (.inr hbound))
    · apply SameAt.later
      refine sameAt_fresh h hfile hstream rfl rfl (fun _ _ => rfl) ?_ ?_
      · exact fun l hl => update_of_ne (ne_of_lt hl) _ _
      · exact fun j hj => update_of_ne hj _ _
  · exact .refl s file

lemma socketpair_later (dgram : Bool) : s.Later (s.socketpair dgram) file := by
  apply SameAt.later
  cases file with
  | stream j e => exact update_of_ne (ne_of_lt (hstream j e rfl)) _ _
  | socket j =>
    refine ⟨rfl, ?_⟩
    split
    · rfl
    · next i e hi => exact update_of_ne (ne_of_lt (h.pairs j i e hi)) _ _
    · trivial
  | other j => trivial
  | _ => rfl

/-- A connection is a change of the listener, and a new state of the socket. -/
lemma connect_later (heven : s.Even) (hs : s.Young) (k listener : ℕ)
    (ht : (s.connect k listener).Young) (hfile : file ≠ .socket k) :
    s.Later (s.connect k listener) file := by
  unfold connect at ht ⊢
  split at ht
  · exact .refl s file
  · next l hl =>
    have hannounces : s.Announces (s.setListener listener l) := by
      apply announces_setListener
      unfold Listener.enqueueConnection at hl
      split at hl
      · cases hl
      · cases hl
        exact Gated.announces_change (hs.listeners listener) _
    have hyoung : (s.setListener listener l).Young :=
      ⟨hs.pipes, hs.eventfds, hs.pairs, ht.listeners⟩
    refine (hannounces.later heven hyoung file).trans (SameAt.later ?_)
    have hhanded : (s.setListener listener l).Handed := ⟨h.pairs, h.listeners⟩
    refine sameAt_fresh hhanded hfile hstream rfl rfl ?_ (fun _ _ => rfl) ?_
    · exact fun j hj => update_of_ne (ne_of_lt hj) _ _
    · exact fun j hj => update_of_ne hj _ _

end Sockets

lemma connect_even (h : s.Even) (k listener : ℕ) : (s.connect k listener).Even := by
  unfold connect
  split
  · exact h
  · exact even_setPair h rfl

/-- A socket that was just connected has no watchers. -/
lemma connect_unwatched (k listener : ℕ) :
    s.connect k listener = s ∨ ¬ (s.connect k listener).watched (.socket k) := by
  unfold connect
  split
  · exact .inl rfl
  · right
    simpa [watched, setSocket, setPair] using newPair_unwatched false

end Files

end Kevlar.Watch
