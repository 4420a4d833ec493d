import Kevlar.FileChanges

/-!
# Operations on files and watcher counts

No read, write, shutdown, drop or accept changes the number of watchers of any file,
however it ends. Watchers come and go with interests only.
-/
namespace Kevlar.Watch
open StreamPair Fallible

lemma Gated.bumpGen_watchers {δ : Type} (x : Gated δ) :
    x.bumpGen.etWatcherCount = x.etWatcherCount := by
  unfold Gated.bumpGen
  split_ifs <;> rfl

namespace Pipe

lemma onBuf_watchers {α : Type} (x : Transfer pipeSize α) :
    Preserves (·.etWatcherCount) (onBuf x) := fun _ => rfl

lemma report_watchers (written : ℕ) (idle : IoError) :
    Preserves (·.etWatcherCount) (report written idle) :=
  preserves_ite ((preserves_modify Gated.bumpGen_watchers).bind fun _ => preserves_pure _)
    (preserves_throw _)

lemma wake_watchers {x : Fallible IoError Pipe ℕ} (h : Preserves (·.etWatcherCount) x) :
    Preserves (·.etWatcherCount) (wake x) := by
  intro p
  have hx := h p
  unfold wake
  split
  · next heq =>
    rw [heq] at hx
    exact hx
  · next heq =>
    rw [heq] at hx
    exact (Gated.bumpGen_watchers _).trans hx

lemma write_watchers (src : UserBuffer) (attempt : Attempt) :
    Preserves (·.etWatcherCount) (write src attempt) := by
  cases attempt with
  | first nonblock =>
    refine preserves_get.bind fun p => preserves_ite (preserves_throw _) ?_
    exact preserves_ite ((onBuf_watchers _).bind fun _ => report_watchers _ _) (preserves_throw _)
  | woken signalled =>
    refine wake_watchers (preserves_ite (preserves_throw _) ?_)
    refine preserves_get.bind fun p => preserves_ite (preserves_throw _) ?_
    exact (onBuf_watchers _).bind fun _ => preserves_ite (preserves_pure _) (preserves_throw _)

lemma read_watchers (dst : UserBufferMut) (attempt : Attempt) :
    Preserves (·.etWatcherCount) (read dst attempt) := by
  cases attempt with
  | first nonblock =>
    refine (onBuf_watchers _).bind fun _ => preserves_get.bind fun p => ?_
    exact preserves_ite (preserves_pure _) (report_watchers _ _)
  | woken signalled =>
    refine wake_watchers (preserves_ite (preserves_throw _) ?_)
    refine (onBuf_watchers _).bind fun _ => preserves_get.bind fun p => ?_
    exact preserves_ite (preserves_pure _) (preserves_ite (preserves_pure _) (preserves_throw _))

end Pipe

namespace StreamPair

/-- The watcher counts of both sides. -/
def watchers (p : StreamPair) (e : End) : ℕ := (p.side e).etWatcherCount

lemma setSide_watchers (p : StreamPair) (e : End) {x : Gated StreamInner}
    (h : x.etWatcherCount = (p.side e).etWatcherCount) : (p.setSide e x).watchers = p.watchers := by
  funext f
  unfold watchers
  by_cases hf : f = e
  · rw [hf, side_setSide_same, h]
  · rw [side_setSide_of_ne p hf]

lemma bump_watchers (e : End) (p : StreamPair) : (p.bump e).watchers = p.watchers :=
  p.setSide_watchers e (Gated.bumpGen_watchers _)

lemma onBuf_watchers {α : Type} (e : End) (x : Transfer unixStreamBufSize α) :
    Preserves watchers (onBuf e x) := fun p => p.setSide_watchers e rfl

lemma report_watchers (e : End) (written : ℕ) {idle : Fallible IoError StreamPair ℕ}
    (h : Preserves watchers idle) : Preserves watchers (report e written idle) :=
  preserves_ite ((preserves_modify (bump_watchers e)).bind fun _ => preserves_pure _) h

lemma read_watchers (e : End) (dst : UserBufferMut) (attempt : Attempt) :
    Preserves watchers (read e dst attempt) := by
  refine preserves_get.bind fun p => preserves_ite (preserves_throw _) ?_
  refine (onBuf_watchers _ _).bind fun _ => report_watchers _ _ ?_
  exact preserves_ite (preserves_pure _) (preserves_throw _)

lemma write_watchers (e : End) (src : UserBuffer) (attempt : Attempt) :
    Preserves watchers (write e src attempt) := by
  refine preserves_get.bind fun p => preserves_ite (preserves_throw _) ?_
  refine preserves_ite (preserves_throw _) (preserves_ite (preserves_throw _) ?_)
  split
  · refine preserves_get.bind fun p => preserves_ite ?_ (preserves_throw _)
    refine (onBuf_watchers _ _).bind fun _ => (onBuf_watchers _ _).bind fun _ => ?_
    exact (preserves_modify (bump_watchers e)).bind fun _ => preserves_pure _
  · exact (onBuf_watchers _ _).bind fun _ => report_watchers _ _ (preserves_throw _)

lemma shutSide_watchers (p : StreamPair) (e : End) : (p.shutSide e).watchers = p.watchers :=
  p.setSide_watchers e (Gated.bumpGen_watchers _)

lemma shutdown_watchers (p : StreamPair) (e : End) (how : ShutdownHow) :
    (p.shutdown e how).watchers = p.watchers := by
  cases how with
  | rd => exact p.shutSide_watchers e.other
  | wr => exact p.shutSide_watchers e
  | rdWr => exact ((p.shutSide e).shutSide_watchers e.other).trans (p.shutSide_watchers e)

lemma dropEnd_watchers (p : StreamPair) (e : End) : (p.dropEnd e).watchers = p.watchers := by
  have hflag : watchers { p with peerClosed := true } = p.watchers := by
    funext f
    cases f <;> rfl
  exact (bump_watchers _ _).trans ((shutSide_watchers _ e).trans hflag)

end StreamPair

/-- The watcher counts, the states of the socket objects and what was handed out. -/
structure Files.SameWatchers (s t : Files) : Prop where
  pipes : ∀ k, (t.pipes k).etWatcherCount = (s.pipes k).etWatcherCount
  pairs : ∀ k, (t.pairs k).watchers = (s.pairs k).watchers
  listeners : ∀ k, (t.listeners k).etWatcherCount = (s.listeners k).etWatcherCount
  sockets : t.sockets = s.sockets
  nextPair : t.nextPair = s.nextPair
  nextListener : t.nextListener = s.nextListener

namespace Files

lemma SameWatchers.refl (s : Files) : s.SameWatchers s :=
  ⟨fun _ => rfl, fun _ => rfl, fun _ => rfl, rfl, rfl, rfl⟩

lemma sameWatchers_setPipe {s : Files} {k : ℕ} {p : Pipe}
    (h : p.etWatcherCount = (s.pipes k).etWatcherCount) : s.SameWatchers (s.setPipe k p) :=
  { SameWatchers.refl s with
    pipes := (Function.forall_update_iff s.pipes fun j x =>
      x.etWatcherCount = (s.pipes j).etWatcherCount).mpr ⟨h, fun _ _ => rfl⟩ }

lemma sameWatchers_setPair {s : Files} {k : ℕ} {p : StreamPair}
    (h : p.watchers = (s.pairs k).watchers) : s.SameWatchers (s.setPair k p) :=
  { SameWatchers.refl s with
    pairs := (Function.forall_update_iff s.pairs fun j x =>
      x.watchers = (s.pairs j).watchers).mpr ⟨h, fun _ _ => rfl⟩ }

lemma sameWatchers_setListener {s : Files} {k : ℕ} {l : Listener}
    (h : l.etWatcherCount = (s.listeners k).etWatcherCount) :
    s.SameWatchers (s.setListener k l) :=
  { SameWatchers.refl s with
    listeners := (Function.forall_update_iff s.listeners fun j x =>
      x.etWatcherCount = (s.listeners j).etWatcherCount).mpr ⟨h, fun _ _ => rfl⟩ }

lemma sameWatchers_setEventfd (s : Files) (k : ℕ) (e : EventFd) :
    s.SameWatchers (s.setEventfd k e) :=
  ⟨fun _ => rfl, fun _ => rfl, fun _ => rfl, rfl, rfl, rfl⟩

section

variable (s : Files) (file : File)
include s file

lemma read_sameWatchers (dst : UserBufferMut) (attempt : Attempt) :
    s.SameWatchers (read file dst attempt s).2 := by
  cases file with
  | pipeReader k => exact sameWatchers_setPipe (Pipe.read_watchers dst attempt _)
  | pipeWriter k | other k => exact .refl s
  | eventfd k => exact sameWatchers_setEventfd s k _
  | stream k e => exact sameWatchers_setPair (read_watchers e dst attempt _)
  | socket k =>
    simp only [read, Bind.bind, Fallible.bind, Fallible.get]
    cases s.streamOf (.socket k) with
    | some x => exact sameWatchers_setPair (read_watchers x.2 dst attempt _)
    | none => exact .refl s

lemma write_sameWatchers (src : UserBuffer) (attempt : Attempt) :
    s.SameWatchers (write file src attempt s).2 := by
  cases file with
  | pipeReader k | other k => exact .refl s
  | pipeWriter k => exact sameWatchers_setPipe (Pipe.write_watchers src attempt _)
  | eventfd k => exact sameWatchers_setEventfd s k _
  | stream k e => exact sameWatchers_setPair (write_watchers e src attempt _)
  | socket k =>
    simp only [write, Bind.bind, Fallible.bind, Fallible.get]
    cases s.streamOf (.socket k) with
    | some x => exact sameWatchers_setPair (write_watchers x.2 src attempt _)
    | none => exact .refl s

lemma shutdown_sameWatchers (how : ShutdownHow) : s.SameWatchers (s.shutdown file how) := by
  unfold shutdown
  match s.streamOf file with
  | some (k, e) => exact sameWatchers_setPair (shutdown_watchers _ e how)
  | none => exact .refl s

lemma drop_sameWatchers : s.SameWatchers (s.drop file) := by
  cases file with
  | pipeReader k | pipeWriter k => exact sameWatchers_setPipe (Gated.bumpGen_watchers _)
  | stream k e => exact sameWatchers_setPair (dropEnd_watchers _ e)
  | eventfd k | socket k | other k => exact .refl s

end

lemma accept_sameWatchers (s : Files) (k : ℕ) : s.SameWatchers (s.accept k) := by
  unfold accept
  split
  · split
    · next haccept =>
      unfold Listener.accept at haccept
      split at haccept
      · cases haccept
      · cases haccept
        exact sameWatchers_setListener (Gated.bumpGen_watchers _)
    · exact .refl s
  · exact .refl s

end Files

end Kevlar.Watch
