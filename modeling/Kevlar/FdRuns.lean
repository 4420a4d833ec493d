import Kevlar.FdTable

/-!
# Lowest free descriptors

A call without a lower bound starts its scan at a hint, below which every descriptor is
meant to be in use. The hint moves past a descriptor as soon as it is picked, before the
file is opened; if that fails the descriptor stays free and below the hint. Runs in which
it does not fail keep the hint right, through every call and its error paths.
-/
namespace Kevlar.Fd
open Option OpenedFileTable List

open Fallible hiding pure bind

variable {F : Type}

/-- The calls on a table, with descriptors as they come from user space. -/
inductive FdCall (F : Type) where
  | openFile (path : F) (cloexec : Bool) (rlimit : Option ℕ) (opened : Except ℕ (Option F))
  | openFixed (fd : {fd : ℤ // IsI32 fd}) (file : F) (cloexec : Bool)
      (opened : Except ℕ (Option F))
  | dup (fd : {fd : ℤ // IsI32 fd}) (gte : Option {fd : ℤ // IsI32 fd}) (cloexec : Bool)
      (rlimit : Option ℕ) (opened : Except ℕ (Option F))
  | dup2 (old new : {fd : ℤ // IsI32 fd}) (cloexec : Bool) (opened : Except ℕ (Option F))
  | close (fd : {fd : ℤ // IsI32 fd})
  | closeCloexecFiles
  | closeAll

/-- The call, its result dropped. -/
def FdCall.program : FdCall F → TableOp F Unit
  | .openFile path cloexec rlimit opened => do
    let _ ← Fd.openFile path cloexec rlimit opened
    pure ()
  | .openFixed fd file cloexec opened => openWithFixedFd fd.1 file cloexec opened
  | .dup fd gte cloexec rlimit opened => do
    let _ ← Fd.dup fd.1 (gte.map Subtype.val) cloexec rlimit opened
    pure ()
  | .dup2 old new cloexec opened => Fd.dup2 old.1 new.1 cloexec opened
  | .close fd => Fd.close fd.1
  | .closeCloexecFiles => Fd.closeCloexecFiles
  | .closeAll => Fd.closeAll

/-- The call opens its file once a descriptor was picked by the hint. -/
def FdCall.Fine : FdCall F → Prop
  | .openFile _ _ _ opened => opened.isOk = true
  | .dup _ none _ _ opened => opened.isOk = true
  | _ => True

/-- The tables after calls that satisfy `Fine`; a call may fail, but not panic. -/
inductive FdRun (Fine : FdCall F → Prop) : OpenedFileTable F → Prop where
  | new : FdRun Fine .new
  | returned {t t' : OpenedFileTable F} {call : FdCall F} (h : FdRun Fine t) (hfine : Fine call)
      (hcall : call.program.Returns t () t') : FdRun Fine t'
  | failed {t t' : OpenedFileTable F} {call : FdCall F} {e : FdError} (h : FdRun Fine t)
      (hfine : Fine call) (hcall : call.program.Fails t e t') (he : e ≠ .panic) : FdRun Fine t'

/-- Every descriptor below the hint is in use. -/
structure HintOk (t : OpenedFileTable F) : Prop where
  nonneg : 0 ≤ t.lowestFreeHint
  le_max : t.lowestFreeHint ≤ fdMax
  length_le : (t.files.length : ℤ) ≤ fdMax
  used : ∀ fd, 0 ≤ fd → fd < t.lowestFreeHint → t.file? fd ≠ none

lemma hintOk_new : HintOk (.new : OpenedFileTable F) where
  nonneg := le_refl _
  le_max := by norm_num [new, fdMax]
  length_le := by norm_num [new, fdMax]
  used := fun fd h0 hlt => absurd hlt (not_lt.mpr h0)

/-- What a failed or finished call may leave behind: a right hint, unless it panicked. -/
def KeepsHint {α : Type} (x : TableOp F α) (t : OpenedFileTable F) : Prop :=
  x.Ends t (fun _ t' => HintOk t') fun e t' => e = .panic ∨ HintOk t'

section Calls

variable {t t' : OpenedFileTable F} {fd : ℤ}

lemma isI32_of_lt_max (h0 : 0 ≤ fd) (hlt : fd < fdMax) : IsI32 fd := by
  unfold IsI32 fdMax at *
  omega

variable {entry : LocalOpenedFile F} {opened : Except ℕ (Option F)}

lemma HintOk.of_installed (h : HintOk t) (hinstalled : Installed t t' fd entry)
    (hlen : (asUsize fd : ℤ) < fdMax) : HintOk t' where
  nonneg := by rw [hinstalled.hint_eq]; exact h.nonneg
  le_max := by rw [hinstalled.hint_eq]; exact h.le_max
  length_le := by
    have := hinstalled.length_le
    have := h.length_le
    omega
  used := by
    intro fd' h0 hlt
    rw [hinstalled.hint_eq] at hlt
    by_cases heq : fd' = fd
    · rw [heq, hinstalled.file_eq]
      nofun
    · rw [hinstalled.kept.file_eq fd' (isI32_of_lt_max h0 (lt_of_lt_of_le hlt h.le_max)) heq]
      exact h.used fd' h0 hlt

/-- A table without the descriptor is filled or stays as it is. -/
lemma openWithFixedFd_ends (t : OpenedFileTable F) (h32 : IsI32 fd) (file : F)
    (cloexec : Bool) (opened : Except ℕ (Option F)) (hlen : (t.files.length : ℤ) ≤ fdMax) :
    (openWithFixedFd fd file cloexec opened).Ends t
      (fun _ t' => ∃ entry, Installed t t' fd entry ∧ (asUsize fd : ℤ) < fdMax)
      fun e t' => e = .panic ∨ t' = t := by
  match opened with
  | .error errno => exact ends_throw (.inr rfl)
  | .ok newInode =>
    by_cases hneg : fd < 0
    · obtain ⟨t', hpanic⟩ := @openWithFixedFd_negative F t fd file cloexec newInode h32 hneg
      exact hpanic.ends_iff.mpr (.inl rfl)
    have h0 := not_lt.mp hneg
    have hidx := asUsize_of_nonneg h32 h0
    match hopen : t.file? fd with
    | some entry =>
      have hfails : (openWithFixedFd fd file cloexec (.ok newInode)).Fails t
          (.ebadf (some "already opened at the fd")) t := by
        simp only [openWithFixedFd, fails_get_bind, file?_eq_some.mp hopen]
        exact fails_throw.mpr ⟨rfl, rfl⟩
      exact hfails.ends_iff.mpr (.inr rfl)
    | none =>
      by_cases hmax : fd < fdMax
      · obtain ⟨t', hreturns, hinstalled⟩ := @openWithFixedFd_vacant F t fd file cloexec newInode
          h32 h0 hopen (.inl hmax)
        exact hreturns.ends_iff.mpr ⟨_, hinstalled, by omega⟩
      · have hbad := @openWithFixedFd_beyond F t fd file cloexec newInode (not_lt.mp hmax)
          (slot_eq_none (by omega))
        exact hbad.ends_iff.mpr (.inr rfl)

lemma HintOk.openWithFixedFd (h : HintOk t) (h32 : IsI32 fd) (file : F) (cloexec : Bool)
    (opened : Except ℕ (Option F)) : KeepsHint (openWithFixedFd fd file cloexec opened) t := by
  apply (openWithFixedFd_ends t h32 file cloexec opened h.length_le).mono
  · rintro - t' ⟨entry, hinstalled, hlen⟩
    exact h.of_installed hinstalled hlen
  · rintro e t' (he | rfl)
    · exact .inl he
    · exact .inr h

lemma HintOk.close (h : HintOk t) (h32 : IsI32 fd) : KeepsHint (close fd) t := by
  match hopen : t.file? fd with
  | none =>
    have hfails : (Fd.close fd).Fails t (.ebadf none) t := by
      obtain hslot | hslot := slot_not_open hopen <;>
        simp only [Fd.close, fails_get_bind, hslot] <;>
        exact fails_throw.mpr ⟨rfl, rfl⟩
    exact hfails.ends_iff.mpr (.inr h)
  | some entry =>
    obtain ⟨t', hclose, hkept, hnone, hlen, hhint⟩ := close_returns h32 hopen
    have h0 : 0 ≤ fd := by
      by_contra hneg
      rw [file?_of_neg t h32 (by omega)] at hopen
      cases hopen
    refine hclose.ends_iff.mpr ⟨?_, ?_, by rw [hlen]; exact h.length_le, ?_⟩
    · rw [hhint]
      exact le_min h.nonneg h0
    · rw [hhint]
      exact (min_le_left _ _).trans h.le_max
    · intro fd' h0' hlt
      rw [hhint, lt_min_iff] at hlt
      rw [hkept.file_eq fd' (isI32_of_lt_max h0' (lt_of_lt_of_le hlt.1 h.le_max)) (by omega)]
      exact h.used fd' h0' hlt.1

lemma HintOk.dup2 {old : ℤ} (h : HintOk t) (h32 : IsI32 fd) (cloexec : Bool)
    (opened : Except ℕ (Option F)) : KeepsHint (dup2 old fd cloexec opened) t := by
  match hold : t.file? old with
  | none =>
    have hfails : (Fd.dup2 old fd cloexec opened).Fails t (.ebadf none) t := by
      obtain hslot | hslot := slot_not_open hold <;>
        simp only [Fd.dup2, fails_get_bind, hslot] <;>
        exact fails_throw.mpr ⟨rfl, rfl⟩
    exact hfails.ends_iff.mpr (.inr h)
  | some entry =>
    have hclosed : ∃ u, (closeIfOpen fd).Returns t () u ∧ HintOk u := by
      match hnew : t.file? fd with
      | none =>
        obtain ⟨u, hrun, -, -, -, hsame⟩ := closeIfOpen_returns t h32
        exact ⟨u, hrun, hsame.mpr hnew ▸ h⟩
      | some target =>
        obtain ⟨u, hclose, -⟩ := close_returns h32 hnew
        refine ⟨u, ?_, (h.close h32).returns hclose⟩
        simp only [closeIfOpen, returns_get_bind, file?_eq_some.mp hnew]
        exact hclose.ignore
    obtain ⟨u, hrun, hu⟩ := hclosed
    simp only [KeepsHint, Fd.dup2, ends_get_bind, file?_eq_some.mp hold]
    exact hrun.bind_ends_iff.mpr (hu.openWithFixedFd h32 entry.openedFile cloexec opened)

/-- The lowest descriptor that is not in use, if it is below the limit. -/
structure LowestFree (t : OpenedFileTable F) (limit fd : ℤ) : Prop where
  nonneg : 0 ≤ fd
  lt_limit : fd < limit
  free : t.file? fd = none
  lowest : ∀ j, 0 ≤ j → j < fd → t.file? j ≠ none

/-- No descriptor below the limit is free. -/
def Full (t : OpenedFileTable F) (limit : ℤ) : Prop :=
  ∀ fd, 0 ≤ fd → fd < limit → t.file? fd ≠ none

lemma HintOk.allocFd (h : HintOk t) (rlimit : Option ℕ) :
    (∃ i, LowestFree t (narrowLimit rlimit) i ∧
      (allocFd rlimit none).Returns t i { t with lowestFreeHint := i + 1 }) ∨
    (Full t (narrowLimit rlimit) ∧ (allocFd rlimit none).Fails t .emfile t) := by
  have hnonneg := h.nonneg
  match hscan : t.firstFree t.lowestFreeHint (narrowLimit rlimit - t.lowestFreeHint).toNat with
  | some i =>
    obtain ⟨hle, hlt, hfree, hbelow⟩ := firstFree_eq_some hscan
    refine .inl ⟨i, ⟨by omega, by omega, hfree, fun j h0 hj => ?_⟩, ?_⟩
    · by_cases hhint : j < t.lowestFreeHint
      · exact h.used j h0 hhint
      · exact hbelow j (by omega) hj
    · simp only [Fd.allocFd, returns_get_bind, getD_none]
      rw [narrowLimit] at hscan
      rw [hscan]
      exact returns_modify_bind.mpr (returns_pure.mpr ⟨rfl, rfl⟩)
  | none =>
    have hnone := firstFree_eq_none hscan
    refine .inr ⟨fun j h0 hj => ?_, ?_⟩
    · by_cases hhint : j < t.lowestFreeHint
      · exact h.used j h0 hhint
      · exact hnone j (by omega) (by omega)
    · simp only [Fd.allocFd, fails_get_bind, getD_none]
      rw [narrowLimit] at hscan
      rw [hscan]
      exact fails_throw.mpr ⟨rfl, rfl⟩

lemma HintOk.next {i : ℤ} (h : HintOk t) (hi : LowestFree t fdMax i)
    (hinstalled : Installed { t with lowestFreeHint := i + 1 } t' i entry) : HintOk t' where
  nonneg := by
    have := hi.nonneg
    rw [hinstalled.hint_eq]
    change 0 ≤ i + 1
    omega
  le_max := by
    have := hi.lt_limit
    rw [hinstalled.hint_eq]
    change i + 1 ≤ fdMax
    omega
  length_le := by
    have hlen := hinstalled.length_le
    change _ ≤ max t.files.length (asUsize i + 1) at hlen
    have := h.length_le
    have := asUsize_of_nonneg (isI32_of_lt_max hi.nonneg hi.lt_limit) hi.nonneg
    have := hi.lt_limit
    omega
  used := by
    intro fd h0 hlt
    rw [hinstalled.hint_eq] at hlt
    change fd < i + 1 at hlt
    by_cases heq : fd = i
    · rw [heq, hinstalled.file_eq]
      nofun
    · have hmax : fd < fdMax := lt_trans (show fd < i by omega) hi.lt_limit
      rw [hinstalled.kept.file_eq fd (isI32_of_lt_max h0 hmax) heq]
      exact hi.lowest fd h0 (by omega)

lemma narrowLimit_le (rlimit : Option ℕ) : narrowLimit rlimit ≤ fdMax := min_le_right _ _

/-- Opening by the hint: the lowest free descriptor, or the table is full. -/
lemma HintOk.openFile (h : HintOk t) (path : F) (cloexec : Bool) (rlimit : Option ℕ)
    (opened : Except ℕ (Option F)) :
    (∃ i, LowestFree t (narrowLimit rlimit) i ∧
      ((opened.isOk = true ∧ ∃ t', (openFile path cloexec rlimit opened).Returns t i t' ∧
          HintOk t') ∨
        ∃ errno t', (openFile path cloexec rlimit opened).Fails t (.fileOpen errno) t' ∧
          opened = .error errno)) ∨
    (Full t (narrowLimit rlimit) ∧ (openFile path cloexec rlimit opened).Fails t .emfile t) := by
  obtain ⟨i, hi, halloc⟩ | ⟨hfull, halloc⟩ := h.allocFd rlimit
  · have hmax : LowestFree t fdMax i :=
      ⟨hi.nonneg, lt_of_lt_of_le hi.lt_limit (narrowLimit_le rlimit), hi.free, hi.lowest⟩
    refine .inl ⟨i, hi, ?_⟩
    match opened with
    | .error errno =>
      exact .inr ⟨errno, { t with lowestFreeHint := i + 1 },
        halloc.bind_fails (Fails.bind rfl _), rfl⟩
    | .ok newInode =>
      obtain ⟨t', hopen, hinstalled⟩ := @openWithFixedFd_vacant F
        { t with lowestFreeHint := i + 1 } i path cloexec newInode
        (isI32_of_lt_max hmax.nonneg hmax.lt_limit) hmax.nonneg hmax.free (.inl hmax.lt_limit)
      refine .inl ⟨rfl, t', ?_, h.next hmax hinstalled⟩
      exact halloc.bind (hopen.bind (returns_pure.mpr ⟨rfl, rfl⟩))
  · exact .inr ⟨hfull, halloc.bind _⟩

lemma dup_none_eq (hopen : t.file? fd = some entry) (cloexec : Bool) (rlimit : Option ℕ)
    (opened : Except ℕ (Option F)) :
    dup fd none cloexec rlimit opened t = openFile entry.openedFile cloexec rlimit opened t := by
  simp only [dup, bind, Fallible.bind, Fallible.get, file?_eq_some.mp hopen]
  rfl

lemma HintOk.keeps_openFile (h : HintOk t) (path : F) (cloexec : Bool) (rlimit : Option ℕ)
    (hok : opened.isOk = true) :
    KeepsHint (Fd.openFile path cloexec rlimit opened) t := by
  obtain ⟨i, -, ⟨-, t', hrun, ht'⟩ | ⟨errno, t', -, rfl⟩⟩ | ⟨-, hfails⟩ :=
    h.openFile path cloexec rlimit opened
  · exact hrun.ends_iff.mpr ht'
  · cases hok
  · exact hfails.ends_iff.mpr (.inr h)

lemma HintOk.keeps_dup (h : HintOk t) (gte : Option {fd : ℤ // IsI32 fd}) (cloexec : Bool)
    (rlimit : Option ℕ) (hok : gte = none → opened.isOk = true) :
    KeepsHint (dup fd (gte.map Subtype.val) cloexec rlimit opened) t := by
  cases hopen : t.file? fd with
  | none =>
    have hfails : (dup fd (gte.map Subtype.val) cloexec rlimit opened).Fails t (.ebadf none) t := by
      obtain hslot | hslot := slot_not_open hopen <;>
        simp only [dup, fails_get_bind, hslot] <;>
        exact fails_throw.mpr ⟨rfl, rfl⟩
    exact hfails.ends_iff.mpr (.inr h)
  | some entry =>
    cases gte with
    | none =>
      unfold KeepsHint Ends
      rw [map_none, dup_none_eq hopen]
      exact h.keeps_openFile entry.openedFile cloexec rlimit (hok rfl)
    | some gte =>
      simp only [KeepsHint, dup, ends_get_bind, file?_eq_some.mp hopen, map_some]
      obtain ⟨i, halloc, hle, hlt, -⟩ | ⟨halloc, -⟩ := allocFd_gte t rlimit gte.1
      · have hi : IsI32 i := by
          have hmax := lt_of_lt_of_le hlt (narrowLimit_le rlimit)
          unfold IsI32 fdMax at *
          omega
        apply halloc.bind_ends_iff.mpr
        exact (h.openWithFixedFd hi entry.openedFile cloexec opened).bind
          (fun _ u hu => ends_pure hu) fun e u hu => hu
      · exact (halloc.bind _).ends_iff.mpr (.inr h)

lemma asI32_of_lt {i : ℕ} (h : (i : ℤ) < fdMax) : asI32 i = i := by
  unfold fdMax at h
  rw [asI32_eq]
  split_ifs <;> omega

/-- The hint after the scan for close-on-exec files: a lower bound of what was closed. -/
lemma foldl_hint_le (slots : List (Option (LocalOpenedFile F) × ℕ)) (hint : ℤ) :
    let hint' := slots.foldl (fun hint (slot, i) =>
      if isCloexec slot ∧ asI32 i < hint then asI32 i else hint) hint
    hint' ≤ hint ∧ (∀ p ∈ slots, isCloexec p.1 = true → hint' ≤ asI32 p.2) ∧
      (hint' = hint ∨ ∃ p ∈ slots, hint' = asI32 p.2) := by
  induction slots generalizing hint with
  | nil => simp
  | cons p slots ih =>
    obtain ⟨hle, hall, hcases⟩ := ih (if isCloexec p.1 ∧ asI32 p.2 < hint then asI32 p.2 else hint)
    simp only [foldl_cons]
    refine ⟨hle.trans ?_, ?_, ?_⟩
    · split_ifs with hp
      · exact le_of_lt hp.2
      · exact le_refl hint
    · intro q hq hclo
      obtain rfl | hq := mem_cons.mp hq
      · apply hle.trans
        split_ifs with hp
        · exact le_refl _
        · exact not_lt.mp fun hlt => hp ⟨hclo, hlt⟩
      · exact hall q hq hclo
    · obtain heq | ⟨q, hq, heq⟩ := hcases
      · by_cases hp : isCloexec p.1 ∧ asI32 p.2 < hint
        · rw [if_pos hp] at heq
          exact .inr ⟨p, by simp, by rw [if_pos hp]; exact heq⟩
        · rw [if_neg hp] at heq
          exact .inl (by rw [if_neg hp]; exact heq)
      · exact .inr ⟨q, mem_cons_of_mem p hq, heq⟩

lemma HintOk.closeCloexecFiles (h : HintOk t) : KeepsHint closeCloexecFiles t := by
  obtain ⟨hle, hall, hcases⟩ := foldl_hint_le t.files.zipIdx t.lowestFreeHint
  set hint' := t.files.zipIdx.foldl (fun hint (slot, i) =>
    if isCloexec slot ∧ asI32 i < hint then asI32 i else hint) t.lowestFreeHint with hhint
  refine (returns_modify.mpr rfl : Returns _ t () _).ends_iff.mpr ⟨?_, ?_, ?_, ?_⟩
  · change 0 ≤ hint'
    obtain heq | ⟨p, hp, heq⟩ := hcases
    · rw [heq]
      exact h.nonneg
    · have hidx := snd_lt_of_mem_zipIdx hp
      have := h.length_le
      rw [heq, asI32_of_lt (by omega)]
      omega
  · exact hle.trans h.le_max
  · simpa using h.length_le
  · intro fd h0 hlt
    change fd < hint' at hlt
    have hmax : fd < fdMax := lt_of_lt_of_le hlt (hle.trans h.le_max)
    have hidx := asUsize_of_nonneg (isI32_of_lt_max h0 hmax) h0
    obtain ⟨entry, hentry⟩ := ne_none_iff_exists'.mp (h.used fd h0 (lt_of_lt_of_le hlt hle))
    have hslot := file?_eq_some.mp hentry
    have hkeep : isCloexec (some entry) = false := by
      by_contra hclo
      have hmem : (some entry, asUsize fd) ∈ t.files.zipIdx := mem_zipIdx_iff_getElem?.mpr hslot
      have := hall _ hmem (by simpa using hclo)
      rw [asI32_of_lt (by omega)] at this
      omega
    have hmap : (t.files.map fun slot => if isCloexec slot then none else slot)[asUsize fd]?.join =
        some entry := by
      rw [getElem?_map, show t.files[asUsize fd]? = some (some entry) from hslot]
      simp [hkeep]
    exact ne_none_iff_exists'.mpr ⟨entry, hmap⟩

lemma HintOk.program (h : HintOk t) {call : FdCall F} (hfine : call.Fine) :
    KeepsHint call.program t := by
  match call with
  | .openFile path cloexec rlimit opened =>
    exact (h.keeps_openFile path cloexec rlimit hfine).bind (fun _ u hu => ends_pure hu)
      fun e u hu => hu
  | .openFixed fd file cloexec opened => exact h.openWithFixedFd fd.2 file cloexec opened
  | .dup fd gte cloexec rlimit opened =>
    refine (h.keeps_dup gte cloexec rlimit ?_).bind (fun _ u hu => ends_pure hu) fun e u hu => hu
    rintro rfl
    exact hfine
  | .dup2 old new cloexec opened => exact h.dup2 new.2 cloexec opened
  | .close fd => exact h.close fd.2
  | .closeCloexecFiles => exact h.closeCloexecFiles
  | .closeAll => exact (returns_modify.mpr rfl : Returns _ t () _).ends_iff.mpr hintOk_new

lemma FdRun.hintOk (h : FdRun FdCall.Fine t) : HintOk t := by
  induction h with
  | new => exact hintOk_new
  | returned _ hfine hcall ih => exact (ih.program hfine).returns hcall
  | failed _ hfine hcall he ih => exact ((ih.program hfine).fails hcall).resolve_left he

end Calls

/-! ## The law -/

/-- The call returns the lowest free descriptor below the limit; it fails with `EMFILE`
exactly when there is none, and returns if there is one and the file can be opened. -/
structure TakesLowest (x : TableOp F ℤ) (t : OpenedFileTable F) (limit : ℤ)
    (opened : Except ℕ (Option F)) : Prop where
  lowest : ∀ fd t', x.Returns t fd t' → LowestFree t limit fd
  emfile_iff : (∃ t', x.Fails t .emfile t') ↔ Full t limit
  returns : opened.isOk = true → ¬ Full t limit → ∃ fd t', x.Returns t fd t'

/-- Narrowing to `i32` keeps what the limit says below 1024. -/
def LimitFine (limit : ℕ) : Prop :=
  limit < 2 ^ 31 ∨ (1024 ≤ limit % 2 ^ 32 ∧ limit % 2 ^ 32 < 2 ^ 31)

lemma narrowLimit_eq {limit : ℕ} (h : LimitFine limit) :
    narrowLimit (some limit) = min (limit : ℤ) 1024 := by
  unfold LimitFine at h
  simp only [narrowLimit, map_some, getD_some, fdMax, asI32_eq]
  split_ifs <;> omega

variable {t : OpenedFileTable F}

lemma HintOk.takesLowest (h : HintOk t) (path : F) (cloexec : Bool) (rlimit : Option ℕ)
    (opened : Except ℕ (Option F)) :
    TakesLowest (Fd.openFile path cloexec rlimit opened) t (narrowLimit rlimit) opened := by
  obtain ⟨i, hi, ⟨hok, t', hrun, -⟩ | ⟨errno, t', hfails, rfl⟩⟩ | ⟨hfull, hfails⟩ :=
    h.openFile path cloexec rlimit opened
  · have hnot : ¬ Full t (narrowLimit rlimit) := fun hfull => hfull i hi.nonneg hi.lt_limit hi.free
    refine ⟨fun fd u hfd => ?_, ⟨fun ⟨u, hu⟩ => ?_, fun hfull => absurd hfull hnot⟩,
      fun _ _ => ⟨i, t', hrun⟩⟩
    · cases hrun.symm.trans hfd
      exact hi
    · cases hrun.symm.trans hu
  · have hnot : ¬ Full t (narrowLimit rlimit) := fun hfull => hfull i hi.nonneg hi.lt_limit hi.free
    refine ⟨fun fd u hfd => ?_, ⟨fun ⟨u, hu⟩ => ?_, fun hfull => absurd hfull hnot⟩,
      fun hok => by cases hok⟩
    · cases hfails.symm.trans hfd
    · cases hfails.symm.trans hu
  · refine ⟨fun fd u hfd => ?_, ⟨fun _ => hfull, fun _ => ⟨t, hfails⟩⟩,
      fun _ hnot => absurd hfull hnot⟩
    cases hfails.symm.trans hfd

lemma TakesLowest.congr {x y : TableOp F ℤ} {limit : ℤ} {opened : Except ℕ (Option F)}
    (h : TakesLowest x t limit opened) (hxy : y t = x t) :
    TakesLowest y t limit opened := by
  constructor
  · intro fd t' hy
    exact h.lowest fd t' (hxy.symm.trans hy)
  · rw [← h.emfile_iff]
    exact exists_congr fun t' => by rw [Fails, Fails, hxy]
  · intro hok hnot
    obtain ⟨fd, t', hx⟩ := h.returns hok hnot
    exact ⟨fd, t', hxy.trans hx⟩

/-- After any calls that opened their files, `open` and `dup` take the lowest descriptor
that is not in use and below the limit and 1024, or fail with `EMFILE` if there is none. -/
theorem openFile_and_dup_take_lowest {t : OpenedFileTable F} (hrun : FdRun FdCall.Fine t)
    {limit : ℕ} (hlimit : LimitFine limit) (cloexec : Bool) (opened : Except ℕ (Option F)) :
    (∀ path, TakesLowest (Fd.openFile path cloexec (some limit) opened) t
      (min (limit : ℤ) 1024) opened) ∧
    ∀ fd, t.file? fd ≠ none → TakesLowest (dup fd none cloexec (some limit) opened) t
      (min (limit : ℤ) 1024) opened := by
  rw [← narrowLimit_eq hlimit]
  refine ⟨fun path => hrun.hintOk.takesLowest path cloexec (some limit) opened, fun fd hfd => ?_⟩
  obtain ⟨entry, hentry⟩ := ne_none_iff_exists'.mp hfd
  exact (hrun.hintOk.takesLowest entry.openedFile cloexec (some limit) opened).congr
    (dup_none_eq hentry cloexec (some limit) opened)

/-- Two files were opened, the first one duplicated, then descriptor 1 closed, once more in vain,
and descriptor 4 taken by `dup2`. -/
def afterCalls : OpenedFileTable ℕ where
  files := [some ⟨10, false⟩, none, some ⟨10, true⟩, none, some ⟨10, false⟩]
  lowestFreeHint := 1
  length_lt := by norm_num [maxSlots]

lemma afterCalls_run : FdRun FdCall.Fine afterCalls := by
  have returned := @FdRun.returned ℕ FdCall.Fine
  have hzero : IsI32 0 := by norm_num [IsI32]
  have hone : IsI32 1 := by norm_num [IsI32]
  have hopen := returned .new
    (show FdCall.Fine (.openFile 10 false (some 1024) (.ok none)) from rfl) rfl
  have hopen' := returned hopen
    (show FdCall.Fine (.openFile 11 false (some 1024) (.ok none)) from rfl) rfl
  have hdup := returned hopen'
    (show FdCall.Fine (.dup ⟨0, hzero⟩ none true (some 8) (.ok none)) from rfl) rfl
  have hclose := returned hdup (show FdCall.Fine (.close ⟨1, hone⟩) from trivial) rfl
  have hagain := FdRun.failed hclose (show FdCall.Fine (.close ⟨1, hone⟩) from trivial) rfl
    (by simp)
  exact returned hagain
    (show FdCall.Fine (.dup2 ⟨0, hzero⟩ ⟨4, by norm_num [IsI32]⟩ false (.ok none)) from trivial) rfl

/-- The next `open` and `dup` take descriptor 1, below any limit from two on that is fine. -/
theorem openFile_takes_closed :
    TakesLowest (Fd.openFile 12 false (some 2) (.ok none)) afterCalls (min ((2 : ℕ) : ℤ) 1024)
      (.ok none) ∧
    (Fd.openFile 12 false (some 2) (.ok none) afterCalls).1 = .ok 1 ∧
    TakesLowest (dup 4 none true (some (2 ^ 32 + 1024)) (.ok none)) afterCalls
      (min ((2 ^ 32 + 1024 : ℕ) : ℤ) 1024) (.ok none) := by
  have hsmall : LimitFine 2 := .inl (by norm_num)
  have hwide : LimitFine (2 ^ 32 + 1024) := .inr (by norm_num)
  exact ⟨(openFile_and_dup_take_lowest afterCalls_run hsmall false (.ok none)).1 12, by decide,
    (openFile_and_dup_take_lowest afterCalls_run hwide true (.ok none)).2 4 (by decide)⟩

/-- The table after one file was opened and a second one could not be. -/
def afterFailedOpen : OpenedFileTable ℕ :=
  (Fd.openFile 11 false (some 1024) (.error 12)
    (Fd.openFile 10 false (some 1024) (.ok none) .new).2).2

/-- Descriptor 1 is free after the failed call, but the next one gets 2; and with an unlimited
`RLIMIT_NOFILE` an empty table is full. -/
theorem openFile_skips_free :
    afterFailedOpen.file? 1 = none ∧
    (Fd.openFile 12 false (some 1024) (.ok none) afterFailedOpen).1 = .ok 2 ∧
    (Fd.openFile 10 false (some (2 ^ 64 - 1)) (.ok none) (.new : OpenedFileTable ℕ)).1 =
      .error .emfile := by
  decide

end Kevlar.Fd
