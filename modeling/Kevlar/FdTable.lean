import Kevlar.FallibleState
import Kevlar.MachineWord

/-!
# The table of opened files

A descriptor is a signed 32-bit number that comes from user space. It is converted to
an index with sign extension, so a negative one becomes an index near `2 ^ 64`. The
opened files themselves are left abstract; what `FileLike::open` answers is a parameter
of the calls that ask it, since it depends on the state of the device.
-/
namespace Kevlar.Fd
open List

open Fallible hiding pure bind

inductive FdError where
  | ebadf (message : Option String)
  | emfile
  /-- The error that `FileLike::open` returned. -/
  | fileOpen (errno : ℕ)
  /-- Index out of bounds or capacity overflow. -/
  | panic
  deriving DecidableEq, Repr

structure LocalOpenedFile (F : Type) where
  openedFile : F
  closeOnExec : Bool
  deriving DecidableEq, Repr

def fdMax : ℤ := 1024

/-- A vector has at most `isize::MAX` bytes and a slot takes 16 of them. -/
def maxSlots : ℕ := 2 ^ 59

structure OpenedFileTable (F : Type) where
  files : List (Option (LocalOpenedFile F))
  lowestFreeHint : ℤ
  length_lt : files.length < maxSlots

/-- `fd as usize` for an `i32`. -/
def asUsize (fd : ℤ) : ℕ := (fd % 2 ^ 64).toNat

/-- `value as i32` for a machine word. -/
def asI32 (value : ℕ) : ℤ := Int.bmod value (2 ^ 32)

def IsI32 (fd : ℤ) : Prop := -2 ^ 31 ≤ fd ∧ fd < 2 ^ 31

section Table

variable {F : Type}

namespace OpenedFileTable

def new : OpenedFileTable F where
  files := []
  lowestFreeHint := 0
  length_lt := by norm_num [maxSlots]

/-- `self.files.get(fd.as_usize())` -/
def slot (t : OpenedFileTable F) (fd : ℤ) : Option (Option (LocalOpenedFile F)) :=
  t.files[asUsize fd]?

def setSlot (t : OpenedFileTable F) (i : ℕ) (entry : Option (LocalOpenedFile F)) :
    OpenedFileTable F :=
  { t with files := t.files.set i entry, length_lt := by simpa using t.length_lt }

/-- `Vec::resize` with empty slots -/
def resized (t : OpenedFileTable F) (len : ℕ) (h : len < maxSlots) : OpenedFileTable F :=
  { t with
    files := t.files.take len ++ List.replicate (len - t.files.length) none
    length_lt := by simp; omega }

/-- Whether the scan for a free descriptor stops here. -/
def isFree (t : OpenedFileTable F) (fd : ℤ) : Bool :=
  match t.slot fd with
  | some (some _) => false
  | _ => true

/-- The first free descriptor among the `n` from `i` on. -/
def firstFree (t : OpenedFileTable F) : ℤ → ℕ → Option ℤ
  | _, 0 => none
  | i, n + 1 => if t.isFree i then some i else t.firstFree (i + 1) n

end OpenedFileTable

/-- A program on the table. -/
abbrev TableOp (F α : Type) : Type := Fallible FdError (OpenedFileTable F) α

def close (fd : ℤ) : TableOp F Unit := do
  let t ← get
  match t.slot fd with
  | some (some _) =>
    modify fun t =>
      { t.setSlot (asUsize fd) none with
        lowestFreeHint := if fd < t.lowestFreeHint then fd else t.lowestFreeHint }
  | _ => throw (.ebadf none)

/-- A length that no vector can have is a capacity overflow. -/
def resize (len : ℕ) : TableOp F Unit :=
  if h : len < maxSlots then modify fun t => t.resized len h
  else throw .panic

/-- `opened` is what `FileLike::open` returns: an error, or another file to use instead;
`ok none` also stands for inodes that are not files. -/
def openWithFixedFd (fd : ℤ) (openedFile : F) (closeOnExec : Bool)
    (opened : Except ℕ (Option F)) : TableOp F Unit :=
  match opened with
  | .error errno => throw (.fileOpen errno)
  | .ok newInode => do
    let entry := some { openedFile := newInode.getD openedFile, closeOnExec }
    let t ← get
    match t.slot fd with
    | some (some _) => throw (.ebadf (some "already opened at the fd"))
    | some none => modify fun t => t.setSlot (asUsize fd) entry
    | none =>
      if fd ≥ fdMax then throw (.ebadf none)
      else do
        resize (wadd (asUsize fd) 1)
        let t ← get
        if asUsize fd < t.files.length then modify fun t => t.setSlot (asUsize fd) entry
        else throw .panic

/-- `rlimit` is the soft limit of the current process, if there is one. -/
def allocFd (rlimit : Option ℕ) (gte : Option ℤ) : TableOp F ℤ := do
  let limit := min ((rlimit.map asI32).getD fdMax) fdMax
  let t ← get
  let start := gte.getD t.lowestFreeHint
  match t.firstFree start (limit - start).toNat, gte with
  | some i, none => do
    modify fun t => { t with lowestFreeHint := i + 1 }
    pure i
  | some i, some _ => pure i
  | none, _ => throw .emfile

def openFile (path : F) (closeOnExec : Bool) (rlimit : Option ℕ) (opened : Except ℕ (Option F)) :
    TableOp F ℤ := do
  let fd ← allocFd rlimit none
  openWithFixedFd fd path closeOnExec opened
  pure fd

def dup (fd : ℤ) (gte : Option ℤ) (closeOnExec : Bool) (rlimit : Option ℕ)
    (opened : Except ℕ (Option F)) : TableOp F ℤ := do
  let t ← get
  match t.slot fd with
  | some (some old) => do
    let fd ← allocFd rlimit gte
    openWithFixedFd fd old.openedFile closeOnExec opened
    pure fd
  | _ => throw (.ebadf none)

/-- The first part of `dup2`: the target is closed before anything else can fail. -/
def closeIfOpen (fd : ℤ) : TableOp F Unit := do
  let t ← get
  match t.slot fd with
  | some (some _) => ignore (close fd)
  | _ => pure ()

def dup2 (old new : ℤ) (closeOnExec : Bool) (opened : Except ℕ (Option F)) : TableOp F Unit := do
  let t ← get
  match t.slot old with
  | some (some entry) => do
    closeIfOpen new
    openWithFixedFd new entry.openedFile closeOnExec opened
  | _ => throw (.ebadf none)

def closeAll : TableOp F Unit := modify fun _ => .new

def isCloexec : Option (LocalOpenedFile F) → Bool
  | some entry => entry.closeOnExec
  | none => false

def closeCloexecFiles : TableOp F Unit :=
  modify fun t =>
    { files := t.files.map fun slot => if isCloexec slot then none else slot
      lowestFreeHint := t.files.zipIdx.foldl (fun hint (slot, i) =>
        if isCloexec slot ∧ asI32 i < hint then asI32 i else hint) t.lowestFreeHint
      length_lt := by simpa using t.length_lt }

/-! ## The system calls -/

def sysDup2 (old new : ℤ) (opened : Except ℕ (Option F)) : TableOp F ℤ := do
  dup2 old new false opened
  pure new

/-- `fcntl(fd, F_DUPFD, arg)`, or `F_DUPFD_CLOEXEC` -/
def fcntlDupfd (cloexec : Bool) (fd : ℤ) (arg : ℕ) (rlimit : Option ℕ)
    (opened : Except ℕ (Option F)) : TableOp F ℤ :=
  dup fd (some (asI32 arg)) cloexec rlimit opened

/-! ## Close-on-exec descriptors -/

lemma foldl_zipIdx_of_not_cloexec {files : List (Option (LocalOpenedFile F))}
    (h : ∀ slot ∈ files, isCloexec slot = false) (hint : ℤ) (start : ℕ) :
    (files.zipIdx start).foldl (fun hint (slot, i) =>
      if isCloexec slot ∧ asI32 i < hint then asI32 i else hint) hint = hint := by
  induction files generalizing start with
  | nil => rfl
  | cons slot files ih =>
    rw [zipIdx_cons, foldl_cons]
    dsimp only
    rw [h slot mem_cons_self, if_neg (by simp)]
    exact ih (fun slot' hslot' => h slot' (mem_cons_of_mem _ hslot')) (start + 1)

/-- Closing the close-on-exec descriptors changes the table iff there is one. -/
lemma closeCloexecFiles_eq_self_iff (t : OpenedFileTable F) :
    (closeCloexecFiles t).2 = t ↔ ∀ slot ∈ t.files, isCloexec slot = false := by
  constructor
  · intro h slot hslot
    have hfiles : t.files.map (fun slot => if isCloexec slot then none else slot) = t.files :=
      congrArg OpenedFileTable.files h
    have hsame := map_inj_left.mp (hfiles.trans (map_id t.files).symm) slot hslot
    by_contra hcloexec
    rw [Bool.not_eq_false] at hcloexec
    rw [if_pos hcloexec, id] at hsame
    rw [← hsame] at hcloexec
    cases hcloexec
  · intro h
    have hfiles : t.files.map (fun slot => if isCloexec slot then none else slot) = t.files := by
      refine (map_congr_left fun slot hslot => ?_).trans (map_id t.files)
      rw [h slot hslot]
      rfl
    have hhint := foldl_zipIdx_of_not_cloexec h t.lowestFreeHint 0
    exact OpenedFileTable.mk.injEq .. |>.mpr ⟨hfiles, hhint⟩

/-! ## Descriptors and slots -/

variable {fd : ℤ}

lemma asUsize_of_nonneg (h : IsI32 fd) (h0 : 0 ≤ fd) : (asUsize fd : ℤ) = fd := by
  unfold asUsize IsI32 at *
  omega

lemma maxSlots_le_asUsize (h : IsI32 fd) (hneg : fd < 0) :
    asUsize fd = 2 ^ 64 - (-fd).toNat ∧ maxSlots ≤ asUsize fd := by
  unfold asUsize IsI32 maxSlots at *
  omega

lemma asUsize_inj {fd' : ℤ} (h : IsI32 fd) (h' : IsI32 fd') (heq : asUsize fd = asUsize fd') :
    fd = fd' := by
  unfold asUsize IsI32 at *
  omega

lemma asI32_eq (value : ℕ) :
    asI32 value = if value % 4294967296 < 2147483648 then (value : ℤ) % 4294967296
      else (value : ℤ) % 4294967296 - 4294967296 := by
  have hpow : (2 : ℕ) ^ 32 = 4294967296 := by norm_num
  unfold asI32
  rw [hpow, Int.bmod_def]
  split_ifs <;> omega

lemma isI32_asI32 (value : ℕ) : IsI32 (asI32 value) := by
  rw [asI32_eq, IsI32]
  split_ifs <;> omega

namespace OpenedFileTable

/-- The file that is open at a descriptor. -/
def file? (t : OpenedFileTable F) (fd : ℤ) : Option (LocalOpenedFile F) := (t.slot fd).join

variable {t : OpenedFileTable F} {fd : ℤ}

lemma file?_eq_some {entry : LocalOpenedFile F} :
    t.file? fd = some entry ↔ t.slot fd = some (some entry) := by
  simp [file?, Option.join_eq_some_iff]

lemma isFree_iff : t.isFree fd = true ↔ t.file? fd = none := by
  unfold isFree file?
  match t.slot fd with
  | none | some none | some (some entry) => simp

lemma slot_eq_none (h : t.files.length ≤ asUsize fd) :
    t.slot fd = none := getElem?_eq_none h

lemma slot_of_neg (t : OpenedFileTable F) (h : IsI32 fd) (hneg : fd < 0) :
    t.slot fd = none :=
  slot_eq_none (le_of_lt (lt_of_lt_of_le t.length_lt (maxSlots_le_asUsize h hneg).2))

lemma file?_setSlot {fd' : ℤ} {entry : Option (LocalOpenedFile F)} (h : IsI32 fd) (h' : IsI32 fd')
    (hin : asUsize fd < t.files.length) :
    (t.setSlot (asUsize fd) entry).file? fd' = if fd' = fd then entry else t.file? fd' := by
  unfold file? slot setSlot
  by_cases heq : fd' = fd
  · subst heq
    simp [getElem?_set_self hin]
  · have hne : asUsize fd ≠ asUsize fd' := fun hidx => heq (asUsize_inj h' h hidx.symm)
    simp [heq, getElem?_set_ne hne]

end OpenedFileTable

/-- The table has not shrunk and only the target may have changed. -/
structure Kept (t t' : OpenedFileTable F) (target : ℤ) : Prop where
  length_le : t.files.length ≤ t'.files.length
  file_eq : ∀ fd, IsI32 fd → fd ≠ target → t'.file? fd = t.file? fd

lemma Kept.trans {t u t' : OpenedFileTable F} {target : ℤ} (h : Kept t u target)
    (h' : Kept u t' target) : Kept t t' target :=
  ⟨h.length_le.trans h'.length_le, fun fd hfd hne => (h'.file_eq fd hfd hne).trans
    (h.file_eq fd hfd hne)⟩

/-- The entry was put at a descriptor and nothing else happened. -/
structure Installed (t t' : OpenedFileTable F) (fd : ℤ) (entry : LocalOpenedFile F) : Prop where
  kept : Kept t t' fd
  file_eq : t'.file? fd = some entry
  hint_eq : t'.lowestFreeHint = t.lowestFreeHint
  length_le : t'.files.length ≤ max t.files.length (asUsize fd + 1)

section Calls

variable {t : OpenedFileTable F} {fd : ℤ} {file : F} {cloexec : Bool} {newInode : Option F}

lemma installed_setSlot {entry : LocalOpenedFile F} (h : IsI32 fd)
    (hin : asUsize fd < t.files.length) :
    Installed t (t.setSlot (asUsize fd) (some entry)) fd entry where
  kept := by
    constructor
    · simp [OpenedFileTable.setSlot]
    · intro fd' h' hne
      rw [OpenedFileTable.file?_setSlot h h' hin, if_neg hne]
  file_eq := by rw [OpenedFileTable.file?_setSlot h h hin, if_pos rfl]
  hint_eq := rfl
  length_le := by simp [OpenedFileTable.setSlot]

/-- Descriptor -1 empties the table before the index fails; the other negative ones ask for
more slots than there can be. -/
lemma openWithFixedFd_negative (h : IsI32 fd) (hneg : fd < 0) :
    ∃ t', (openWithFixedFd fd file cloexec (.ok newInode)).Fails t .panic t' := by
  obtain ⟨hidx, hbig⟩ := maxSlots_le_asUsize h hneg
  have hmax : ¬ fd ≥ fdMax := by
    unfold fdMax
    omega
  simp only [openWithFixedFd, fails_get_bind, t.slot_of_neg h hneg, if_neg hmax]
  by_cases hone : fd = -1
  · subst hone
    have hlen : wadd (asUsize (-1)) 1 = 0 := by decide
    refine ⟨t.resized 0 (by norm_num [maxSlots]), ?_⟩
    have hresize : (resize 0).Returns t () (t.resized 0 (by norm_num [maxSlots])) := rfl
    apply hresize.bind_fails
    rw [fails_get_bind, if_neg (by simp [OpenedFileTable.resized])]
    exact fails_throw.mpr ⟨rfl, rfl⟩
  · refine ⟨t, Fails.bind ?_ _⟩
    have hlen : wadd (asUsize fd) 1 = asUsize fd + 1 := by
      exact wadd_of_lt (by omega)
    rw [resize, hlen, dif_neg (by omega)]
    exact fails_throw.mpr ⟨rfl, rfl⟩

lemma openWithFixedFd_beyond (hmax : fdMax ≤ fd) (hslot : t.slot fd = none) :
    (openWithFixedFd fd file cloexec (.ok newInode)).Fails t (.ebadf none) t := by
  simp only [openWithFixedFd, fails_get_bind, hslot, if_pos (show fd ≥ fdMax from hmax)]
  exact fails_throw.mpr ⟨rfl, rfl⟩

/-- Growing the table for a descriptor changes no descriptor. -/
lemma resize_grows (h : IsI32 fd) (h0 : 0 ≤ fd) (hmax : fd < fdMax)
    (hout : t.files.length ≤ asUsize fd) :
    ∃ u, (resize (wadd (asUsize fd) 1)).Returns t () u ∧ u.files.length = asUsize fd + 1 ∧
      (∀ fd', u.file? fd' = t.file? fd') ∧ u.lowestFreeHint = t.lowestFreeHint := by
  have hidx := asUsize_of_nonneg h h0
  unfold fdMax at hmax
  have hlen : wadd (asUsize fd) 1 = asUsize fd + 1 := wadd_of_lt (by omega)
  have hslots : asUsize fd + 1 < maxSlots := by
    unfold maxSlots
    omega
  refine ⟨t.resized (asUsize fd + 1) hslots, ?_, ?_, ?_, rfl⟩
  · rw [hlen, resize, dif_pos hslots]
    exact returns_modify.mpr rfl
  · simp [OpenedFileTable.resized]
    omega
  · intro fd'
    change (t.files.take (asUsize fd + 1) ++
      replicate (asUsize fd + 1 - t.files.length) none)[asUsize fd']?.join =
        t.files[asUsize fd']?.join
    rw [take_of_length_le (by omega), getElem?_append]
    by_cases hin : asUsize fd' < t.files.length
    · rw [if_pos hin]
    · rw [if_neg hin, getElem?_replicate, getElem?_eq_none (by omega)]
      split_ifs <;> rfl

lemma openWithFixedFd_vacant (h : IsI32 fd) (h0 : 0 ≤ fd) (hfree : t.file? fd = none)
    (hin : fd < fdMax ∨ asUsize fd < t.files.length) :
    ∃ t', (openWithFixedFd fd file cloexec (.ok newInode)).Returns t () t' ∧
      Installed t t' fd ⟨newInode.getD file, cloexec⟩ := by
  by_cases hlen : asUsize fd < t.files.length
  · have hslot : t.slot fd = some none := by
      unfold OpenedFileTable.file? OpenedFileTable.slot at *
      rw [getElem?_eq_getElem hlen] at hfree ⊢
      exact congrArg some hfree
    refine ⟨_, ?_, installed_setSlot h hlen⟩
    simp only [openWithFixedFd, returns_get_bind, hslot]
    exact returns_modify.mpr rfl
  · have hmax : fd < fdMax := hin.resolve_right hlen
    obtain ⟨u, hresize, hulen, hufile, huhint⟩ := resize_grows h h0 hmax (not_lt.mp hlen)
    have hinstalled := @installed_setSlot F u fd ⟨newInode.getD file, cloexec⟩ h (by omega)
    refine ⟨u.setSlot (asUsize fd) (some ⟨newInode.getD file, cloexec⟩), ?_, ?_⟩
    · simp only [openWithFixedFd, returns_get_bind,
        OpenedFileTable.slot_eq_none (not_lt.mp hlen), if_neg (not_le.mpr hmax)]
      apply hresize.bind
      rw [returns_get_bind, if_pos (by omega)]
      exact returns_modify.mpr rfl
    · constructor
      · constructor
        · have := hinstalled.kept.length_le
          omega
        · intro fd' h' hne
          rw [hinstalled.kept.file_eq fd' h' hne, hufile]
      · exact hinstalled.file_eq
      · exact huhint
      · have := hinstalled.length_le
        omega

lemma close_returns {entry : LocalOpenedFile F} (h : IsI32 fd)
    (hopen : t.file? fd = some entry) :
    ∃ t', (close fd).Returns t () t' ∧ Kept t t' fd ∧ t'.file? fd = none ∧
      t'.files.length = t.files.length ∧ t'.lowestFreeHint = min t.lowestFreeHint fd := by
  have hslot := OpenedFileTable.file?_eq_some.mp hopen
  have hlen : asUsize fd < t.files.length := (List.getElem?_eq_some_iff.mp hslot).1
  have hfile : ∀ fd', IsI32 fd' →
      (t.setSlot (asUsize fd) none).file? fd' = if fd' = fd then none else t.file? fd' :=
    fun fd' h' => OpenedFileTable.file?_setSlot h h' hlen
  refine ⟨{ t.setSlot (asUsize fd) none with
    lowestFreeHint := if fd < t.lowestFreeHint then fd else t.lowestFreeHint }, ?_, ?_, ?_, ?_, ?_⟩
  · simp only [close, returns_get_bind, hslot]
    exact returns_modify.mpr rfl
  · constructor
    · simp [OpenedFileTable.setSlot]
    · intro fd' h' hne
      exact (hfile fd' h').trans (if_neg hne)
  · exact (hfile fd h).trans (if_pos rfl)
  · simp [OpenedFileTable.setSlot]
  · change (if fd < t.lowestFreeHint then fd else t.lowestFreeHint) = _
    split_ifs <;> omega

lemma firstFree_eq_some {n : ℕ} {i : ℤ} (h : t.firstFree i n = some fd) :
    i ≤ fd ∧ fd < i + n ∧ t.file? fd = none ∧ ∀ j, i ≤ j → j < fd → t.file? j ≠ none := by
  induction n generalizing i with
  | zero => simp [OpenedFileTable.firstFree] at h
  | succ n ih =>
    rw [OpenedFileTable.firstFree] at h
    by_cases hfree : t.isFree i = true
    · rw [if_pos hfree] at h
      obtain rfl : i = fd := by simpa using h
      exact ⟨le_refl i, by push_cast; omega, OpenedFileTable.isFree_iff.mp hfree,
        fun j hj hlt => absurd hlt (not_lt.mpr hj)⟩
    · rw [if_neg hfree] at h
      obtain ⟨hle, hlt, hnone, hbelow⟩ := ih h
      refine ⟨by omega, by push_cast; omega, hnone, fun j hj hjfd => ?_⟩
      by_cases hji : j = i
      · subst hji
        exact fun hj => hfree (OpenedFileTable.isFree_iff.mpr hj)
      · exact hbelow j (by omega) hjfd

lemma firstFree_eq_none {n : ℕ} {i : ℤ} (h : t.firstFree i n = none) :
    ∀ j, i ≤ j → j < i + n → t.file? j ≠ none := by
  induction n generalizing i with
  | zero => intro j hj hlt; simp at hlt; omega
  | succ n ih =>
    rw [OpenedFileTable.firstFree] at h
    by_cases hfree : t.isFree i = true
    · simp [if_pos hfree] at h
    · rw [if_neg hfree] at h
      intro j hj hlt
      by_cases hji : j = i
      · subst hji
        exact fun hj => hfree (OpenedFileTable.isFree_iff.mpr hj)
      · exact ih h j (by omega) (by push_cast at hlt; omega)

/-- The limit that the scan uses. -/
def narrowLimit (rlimit : Option ℕ) : ℤ := min ((rlimit.map asI32).getD fdMax) fdMax

/-- The scan for a descriptor that is not below `gte`. -/
lemma allocFd_gte (t : OpenedFileTable F) (rlimit : Option ℕ) (gte : ℤ) :
    (∃ i, (allocFd rlimit (some gte)).Returns t i t ∧ gte ≤ i ∧ i < narrowLimit rlimit ∧
      t.file? i = none ∧ ∀ j, gte ≤ j → j < i → t.file? j ≠ none) ∨
    ((allocFd rlimit (some gte)).Fails t .emfile t ∧
      ∀ j, gte ≤ j → j < narrowLimit rlimit → t.file? j ≠ none) := by
  match hscan : t.firstFree gte (narrowLimit rlimit - gte).toNat with
  | some i =>
    obtain ⟨hle, hlt, hnone, hbelow⟩ := firstFree_eq_some hscan
    refine .inl ⟨i, ?_, hle, by omega, hnone, hbelow⟩
    simp only [allocFd, returns_get_bind, Option.getD_some]
    rw [narrowLimit] at hscan
    rw [hscan]
    exact returns_pure.mpr ⟨rfl, rfl⟩
  | none =>
    have hnone := firstFree_eq_none hscan
    refine .inr ⟨?_, fun j hj hlt => hnone j hj (by omega)⟩
    simp only [allocFd, fails_get_bind, Option.getD_some]
    rw [narrowLimit] at hscan
    rw [hscan]
    exact fails_throw.mpr ⟨rfl, rfl⟩

end Calls

/-! ## Frames of the duplicating calls -/

/-- The call does not panic; a descriptor other than the returned one is as before and the
table has not shrunk; after an error the table is what it was. -/
def Framed (x : TableOp F ℤ) (t : OpenedFileTable F) : Prop :=
  x.Ends t (fun target t' => Kept t t' target) fun e t' => e ≠ .panic ∧ t' = t

lemma slot_not_open {t : OpenedFileTable F} (h : t.file? fd = none) :
    t.slot fd = none ∨ t.slot fd = some none := by
  unfold OpenedFileTable.file? at h
  match hslot : t.slot fd with
  | none => exact .inl rfl
  | some none => exact .inr rfl
  | some (some entry) => simp [hslot] at h

section

variable (t : OpenedFileTable F)
include t

lemma closeIfOpen_returns (h : IsI32 fd) :
    ∃ u, (closeIfOpen fd).Returns t () u ∧ Kept t u fd ∧ u.file? fd = none ∧
      u.files.length = t.files.length ∧ (u = t ↔ t.file? fd = none) := by
  match hopen : t.file? fd with
  | none =>
    refine ⟨t, ?_, ⟨le_refl _, fun _ _ _ => rfl⟩, hopen, rfl, by simp⟩
    obtain hslot | hslot := slot_not_open hopen <;>
      simp only [closeIfOpen, returns_get_bind, hslot] <;>
      exact returns_pure.mpr ⟨rfl, rfl⟩
  | some entry =>
    obtain ⟨u, hclose, hkept, hnone, hlen, -⟩ := close_returns h hopen
    refine ⟨u, ?_, hkept, hnone, hlen, ?_⟩
    · simp only [closeIfOpen, returns_get_bind, OpenedFileTable.file?_eq_some.mp hopen]
      exact hclose.ignore
    · constructor
      · rintro rfl
        rw [hopen] at hnone
        exact hnone
      · intro h
        cases h

lemma framed_sysDup2_iff {old new : ℤ} (hnew : IsI32 new) (opened : Except ℕ (Option F)) :
    Framed (sysDup2 old new opened) t ↔
      (t.file? old ≠ none →
        (opened.isOk = true → 0 ≤ new) ∧ (opened.isOk = false → t.file? new = none)) := by
  match hold : t.file? old with
  | none =>
    have hfails : (sysDup2 old new opened).Fails t (.ebadf none) t := by
      apply Fails.bind
      obtain hslot | hslot := slot_not_open hold <;>
        simp only [dup2, fails_get_bind, hslot] <;>
        exact fails_throw.mpr ⟨rfl, rfl⟩
    rw [Framed, hfails.ends_iff]
    simp
  | some entry =>
    obtain ⟨u, hclose, hkept, hnone, hlen, hsame⟩ := closeIfOpen_returns t hnew
    have hslot := OpenedFileTable.file?_eq_some.mp hold
    have hfails : ∀ e t', (openWithFixedFd new entry.openedFile false opened).Fails u e t' →
        (sysDup2 old new opened).Fails t e t' := by
      intro e t' h
      apply Fails.bind
      simp only [dup2, fails_get_bind, hslot]
      exact hclose.bind_fails h
    match opened with
    | .error errno =>
      rw [Framed, (hfails (.fileOpen errno) u rfl).ends_iff]
      simp [Except.isOk, Except.toBool, hsame]
    | .ok newInode =>
      by_cases hneg : new < 0
      · obtain ⟨t', hpanic⟩ := openWithFixedFd_negative hnew hneg
        rw [Framed, (hfails _ _ hpanic).ends_iff]
        simp [Except.isOk, Except.toBool, hneg]
      · have hzero : 0 ≤ new := not_lt.mp hneg
        by_cases hin : new < fdMax ∨ asUsize new < u.files.length
        · obtain ⟨t', hopen, hinstalled⟩ :=
            @openWithFixedFd_vacant F u new entry.openedFile false newInode hnew hzero hnone hin
          have hreturns : (sysDup2 old new (.ok newInode)).Returns t new t' := by
            apply Returns.bind
            · simp only [dup2, returns_get_bind, hslot]
              exact hclose.bind hopen
            · exact returns_pure.mpr ⟨rfl, rfl⟩
          rw [Framed, hreturns.ends_iff]
          simp only [Except.isOk, Except.toBool, hzero]
          simpa using hkept.trans hinstalled.kept
        · have hmax : fdMax ≤ new := not_lt.mp fun h => hin (.inl h)
          have hout : u.files.length ≤ asUsize new := not_lt.mp fun h => hin (.inr h)
          have hbad := @openWithFixedFd_beyond F u new entry.openedFile false newInode hmax
            (OpenedFileTable.slot_eq_none hout)
          have hnotOpen : t.file? new = none := by
            rw [OpenedFileTable.file?, OpenedFileTable.slot_eq_none (hlen ▸ hout)]
            rfl
          rw [Framed, (hfails _ _ hbad).ends_iff]
          simp [Except.isOk, Except.toBool, hzero, hsame, hnotOpen]

lemma file?_of_neg (h : IsI32 fd) (hneg : fd < 0) : t.file? fd = none := by
  rw [OpenedFileTable.file?, t.slot_of_neg h hneg]
  rfl

lemma framed_fcntlDupfd_iff (cloexec : Bool) (fd : ℤ) (arg : ℕ) (rlimit : Option ℕ)
    (opened : Except ℕ (Option F)) : Framed (fcntlDupfd cloexec fd arg rlimit opened) t ↔
      (t.file? fd ≠ none → opened.isOk = true →
        0 ≤ asI32 arg ∨ narrowLimit rlimit ≤ asI32 arg) := by
  have hgte := isI32_asI32 arg
  match hold : t.file? fd with
  | none =>
    have hfails : (fcntlDupfd cloexec fd arg rlimit opened).Fails t (.ebadf none) t := by
      obtain hslot | hslot := slot_not_open hold <;>
        simp only [fcntlDupfd, dup, fails_get_bind, hslot] <;>
        exact fails_throw.mpr ⟨rfl, rfl⟩
    rw [Framed, hfails.ends_iff]
    simp
  | some entry =>
    have hslot := OpenedFileTable.file?_eq_some.mp hold
    obtain ⟨i, halloc, hle, hlt, hfree, hbelow⟩ | ⟨halloc, hfull⟩ :=
      allocFd_gte t rlimit (asI32 arg)
    · have hmax : i < fdMax := lt_of_lt_of_le hlt (min_le_right _ _)
      have hi : IsI32 i := by
        unfold IsI32 fdMax at *
        omega
      have hfails : ∀ e t', (openWithFixedFd i entry.openedFile cloexec opened).Fails t e t' →
          (fcntlDupfd cloexec fd arg rlimit opened).Fails t e t' := by
        intro e t' h
        simp only [fcntlDupfd, dup, fails_get_bind, hslot]
        exact halloc.bind_fails (h.bind _)
      match opened with
      | .error errno =>
        rw [Framed, (hfails (.fileOpen errno) t rfl).ends_iff]
        simp [Except.isOk, Except.toBool]
      | .ok newInode =>
        by_cases hneg : i < 0
        · obtain ⟨t', hpanic⟩ := openWithFixedFd_negative hi hneg
          rw [Framed, (hfails _ _ hpanic).ends_iff]
          simp [Except.isOk, Except.toBool]
          omega
        · have hzero : 0 ≤ asI32 arg := by
            by_contra hnot
            exact hbelow (asI32 arg) (le_refl _) (by omega) (file?_of_neg t hgte (by omega))
          obtain ⟨t', hopen, hinstalled⟩ := @openWithFixedFd_vacant F t i entry.openedFile cloexec
            newInode hi (not_lt.mp hneg) hfree (.inl hmax)
          have hreturns : (fcntlDupfd cloexec fd arg rlimit (.ok newInode)).Returns t i t' := by
            simp only [fcntlDupfd, dup, returns_get_bind, hslot]
            exact halloc.bind (hopen.bind (returns_pure.mpr ⟨rfl, rfl⟩))
          rw [Framed, hreturns.ends_iff]
          simp [hzero, hinstalled.kept]
    · have hfails : (fcntlDupfd cloexec fd arg rlimit opened).Fails t .emfile t := by
        simp only [fcntlDupfd, dup, fails_get_bind, hslot]
        exact halloc.bind _
      rw [Framed, hfails.ends_iff]
      refine iff_of_true (by simp) fun _ _ => ?_
      by_contra hnot
      exact hfull (asI32 arg) (le_refl _) (by omega) (file?_of_neg t hgte (by omega))

end

/-- `dup2` and `F_DUPFD` leave the table in order exactly when, the source being open, the
target is not negative where the file can be opened, and, for `dup2`, the target is
closed where it cannot. -/
theorem duplicating_calls_framed_iff (t : OpenedFileTable F) :
    (∀ old new : ℤ, IsI32 old → IsI32 new → ∀ opened : Except ℕ (Option F),
      (Framed (sysDup2 old new opened) t ↔ (t.file? old ≠ none →
        (opened.isOk = true → 0 ≤ new) ∧ (opened.isOk = false → t.file? new = none)))) ∧
    ∀ (cloexec : Bool) (fd : ℤ) (arg : ℕ) (rlimit : Option ℕ) (opened : Except ℕ (Option F)),
      IsI32 fd → (Framed (fcntlDupfd cloexec fd arg rlimit opened) t ↔
        (t.file? fd ≠ none → opened.isOk = true →
          0 ≤ asI32 arg ∨ narrowLimit rlimit ≤ asI32 arg)) :=
  ⟨fun _ _ _ hnew opened => framed_sysDup2_iff t hnew opened,
    fun cloexec fd arg rlimit opened _ => framed_fcntlDupfd_iff t cloexec fd arg rlimit opened⟩

end Table

/-- Two files open at descriptors 0 and 1. -/
def twoFiles : OpenedFileTable ℕ where
  files := [some ⟨10, false⟩, some ⟨11, true⟩]
  lowestFreeHint := 2
  length_lt := by decide

/-- Duplicating onto an open descriptor, and past a number of descriptors. -/
theorem twoFiles_framed :
    Framed (sysDup2 0 1 (.ok none)) twoFiles ∧
    Framed (fcntlDupfd false 1 10 (some 1024) (.ok none)) twoFiles := by
  obtain ⟨hdup2, hdupfd⟩ := duplicating_calls_framed_iff twoFiles
  constructor
  · apply (hdup2 0 1 (by norm_num [IsI32]) (by norm_num [IsI32]) _).mpr
    decide
  · apply (hdupfd false 1 10 (some 1024) _ (by norm_num [IsI32])).mpr
    decide

/-- `dup2(0, -1)` empties the table and panics, and a `dup2(0, 1)` whose file cannot be opened
again (error 12, `ENOMEM`) has closed descriptor 1. -/
theorem sysDup2_negative_and_failed :
    (sysDup2 0 (-1) (.ok none) twoFiles).1 = .error .panic ∧
    (sysDup2 0 (-1) (.ok none) twoFiles).2.files = [] ∧
    (sysDup2 0 1 (.error 12) twoFiles).1 = .error (.fileOpen 12) ∧
    (sysDup2 0 1 (.error 12) twoFiles).2.files = [some ⟨10, false⟩, none] ∧
    (fcntlDupfd false 0 0xffffffff (some 1024) (.ok none) twoFiles).1 = .error .panic := by
  decide

end Kevlar.Fd
