import Kevlar.InitStack
import Mathlib.Data.List.TakeWhile

/-!
# What a program finds on its initial stack

A program reads its stack by the System V convention: `argc`, the argument pointers
up to a null pointer, the environment pointers up to a null pointer, and the auxiliary
vector up to `AT_NULL`. `decodeStack` is that reading, on user addresses. The tables
are pushed downwards, so the loop that pushes the environment pointers in list order
leaves them in reverse.
-/
namespace Kevlar.InitStack
open List ByteBuffer
open Fallible hiding pure bind

structure Decoded where
  argc : ℕ
  argv : List (List (BitVec 8))
  envp : List (List (BitVec 8))
  auxv : List Auxv
  deriving DecidableEq

def decodeAuxv (mem : Bytes) (limit : ℕ) : ℕ × ℕ → Option Auxv
  | (3, value) => some (.phdr (BitVec.ofNat 64 value))
  | (4, value) => some (.phent (BitVec.ofNat 64 value))
  | (5, value) => some (.phnum (BitVec.ofNat 64 value))
  | (6, value) => some (.pagesz (BitVec.ofNat 64 value))
  | (7, value) => some (.base (BitVec.ofNat 64 value))
  | (9, value) => some (.entry (BitVec.ofNat 64 value))
  | (11, value) => some (.uid (BitVec.ofNat 64 value))
  | (12, value) => some (.euid (BitVec.ofNat 64 value))
  | (13, value) => some (.gid (BitVec.ofNat 64 value))
  | (14, value) => some (.egid (BitVec.ofNat 64 value))
  | (15, value) => (cString mem limit value).map .platform
  | (16, value) => some (.hwcap (BitVec.ofNat 64 value))
  | (17, value) => some (.clktck (BitVec.ofNat 64 value))
  | (23, value) => some (.secure (BitVec.ofNat 64 value))
  | (25, value) => some (.random (Vector.ofFn fun i => mem (value + i)))
  | (26, value) => some (.hwcap2 (BitVec.ofNat 64 value))
  | (31, value) => (cString mem limit value).map .execFn
  | (33, value) => some (.sysinfoEhdr (BitVec.ofNat 64 value))
  | (51, value) => some (.minSigStkSz (BitVec.ofNat 64 value))
  | _ => none

/-- The initial stack as a program reads it, below the top of its stack. -/
def decodeStack (mem : Bytes) (stackTop sp : ℕ) : Option Decoded := do
  let limit := stackTop - sp
  let (argvPtrs, envpAddr) ← wordsUntilZero mem limit (sp + 8)
  let (envpPtrs, auxvAddr) ← wordsUntilZero mem limit envpAddr
  let pairs ← pairsUntilZero mem limit auxvAddr
  let argv ← argvPtrs.mapM (cString mem limit)
  let envp ← envpPtrs.mapM (cString mem limit)
  let auxv ← pairs.mapM (decodeAuxv mem limit)
  some { argc := readWord mem sp 8, argv, envp, auxv }

/-- Page-aligned kernel memory that is mapped below the top of the user stack. -/
structure StackArea where
  userTop : ℕ
  top : ℕ
  bottom : ℕ
  userTop_page : userTop % pageSize = 0
  top_page : top % pageSize = 0
  bottom_le : bottom ≤ top
  top_lt : top < 2 ^ 64
  userTop_lt : userTop < 2 ^ 64
  mapped : top - bottom ≤ userTop

/-- The memory of the area at its user addresses. -/
def StackArea.userView (area : StackArea) (mem : Bytes) : Bytes :=
  fun a => mem (area.top - (area.userTop - a))

/-- What is left of a string that is read up to its first zero byte. -/
def cut (str : List (BitVec 8)) : List (BitVec 8) := str.takeWhile (· ≠ 0)

def Auxv.cut : Auxv → Auxv
  | .platform bytes => .platform (InitStack.cut bytes)
  | .execFn bytes => .execFn (InitStack.cut bytes)
  | aux => aux

variable {α β : Type} {xs : List α} {ys : List β}

lemma mapM_of_forall₂ {γ : Type} {f : α → Option γ} {g : β → γ}
    (h : List.Forall₂ (fun y x => f x = some (g y)) ys xs) :
    xs.mapM f = some (ys.map g) := by
  induction h with
  | nil => rfl
  | cons hhead _ ih => simp [hhead, ih]

variable {R : α → β → Prop} {aux : Auxv} {strs : List (List (BitVec 8))}

lemma forall₂_takeWhile {p : α → Bool} {q : β → Bool} (hpq : ∀ x y, R x y → p x = q y)
    (h : List.Forall₂ R xs ys) :
    List.Forall₂ (fun x y => p x = true ∧ R x y) (xs.takeWhile p) (ys.takeWhile q) := by
  induction h with
  | nil => exact .nil
  | @cons x y xs ys hxy _ ih =>
    rw [takeWhile_cons, takeWhile_cons, ← hpq x y hxy]
    cases hx : p x with
    | true => exact .cons ⟨hx, hxy⟩ ih
    | false => exact .nil

lemma forall_right_of_forall₂ {P : β → Prop} (hP : ∀ x y, R x y → P y)
    (h : List.Forall₂ R xs ys) : ∀ y ∈ ys, P y := by
  induction h with
  | nil => simp
  | cons hxy _ ih => simpa using ⟨hP _ _ hxy, ih⟩

section Decoding

variable {area : StackArea} {argv envp : List (List (BitVec 8))} {auxv : List Auxv}
  {s : Stack} {image : List (BitVec 8)}

lemma OnStack.holds_user (h : OnStack area.bottom area.top s image) :
    Holds (area.userView s.mem) (area.userTop - image.length) image := by
  have hsp := h.sp_add
  have hbottom := h.bottom_le
  have hmapped := area.mapped
  apply h.holds.congr
  intro i hi
  unfold StackArea.userView
  congr 1
  omega

variable {ptr : ℕ} {aux : Auxv}

variable {strings : List (BitVec 8)} {auxvPtrs : List ℕ}

/-- A pointer into the strings is neither null nor a wrapped address, and its bytes
are there. -/
lemma PointsTo.holds_user {front bytes : List (BitVec 8)}
    (hptr : PointsTo area.userTop strings ptr bytes) (hfront : 0 < front.length)
    (h : OnStack area.bottom area.top s (front ++ strings)) :
    Holds (area.userView s.mem) ptr bytes ∧ 0 < ptr ∧ ptr < 2 ^ 64 ∧
      ptr + bytes.length ≤ area.userTop ∧ area.userTop - (front ++ strings).length < ptr := by
  have hview := h.holds_user
  have hsp := h.sp_add
  have hbottom := h.bottom_le
  have hmapped := area.mapped
  have hlt := area.userTop_lt
  obtain ⟨before, back, rfl, rfl⟩ := hptr
  simp only [length_append] at hsp hview ⊢
  rw [wsub_of_le (by omega) hlt]
  have hbytes := (holds_append.mp (holds_append.mp (holds_append.mp hview).2).2).1
  refine ⟨?_, by omega, by omega, by omega, by omega⟩
  convert hbytes using 1
  omega

/-- Where the tables are, from the stack pointer up. -/
lemma holds_tables {data : Bytes} {sp argc : ℕ} {envpPtrs argvPtrs : List ℕ}
    (h : Holds data sp (tables argc auxv auxvPtrs envpPtrs argvPtrs)) :
    Holds data sp (littleEndian 8 argc) ∧
    Holds data (sp + 8) (argvPtrs.reverse.flatMap (littleEndian 8) ++ littleEndian 8 0) ∧
    Holds data (sp + 8 + 8 * argvPtrs.length + 8)
      (envpPtrs.reverse.flatMap (littleEndian 8) ++ littleEndian 8 0) ∧
    Holds data (sp + 8 + 8 * argvPtrs.length + 8 + 8 * envpPtrs.length + 8)
      (pairBytes (auxPairs auxv auxvPtrs).reverse ++ littleEndian 8 0) := by
  simp only [tables, holds_append, length_littleEndian, length_flatMap_littleEndian,
    length_reverse, add_assoc] at h ⊢
  obtain ⟨hargc, hargv, hnull, henvp, hnull', hauxv, hend, -⟩ := h
  exact ⟨hargc, ⟨hargv, hnull⟩, ⟨henvp, hnull'⟩, hauxv, hend⟩

lemma decodeAuxv_pair {mem : Bytes} {limit : ℕ} (hne : aux ≠ .null)
    (hdata : Holds mem ptr aux.data) (hlimit : aux.data.length ≤ limit) :
    decodeAuxv mem limit ((aux.typeAndValue (some ptr)).getD (0, 0)) = some aux.cut := by
  cases aux with
  | null => exact absurd rfl hne
  | random values =>
    have hvalues : (Vector.ofFn fun i : Fin 16 => mem (ptr + i)) = values := by
      apply Vector.ext
      intro i hi
      simpa [Auxv.data] using hdata.apply (show i < values.toList.length by simpa using hi)
    simp [Auxv.typeAndValue, decodeAuxv, hvalues, Auxv.cut]
  | platform bytes | execFn bytes =>
    simp only [Auxv.data, nulTerminated, length_append, length_singleton] at hlimit
    have hstr := cString_of_holds hdata (show bytes.length < limit by omega)
    simp [Auxv.typeAndValue, decodeAuxv, hstr, Auxv.cut, cut]
  | _ => simp [Auxv.typeAndValue, decodeAuxv, Auxv.cut]

lemma typeAndValue_eq_zero :
    ((aux.typeAndValue (some ptr)).getD (0, 0)).1 = 0 ↔ aux = .null := by
  cases aux <;> simp [Auxv.typeAndValue]

lemma typeAndValue_lt (hptr : ptr < 2 ^ 64) :
    ((aux.typeAndValue (some ptr)).getD (0, 0)).1 < 2 ^ 64 ∧
      ((aux.typeAndValue (some ptr)).getD (0, 0)).2 < 2 ^ 64 := by
  cases aux <;> simp only [Auxv.typeAndValue, Option.map_some, Option.getD_some] <;>
    exact ⟨by norm_num, by first | exact hptr | exact BitVec.isLt _ | norm_num⟩

lemma forall₂_auxPairs {userTop : ℕ}
    (h : List.Forall₂ (fun aux ptr => PointsTo userTop strings ptr aux.data) auxv auxvPtrs) :
    List.Forall₂ (fun aux pair => ∃ ptr, PointsTo userTop strings ptr aux.data ∧
      pair = (aux.typeAndValue (some ptr)).getD (0, 0)) auxv (auxPairs auxv auxvPtrs) := by
  induction h with
  | nil => exact .nil
  | cons hhead _ ih => exact .cons ⟨_, hhead, rfl⟩ ih

lemma decodeStack_of_frame (frame : Frame area.userTop argv envp auxv image)
    (hstack : OnStack area.bottom area.top s image) :
    decodeStack (area.userView s.mem) area.userTop (area.userTop - image.length) = some
      { argc := argv.length
        argv := argv.map cut
        envp := envp.reverse.map cut
        auxv := (auxv.reverse.takeWhile (· ≠ .null)).map Auxv.cut } := by
  obtain ⟨auxvPtrs, envpPtrs, argvPtrs, strings, rfl, haux, henv, harg⟩ := frame
  have hlen := @length_tables argv.length auxv auxvPtrs envpPtrs argvPtrs haux.length_eq.symm
  have hargLen : argv.length = argvPtrs.length := by simpa using harg.length_eq
  have hmapped := area.mapped
  have hsp := hstack.sp_add
  have hbottom := hstack.bottom_le
  have htop := area.top_lt
  have hptr : ∀ {ptr bytes}, PointsTo area.userTop strings ptr bytes → _ :=
    fun h => PointsTo.holds_user h (by rw [hlen]; omega) hstack
  have hview := holds_append.mp hstack.holds_user
  obtain ⟨hargc, hargvWords, henvpWords, hauxvWords⟩ := holds_tables hview.1
  have hlimit : area.userTop - (area.userTop - (tables argv.length auxv auxvPtrs envpPtrs argvPtrs
      ++ strings).length) = (tables argv.length auxv auxvPtrs envpPtrs argvPtrs
      ++ strings).length := by
    omega
  have hcstr : ∀ {str ptr}, PointsTo area.userTop strings ptr (nulTerminated str) →
      cString (area.userView s.mem) (tables argv.length auxv auxvPtrs envpPtrs argvPtrs
      ++ strings).length ptr = some (cut str) := by
    intro str ptr h
    obtain ⟨hholds, -, -, hend, hlow⟩ := hptr h
    have hone : (nulTerminated str).length = str.length + 1 := by simp [nulTerminated]
    exact cString_of_holds hholds (by omega)
  generalize hL : (tables argv.length auxv auxvPtrs envpPtrs argvPtrs ++ strings).length = L at *
  have hbound : L = 8 * (1 + argvPtrs.length + 1 + envpPtrs.length + 1 + (auxv.length + 1) * 2) +
      strings.length := by
    rw [← hL, length_append, hlen]
  have hword : ∀ str ptr, PointsTo area.userTop strings ptr (nulTerminated str) →
      0 < ptr ∧ ptr < 2 ^ 64 := fun str ptr h => ⟨(hptr h).2.1, (hptr h).2.2.1⟩
  have henv' := forall₂_reverse_iff.mpr henv
  have hpairs := forall₂_auxPairs haux
  have hpairs' := forall₂_reverse_iff.mpr hpairs
  have hcount : readWord (area.userView s.mem) (area.userTop - L) 8 = argv.length := by
    rw [hargc.readWord_eq]
    exact Nat.mod_eq_of_lt (by norm_num; omega)
  have hargvRead := @wordsUntilZero_of_holds _ _ L _ hargvWords
    (forall_right_of_forall₂ hword harg) (by simp; omega)
  have henvpRead := @wordsUntilZero_of_holds _ _ L _ henvpWords
    (forall_right_of_forall₂ hword henv') (by simp; omega)
  have hauxvRead := @pairsUntilZero_of_holds _ _ L _ hauxvWords
    (forall_right_of_forall₂ (by
      rintro aux _ ⟨ptr, h, rfl⟩
      exact typeAndValue_lt (hptr h).2.2.1) hpairs')
    (by rw [length_reverse, ← hpairs.length_eq]; omega)
  have hargvStrs := mapM_of_forall₂ (harg.imp fun str ptr h => hcstr h)
  have henvpStrs := mapM_of_forall₂ (henv'.imp fun str ptr h => hcstr h)
  have hauxvEntries : ((auxPairs auxv auxvPtrs).reverse.takeWhile fun p => p.1 ≠ 0).mapM
      (decodeAuxv (area.userView s.mem) L) =
      some ((auxv.reverse.takeWhile (· ≠ .null)).map Auxv.cut) := by
    apply mapM_of_forall₂
    refine (forall₂_takeWhile ?_ hpairs').imp ?_
    · rintro aux _ ⟨ptr, -, rfl⟩
      simp [typeAndValue_eq_zero]
    · rintro aux _ ⟨hne, ptr, h, rfl⟩
      obtain ⟨hholds, -, -, hend, hlow⟩ := hptr h
      exact decodeAuxv_pair (by simpa using hne) hholds (by omega)
  simp only [length_reverse] at hargvRead henvpRead
  simp only [decodeStack, hlimit, hargvRead, henvpRead, hauxvRead, hargvStrs, henvpStrs,
    hauxvEntries, hcount, Option.bind_eq_bind, Option.bind_some]

/-- Every stack area that can take the frame is filled so that the program reads back its
arguments, its environment in reverse, and the auxiliary vector from its end. -/
lemma decodeStack_initUserStack (area : StackArea) (argv envp : List (List (BitVec 8)))
    (auxv : List Auxv) (s : Stack)
    (hfit : frameSize argv envp auxv ≤ area.top - area.bottom) :
    ∃ sp s', (initUserStack area.userTop area.top area.bottom argv envp auxv).Returns s sp s' ∧
      sp % 16 = 0 ∧ decodeStack (area.userView s'.mem) area.userTop sp = some
        { argc := argv.length
          argv := argv.map cut
          envp := envp.reverse.map cut
          auxv := (auxv.reverse.takeWhile (· ≠ .null)).map Auxv.cut } := by
  have halign : area.top % 16 = 0 ∧ area.userTop % 16 = 0 := by
    have htop := area.top_page
    have huser := area.userTop_page
    unfold pageSize at htop huser
    omega
  have hbottom := area.bottom_le
  obtain ⟨s', image, hrun, hstack, hlen, ⟨frame⟩⟩ :=
    @initUserStack_returns area.userTop area.top area.bottom argv envp auxv area.top_lt halign.1
      (by omega) s
  have hmapped := area.mapped
  have hsp : wsub area.userTop (frameSize argv envp auxv) = area.userTop - image.length := by
    rw [hlen]
    exact wsub_of_le (by omega) area.userTop_lt
  refine ⟨_, s', hrun, ?_, ?_⟩
  · have : frameSize argv envp auxv % 16 = 0 := Nat.mul_mod_left _ _
    omega
  · rw [hsp]
    exact decodeStack_of_frame frame hstack

end Decoding

/-! ## The convention -/

/-- The program reads what was passed: the auxiliary vector as a collection of entries, the
rest in order. -/
structure Decoded.Conveys (d : Decoded) (argv envp : List (List (BitVec 8)))
    (auxv : List Auxv) : Prop where
  argc : d.argc = argv.length
  argv : d.argv = argv
  envp : d.envp = envp
  auxv : d.auxv.Perm auxv

/-- No zero byte in the strings of an entry. -/
def Auxv.NulFree : Auxv → Prop
  | .platform bytes => 0 ∉ bytes
  | .execFn bytes => 0 ∉ bytes
  | _ => True

lemma cut_eq_self {str : List (BitVec 8)} : cut str = str ↔ 0 ∉ str := by
  rw [cut, takeWhile_eq_self_iff]
  constructor
  · intro h hzero
    simpa using h 0 hzero
  · intro h b hb
    simpa using fun hzero : b = 0 => h (hzero ▸ hb)

lemma nul_notMem_cut (str : List (BitVec 8)) : 0 ∉ cut str := by
  intro h
  simpa using mem_takeWhile_imp h

lemma Auxv.cut_eq_self : aux.cut = aux ↔ aux.NulFree := by
  cases aux <;> simp [Auxv.cut, Auxv.NulFree, InitStack.cut_eq_self]

lemma Auxv.nulFree_cut (aux : Auxv) : aux.cut.NulFree := by
  cases aux with
  | platform bytes | execFn bytes => exact nul_notMem_cut bytes
  | _ => trivial

lemma Auxv.cut_ne_null (h : aux ≠ .null) : aux.cut ≠ .null := by
  cases aux <;> simp_all [Auxv.cut]

lemma map_cut_eq :
    strs.map cut = strs ↔ ∀ str ∈ strs, 0 ∉ str := by
  have hinj := @List.map_inj_left _ _ strs cut id
  rw [map_id] at hinj
  rw [hinj]
  exact forall₂_congr fun str _ => cut_eq_self

lemma map_cut_reverse_eq :
    strs.reverse.map cut = strs ↔ strs.reverse = strs ∧ ∀ str ∈ strs, 0 ∉ str := by
  constructor
  · intro h
    have hfree : ∀ str ∈ strs, 0 ∉ str := by
      intro str hstr
      rw [← h] at hstr
      obtain ⟨other, -, rfl⟩ := mem_map.mp hstr
      exact nul_notMem_cut other
    have hmap := map_cut_eq.mpr fun str hstr => hfree str (mem_reverse.mp hstr)
    exact ⟨hmap.symm.trans h, hfree⟩
  · rintro ⟨hreverse, hfree⟩
    rw [hreverse]
    exact map_cut_eq.mpr hfree

lemma perm_auxv_iff {auxv : List Auxv} :
    ((auxv.reverse.takeWhile (· ≠ .null)).map Auxv.cut).Perm auxv ↔
      ∀ aux ∈ auxv, aux ≠ .null ∧ aux.NulFree := by
  constructor
  · intro h aux haux
    obtain ⟨other, hother, rfl⟩ := mem_map.mp (h.mem_iff.mpr haux)
    have hne : other ≠ .null := by simpa using mem_takeWhile_imp hother
    exact ⟨Auxv.cut_ne_null hne, Auxv.nulFree_cut other⟩
  · intro h
    have hall : auxv.reverse.takeWhile (· ≠ .null) = auxv.reverse := by
      apply takeWhile_eq_self_iff.mpr
      intro aux haux
      simpa using (h aux (mem_reverse.mp haux)).1
    have hcut : auxv.reverse.map Auxv.cut = auxv.reverse := by
      refine (map_congr_left fun aux haux => ?_).trans (map_id _)
      exact Auxv.cut_eq_self.mpr (h aux (mem_reverse.mp haux)).2
    rw [hall, hcut]
    exact reverse_perm auxv

/-- On every stack area that can take the frame the builder returns a 16-byte aligned
stack pointer, and the program reads what was passed exactly when the environment is the
same in reverse, no string holds a zero byte, and the auxiliary vector no terminator. -/
theorem initUserStack_conveys_iff (area : StackArea) (argv envp : List (List (BitVec 8)))
    (auxv : List Auxv) (s : Stack)
    (hfit : frameSize argv envp auxv ≤ area.top - area.bottom) :
    ∃ sp s', (initUserStack area.userTop area.top area.bottom argv envp auxv).Returns s sp s' ∧
      sp % 16 = 0 ∧
      ((∃ d, decodeStack (area.userView s'.mem) area.userTop sp = some d ∧
          d.Conveys argv envp auxv) ↔
        envp.reverse = envp ∧ (∀ str ∈ argv ++ envp, 0 ∉ str) ∧
          ∀ aux ∈ auxv, aux ≠ .null ∧ aux.NulFree) := by
  obtain ⟨sp, s', hrun, halign, hdecode⟩ := decodeStack_initUserStack area argv envp auxv s hfit
  refine ⟨sp, s', hrun, halign, ?_⟩
  rw [hdecode]
  constructor
  · rintro ⟨d, hd, hconveys⟩
    cases hd
    have hargv := map_cut_eq.mp hconveys.argv
    obtain ⟨hreverse, henvp⟩ := map_cut_reverse_eq.mp hconveys.envp
    refine ⟨hreverse, ?_, perm_auxv_iff.mp hconveys.auxv⟩
    intro str hstr
    exact (mem_append.mp hstr).elim (hargv str) (henvp str)
  · rintro ⟨hreverse, hstrs, hauxv⟩
    refine ⟨_, rfl, rfl, ?_, ?_, perm_auxv_iff.mpr hauxv⟩
    · exact map_cut_eq.mpr fun str hstr => hstrs str (mem_append_left _ hstr)
    · exact map_cut_reverse_eq.mpr ⟨hreverse, fun str hstr => hstrs str (mem_append_right _ hstr)⟩

/-- One page below the usual top of a user stack. -/
def onePage : StackArea where
  userTop := 0x7fffffffe000
  top := 0xffff800000101000
  bottom := 0xffff800000100000
  userTop_page := by decide
  top_page := by decide
  bottom_le := by decide
  top_lt := by decide
  userTop_lt := by decide
  mapped := by decide

/-- Two arguments, one environment string and an entry with data are conveyed. -/
theorem initUserStack_conveys_sh :
    frameSize [[115, 104], [97]] [[65]] [.uid 0, .execFn [115, 104]] ≤
      onePage.top - onePage.bottom ∧
    ∃ sp s', (initUserStack onePage.userTop onePage.top onePage.bottom [[115, 104], [97]] [[65]]
        [.uid 0, .execFn [115, 104]]).Returns ⟨0, zeros⟩ sp s' ∧ sp % 16 = 0 ∧
      ∃ d, decodeStack (onePage.userView s'.mem) onePage.userTop sp = some d ∧
        d.Conveys [[115, 104], [97]] [[65]] [.uid 0, .execFn [115, 104]] := by
  refine ⟨by decide, ?_⟩
  obtain ⟨sp, s', hrun, halign, hiff⟩ := initUserStack_conveys_iff onePage [[115, 104], [97]]
    [[65]] [.uid 0, .execFn [115, 104]] ⟨0, zeros⟩ (by decide)
  refine ⟨sp, s', hrun, halign, hiff.mpr ?_⟩
  simp [Auxv.NulFree]

/-- Two environment strings `A` and `B` are found as `B` and `A`. -/
theorem initUserStack_reverses_envp :
    ∃ s', (initUserStack onePage.userTop onePage.top onePage.bottom [] [[65], [66]] []).Returns
        ⟨0, zeros⟩ 0x7fffffffdfc0 s' ∧
      (decodeStack (onePage.userView s'.mem) onePage.userTop 0x7fffffffdfc0).map (·.envp) =
        some [[66], [65]] := by
  refine ⟨(initUserStack onePage.userTop onePage.top onePage.bottom [] [[65], [66]] []
    ⟨0, zeros⟩).2, Prod.ext ?_ rfl, ?_⟩
  · decide +kernel
  · decide +kernel

end Kevlar.InitStack
