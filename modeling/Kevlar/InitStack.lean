import Kevlar.FallibleState
import Kevlar.MachineWord
import Kevlar.MemoryImage

/-!
# The initial user stack

`initUserStack` builds the stack of a new program downwards in freshly allocated
pages: aux data, environment strings, argument strings, padding, and then the
tables of words that the program finds at its stack pointer. The stack is described
by its image, the bytes from the stack pointer up to the top; every push puts bytes in
front of the image, and `Pushes` composes along the program.
-/
namespace Kevlar.InitStack

open ByteBuffer
open Fallible hiding pure bind

inductive StackError where
  | e2big (message : String)
  /-- `Option::unwrap` on a missing data pointer panics. -/
  | unwrapOnNone
  deriving DecidableEq, Repr

/-- Auxiliary vector entries; numbers and user addresses are machine words. -/
inductive Auxv where
  | null
  | phdr (uaddr : BitVec 64)
  | phent (value : BitVec 64)
  | phnum (value : BitVec 64)
  | pagesz (value : BitVec 64)
  | base (value : BitVec 64)
  | entry (value : BitVec 64)
  | uid (value : BitVec 64)
  | euid (value : BitVec 64)
  | gid (value : BitVec 64)
  | egid (value : BitVec 64)
  | secure (value : BitVec 64)
  | random (values : Vector (BitVec 8) 16)
  | hwcap (value : BitVec 64)
  | clktck (value : BitVec 64)
  | sysinfoEhdr (uaddr : BitVec 64)
  | platform (bytes : List (BitVec 8))
  | execFn (bytes : List (BitVec 8))
  | minSigStkSz (value : BitVec 64)
  | hwcap2 (value : BitVec 64)
  deriving DecidableEq

/-- The stack pointer of the builder and the kernel memory it writes. -/
structure Stack where
  sp : ℕ
  mem : Bytes

def pushBytesToStack (stackBottom : ℕ) (buf : List (BitVec 8)) :
    Fallible StackError Stack Unit := do
  let s ← get
  if wsub s.sp buf.length < stackBottom then
    throw (.e2big "too big argvp/envp/auxv")
  else
    modify fun s =>
      { sp := wsub s.sp buf.length, mem := store s.mem (wsub s.sp buf.length) buf }

/-- The target is little-endian. -/
def pushUsizeToStack (stackBottom value : ℕ) : Fallible StackError Stack Unit :=
  pushBytesToStack stackBottom (littleEndian 8 value)

def pushAuxDataToStack (stackBottom : ℕ) : Auxv → Fallible StackError Stack Unit
  | .random values => pushBytesToStack stackBottom values.toList
  | .platform bytes => do
    pushBytesToStack stackBottom [0]
    pushBytesToStack stackBottom bytes
  | .execFn bytes => do
    pushBytesToStack stackBottom [0]
    pushBytesToStack stackBottom bytes
  | _ => pure ()

/-- The type and the value of an entry; entries with data hold its address. -/
def Auxv.typeAndValue (dataPtr : Option ℕ) : Auxv → Option (ℕ × ℕ)
  | .null => some (0, 0)
  | .phdr uaddr => some (3, uaddr.toNat)
  | .phent value => some (4, value.toNat)
  | .phnum value => some (5, value.toNat)
  | .pagesz value => some (6, value.toNat)
  | .base value => some (7, value.toNat)
  | .entry value => some (9, value.toNat)
  | .uid value => some (11, value.toNat)
  | .euid value => some (12, value.toNat)
  | .gid value => some (13, value.toNat)
  | .egid value => some (14, value.toNat)
  | .secure value => some (23, value.toNat)
  | .random _ => dataPtr.map fun ptr => (25, ptr)
  | .hwcap value => some (16, value.toNat)
  | .clktck value => some (17, value.toNat)
  | .sysinfoEhdr uaddr => some (33, uaddr.toNat)
  | .platform _ => dataPtr.map fun ptr => (15, ptr)
  | .execFn _ => dataPtr.map fun ptr => (31, ptr)
  | .minSigStkSz value => some (51, value.toNat)
  | .hwcap2 value => some (26, value.toNat)

def pushAuxvEntryToStack (stackBottom : ℕ) (auxv : Auxv) (dataPtr : Option ℕ) :
    Fallible StackError Stack Unit :=
  match auxv.typeAndValue dataPtr with
  | none => throw .unwrapOnNone
  | some (auxvType, value) => do
    pushUsizeToStack stackBottom value
    pushUsizeToStack stackBottom auxvType

/-- The number of words of the tables, `argc` and the two terminators included. -/
def numEntries (argv envp : List (List (BitVec 8))) (auxv : List Auxv) : ℕ :=
  1 + argv.length + 1 + envp.length + 1 + (auxv.length + 1) * 2

/-- The data bytes that the estimate counts for an entry. -/
def Auxv.dataLen : Auxv → ℕ
  | .random _ => 16
  | .platform bytes => wadd bytes.length 1
  | .execFn bytes => wadd bytes.length 1
  | _ => 0

def estimateUserInitStackSize (argv envp : List (List (BitVec 8))) (auxv : List Auxv) : ℕ :=
  let strLen := alignUp
    (wadd (argv.foldl (fun l arg => wadd (wadd l arg.length) 1) 0)
      (envp.foldl (fun l env => wadd (wadd l env.length) 1) 0)) 8
  let auxDataLen := auxv.foldl (fun l aux => wadd l aux.dataLen) 0
  let ptrsLen :=
    ((2 * (1 + auxv.length) + argv.length + 1 + envp.length + 1 + 1) * 8) % 2 ^ 64
  wadd (wadd strLen auxDataLen) ptrsLen

def kernelSpToUserSp (userStackTop stackTop sp : ℕ) : ℕ :=
  wsub userStackTop (wsub stackTop sp)

/-- The user address of the builder's current stack pointer. -/
def currentUserSp (userStackTop stackTop : ℕ) : Fallible StackError Stack ℕ := do
  let s ← get
  pure (kernelSpToUserSp userStackTop stackTop s.sp)

/-- Push every item and collect the user addresses of the stack pointer after each. -/
def pushEach {α : Type} (userStackTop stackTop : ℕ)
    (push : α → Fallible StackError Stack Unit) :
    List α → Fallible StackError Stack (List ℕ)
  | [] => pure []
  | item :: items => do
    push item
    let ptr ← currentUserSp userStackTop stackTop
    let ptrs ← pushEach userStackTop stackTop push items
    pure (ptr :: ptrs)

/-- A string and its terminator, the terminator first. -/
def pushString (stackBottom : ℕ) (str : List (BitVec 8)) : Fallible StackError Stack Unit := do
  pushBytesToStack stackBottom [0]
  pushBytesToStack stackBottom str

/-- The tables of words, from the end of the auxiliary vector down to `argc`. -/
def pushTables (stackBottom argc : ℕ) (auxv : List Auxv) (auxvPtrs : List (Option ℕ))
    (envpPtrs argvPtrs : List ℕ) : Fallible StackError Stack Unit := do
  pushAuxvEntryToStack stackBottom .null none
  (auxv.zip auxvPtrs).forM fun (aux, data) => pushAuxvEntryToStack stackBottom aux data
  pushUsizeToStack stackBottom 0
  envpPtrs.forM fun ptr => pushUsizeToStack stackBottom ptr
  pushUsizeToStack stackBottom 0
  argvPtrs.forM fun ptr => pushUsizeToStack stackBottom ptr
  pushUsizeToStack stackBottom argc

/-- The padding that makes the stack pointer 16-byte aligned after `numEntries` pushes. -/
def alignStack (stackBottom entries : ℕ) : Fallible StackError Stack Unit := do
  modify fun s => { s with sp := alignDown s.sp 8 }
  let s ← get
  if wsub s.sp ((entries * 8) % 2 ^ 64) % 16 ≠ 0 then
    pushUsizeToStack stackBottom 0
  else
    pure ()

/-- The body of `initUserStack`, from a stack pointer at the top of the area. -/
def pushFrame (userStackTop stackTop stackBottom : ℕ) (argv envp : List (List (BitVec 8)))
    (auxv : List Auxv) : Fallible StackError Stack ℕ := do
  let auxvPtrs ← pushEach userStackTop stackTop (pushAuxDataToStack stackBottom) auxv.reverse
  let envpPtrs ← pushEach userStackTop stackTop (pushString stackBottom) envp
  let argvPtrs ← pushEach userStackTop stackTop (pushString stackBottom) argv.reverse
  alignStack stackBottom (numEntries argv envp auxv)
  pushTables stackBottom argv.length auxv (auxvPtrs.reverse.map some) envpPtrs argvPtrs
  currentUserSp userStackTop stackTop

def initUserStack (userStackTop stackTop stackBottom : ℕ) (argv envp : List (List (BitVec 8)))
    (auxv : List Auxv) : Fallible StackError Stack ℕ := do
  modify fun s => { s with sp := stackTop }
  pushFrame userStackTop stackTop stackBottom argv envp auxv

/-! ## Images -/

/-- The bytes from the stack pointer up to the top of an area that starts at `bottom`. -/
structure OnStack (bottom top : ℕ) (s : Stack) (image : List (BitVec 8)) : Prop where
  bottom_le : bottom ≤ s.sp
  sp_add : s.sp + image.length = top
  holds : Holds s.mem s.sp image

/-- From a stack with this image the program returns, with a value and an image in `Q`. -/
def Pushes {α : Type} (bottom top : ℕ) (x : Fallible StackError Stack α)
    (image : List (BitVec 8)) (Q : α → List (BitVec 8) → Prop) : Prop :=
  ∀ s, OnStack bottom top s image →
    ∃ a s' image', x.Returns s a s' ∧ OnStack bottom top s' image' ∧ Q a image'

def nulTerminated (str : List (BitVec 8)) : List (BitVec 8) := str ++ [0]

/-- The data of an entry, as it stands in memory. -/
def Auxv.data : Auxv → List (BitVec 8)
  | .random values => values.toList
  | .platform bytes => nulTerminated bytes
  | .execFn bytes => nulTerminated bytes
  | _ => []

section Rules

variable {α β : Type} {bottom top : ℕ} {image : List (BitVec 8)}

variable {Q : α → List (BitVec 8) → Prop} {aux : Auxv} {push : α → Fallible StackError Stack Unit}
  {bytes : α → List (BitVec 8)} {items : List α} {auxvPtrs : List ℕ}

lemma Pushes.pure {a : α} (h : Q a image) :
    Pushes bottom top (Pure.pure a) image Q :=
  fun s hs => ⟨a, s, image, returns_pure.mpr ⟨rfl, rfl⟩, hs, h⟩

lemma Pushes.mono {x : Fallible StackError Stack α} {Q R : α → List (BitVec 8) → Prop}
    (hx : Pushes bottom top x image Q) (h : ∀ a image', Q a image' → R a image') :
    Pushes bottom top x image R := by
  intro s hs
  obtain ⟨a, s', image', hrun, hs', hQ⟩ := hx s hs
  exact ⟨a, s', image', hrun, hs', h a image' hQ⟩

lemma Pushes.bind {x : Fallible StackError Stack α} {f : α → Fallible StackError Stack β}
    {R : β → List (BitVec 8) → Prop} (hx : Pushes bottom top x image Q)
    (hf : ∀ a image', Q a image' → Pushes bottom top (f a) image' R) :
    Pushes bottom top (x >>= f) image R := by
  intro s hs
  obtain ⟨a, u, image', hrun, hu, hQ⟩ := hx s hs
  obtain ⟨b, s', image'', hrun', hs', hR⟩ := hf a image' hQ u hu
  exact ⟨b, s', image'', returns_bind.mpr ⟨a, u, hrun, hrun'⟩, hs', hR⟩

lemma pushes_currentUserSp {userTop : ℕ} (htop : top < 2 ^ 64) :
    Pushes bottom top (currentUserSp userTop top) image fun ptr image' =>
      ptr = wsub userTop image.length ∧ image' = image := by
  intro s hs
  have hlen : wsub top s.sp = image.length := by
    have := hs.sp_add
    rw [wsub_of_le (by omega) htop]
    omega
  refine ⟨wsub userTop image.length, s, image, ?_, hs, rfl, rfl⟩
  simp [currentUserSp, kernelSpToUserSp, hlen]

lemma pushes_pushBytesToStack {buf : List (BitVec 8)} (htop : top < 2 ^ 64)
    (hfit : bottom + (buf.length + image.length) ≤ top) :
    Pushes bottom top (pushBytesToStack bottom buf) image fun _ image' =>
      image' = buf ++ image := by
  intro s hs
  have hsp := hs.sp_add
  have hsub : wsub s.sp buf.length = s.sp - buf.length := wsub_of_le (by omega) (by omega)
  refine ⟨(), ⟨s.sp - buf.length, store s.mem (s.sp - buf.length) buf⟩, buf ++ image, ?_, ?_, rfl⟩
  · rw [pushBytesToStack, returns_get_bind, hsub, if_neg (by omega), returns_modify, hsub]
  · constructor
    · change bottom ≤ s.sp - buf.length
      omega
    · simp only [List.length_append]
      omega
    · apply holds_append.mpr
      refine ⟨holds_store _ _ _, ?_⟩
      rw [Nat.sub_add_cancel (by omega)]
      exact hs.holds.store_below (by omega)

lemma pushes_pushUsizeToStack {value : ℕ} (htop : top < 2 ^ 64)
    (hfit : bottom + (8 + image.length) ≤ top) :
    Pushes bottom top (pushUsizeToStack bottom value) image fun _ image' =>
      image' = littleEndian 8 value ++ image :=
  pushes_pushBytesToStack htop (by simpa using hfit)

lemma pushes_pushString {str : List (BitVec 8)} (htop : top < 2 ^ 64)
    (hfit : bottom + ((nulTerminated str).length + image.length) ≤ top) :
    Pushes bottom top (pushString bottom str) image fun _ image' =>
      image' = nulTerminated str ++ image := by
  simp only [nulTerminated, List.length_append, List.length_singleton] at hfit
  apply Pushes.bind (pushes_pushBytesToStack htop (by simp; omega))
  rintro - image' rfl
  have hpush := @pushes_pushBytesToStack bottom top ([0] ++ image) str htop (by simp; omega)
  simpa [nulTerminated] using hpush

lemma pushes_pushAuxDataToStack (htop : top < 2 ^ 64)
    (hfit : bottom + (aux.data.length + image.length) ≤ top) :
    Pushes bottom top (pushAuxDataToStack bottom aux) image fun _ image' =>
      image' = aux.data ++ image := by
  cases aux with
  | random values => exact pushes_pushBytesToStack htop hfit
  | platform bytes | execFn bytes => exact pushes_pushString htop hfit
  | _ => exact Pushes.pure rfl

/-- A loop that pushes the bytes of every item. -/
lemma pushes_forM
    (hpush : ∀ item ∈ items, ∀ image', bottom + ((bytes item).length + image'.length) ≤ top →
      Pushes bottom top (push item) image' fun _ image'' => image'' = bytes item ++ image')
    (hfit : bottom + ((items.flatMap bytes).length + image.length) ≤ top) :
    Pushes bottom top (items.forM push) image fun _ image' =>
      image' = items.reverse.flatMap bytes ++ image := by
  induction items generalizing image with
  | nil => exact Pushes.pure (by simp)
  | cons item items ih =>
    simp only [List.flatMap_cons, List.length_append] at hfit
    apply Pushes.bind (hpush item (by simp) image (by omega))
    rintro - image' rfl
    have hrest := @ih (bytes item ++ image)
      (fun other hmem => hpush other (List.mem_cons_of_mem item hmem))
      (by simp only [List.length_append]; omega)
    simpa [List.append_assoc] using hrest

/-- The user address of the bytes, wherever they are in the image. -/
def PointsTo (userTop : ℕ) (image : List (BitVec 8)) (ptr : ℕ) (bytes : List (BitVec 8)) : Prop :=
  ∃ front back, image = front ++ (bytes ++ back) ∧ ptr = wsub userTop (bytes ++ back).length

lemma PointsTo.append {userTop ptr : ℕ} {bytes : List (BitVec 8)} (front : List (BitVec 8))
    (h : PointsTo userTop image ptr bytes) : PointsTo userTop (front ++ image) ptr bytes := by
  obtain ⟨front', back, rfl, rfl⟩ := h
  exact ⟨front ++ front', back, by simp, rfl⟩

lemma pushes_pushEach {userTop : ℕ} (htop : top < 2 ^ 64)
    (hpush : ∀ item image', bottom + ((bytes item).length + image'.length) ≤ top →
      Pushes bottom top (push item) image' fun _ image'' => image'' = bytes item ++ image')
    (hfit : bottom + ((items.flatMap bytes).length + image.length) ≤ top) :
    Pushes bottom top (pushEach userTop top push items) image fun ptrs image' =>
      image' = items.reverse.flatMap bytes ++ image ∧
      List.Forall₂ (fun item ptr => PointsTo userTop image' ptr (bytes item)) items ptrs := by
  induction items generalizing image with
  | nil => exact Pushes.pure (by simp)
  | cons item items ih =>
    simp only [List.flatMap_cons, List.length_append] at hfit
    apply Pushes.bind (hpush item image (by omega))
    rintro - image' rfl
    apply Pushes.bind (pushes_currentUserSp htop)
    rintro - - ⟨rfl, rfl⟩
    apply Pushes.bind (ih (by simp only [List.length_append]; omega))
    rintro ptrs image'' ⟨himage, hptrs⟩
    apply Pushes.pure
    constructor
    · simpa using himage
    · refine List.Forall₂.cons ?_ hptrs
      rw [himage]
      apply PointsTo.append
      exact ⟨[], image, by simp, rfl⟩

lemma pushes_pushAuxvEntryToStack {data : Option ℕ} {pair : ℕ × ℕ}
    (hpair : aux.typeAndValue data = some pair) (htop : top < 2 ^ 64)
    (hfit : bottom + (16 + image.length) ≤ top) :
    Pushes bottom top (pushAuxvEntryToStack bottom aux data) image fun _ image' =>
      image' = littleEndian 8 pair.1 ++ littleEndian 8 pair.2 ++ image := by
  rw [pushAuxvEntryToStack, hpair]
  apply Pushes.bind (pushes_pushUsizeToStack htop (by omega))
  rintro - image' rfl
  exact pushes_pushUsizeToStack htop (by simp; omega)

/-- The smallest multiple of `n` that is not below. -/
def roundUp (x n : ℕ) : ℕ := (x + n - 1) / n * n

lemma pushes_alignStack {entries : ℕ} (htop : top < 2 ^ 64) (halign : top % 16 = 0)
    (hfit : bottom + roundUp (roundUp image.length 8 + 8 * entries) 16 ≤ top) :
    Pushes bottom top (alignStack bottom entries) image fun _ image' =>
      (∃ pad, image' = pad ++ image) ∧
      image'.length + 8 * entries = roundUp (roundUp image.length 8 + 8 * entries) 16 := by
  intro s hs
  have hsp := hs.sp_add
  have hdown : alignDown s.sp 8 + roundUp image.length 8 = top := by
    unfold alignDown roundUp
    omega
  have hpad : OnStack bottom top { s with sp := alignDown s.sp 8 }
      (slice s.mem (alignDown s.sp 8) (s.sp - alignDown s.sp 8) ++ image) := by
    have hle := alignDown_le s.sp 8
    constructor
    · change bottom ≤ alignDown s.sp 8
      unfold roundUp at *
      omega
    · simp only [List.length_append, length_slice]
      omega
    · apply holds_append.mpr
      rw [length_slice, Nat.add_sub_cancel' hle]
      exact ⟨holds_slice _ _ _, hs.holds⟩
  have hlen : (slice s.mem (alignDown s.sp 8) (s.sp - alignDown s.sp 8) ++ image).length =
      roundUp image.length 8 := by
    have := hpad.sp_add
    change alignDown s.sp 8 + _ = top at this
    omega
  have hlow : alignDown s.sp 8 % 8 = 0 := alignDown_mod _ _
  have hsixteen : roundUp (roundUp image.length 8 + 8 * entries) 16 =
      (roundUp image.length 8 + 8 * entries + 15) / 16 * 16 := rfl
  generalize roundUp image.length 8 = r at *
  have hfinal : wsub (alignDown s.sp 8) (entries * 8 % 2 ^ 64) = top - (r + 8 * entries) := by
    rw [Nat.mod_eq_of_lt (show entries * 8 < 2 ^ 64 by omega), wsub_of_le (by omega) (by omega)]
    omega
  simp only [alignStack, returns_modify_bind, returns_get_bind, hfinal]
  by_cases hodd : (top - (r + 8 * entries)) % 16 = 0
  · refine ⟨(), _, _, ?_, hpad, ⟨_, rfl⟩, ?_⟩
    · rw [if_neg (not_not.mpr hodd)]
      exact returns_pure.mpr ⟨rfl, rfl⟩
    · omega
  · obtain ⟨a, s', image', hrun, hs', himage⟩ :=
      @pushes_pushUsizeToStack bottom top _ 0 htop (by omega) _ hpad
    refine ⟨a, s', image', ?_, hs', ⟨_, himage.trans (List.append_assoc _ _ _).symm⟩, ?_⟩
    · rwa [if_pos hodd]
    · rw [himage, List.length_append, length_littleEndian]
      omega

/-- The pairs that stand for the entries, with the addresses of their data. -/
def auxPairs (auxv : List Auxv) (auxvPtrs : List ℕ) : List (ℕ × ℕ) :=
  List.zipWith (fun aux ptr => (aux.typeAndValue (some ptr)).getD (0, 0)) auxv auxvPtrs

/-- The words at the stack pointer. The loops push downwards, so every table stands in
the reverse of the order in which it was pushed. -/
def tables (argc : ℕ) (auxv : List Auxv) (auxvPtrs envpPtrs argvPtrs : List ℕ) :
    List (BitVec 8) :=
  littleEndian 8 argc ++ (argvPtrs.reverse.flatMap (littleEndian 8) ++ (littleEndian 8 0 ++
    (envpPtrs.reverse.flatMap (littleEndian 8) ++ (littleEndian 8 0 ++
      (pairBytes (auxPairs auxv auxvPtrs).reverse ++
        (littleEndian 8 0 ++ littleEndian 8 0))))))

lemma typeAndValue_some (aux : Auxv) (ptr : ℕ) :
    aux.typeAndValue (some ptr) = some ((aux.typeAndValue (some ptr)).getD (0, 0)) := by
  cases aux <;> rfl

lemma pushes_auxEntries {auxv : List Auxv} (htop : top < 2 ^ 64)
    (hlen : auxvPtrs.length = auxv.length)
    (hfit : bottom + (16 * auxv.length + image.length) ≤ top) :
    Pushes bottom top
      ((auxv.zip (auxvPtrs.map some)).forM fun (aux, data) => pushAuxvEntryToStack bottom aux data)
      image fun _ image' => image' = pairBytes (auxPairs auxv auxvPtrs).reverse ++ image := by
  induction auxv generalizing auxvPtrs image with
  | nil => exact Pushes.pure (by simp [auxPairs, pairBytes])
  | cons aux auxv ih =>
    obtain ⟨ptr, auxvPtrs, rfl⟩ := List.exists_cons_of_length_eq_add_one hlen
    simp only [List.length_cons] at hfit hlen
    apply Pushes.bind (pushes_pushAuxvEntryToStack (typeAndValue_some aux ptr) htop (by omega))
    rintro - image' rfl
    set pair := (aux.typeAndValue (some ptr)).getD (0, 0) with hpair
    have hrest := @ih (littleEndian 8 pair.1 ++ littleEndian 8 pair.2 ++ image) auxvPtrs
      (by omega) (by simp only [List.length_append, length_littleEndian]; omega)
    simpa [auxPairs, pairBytes, List.append_assoc, ← hpair, List.zip_eq_zipWith] using hrest

lemma pushes_words {ptrs : List ℕ} (htop : top < 2 ^ 64)
    (hfit : bottom + (8 * ptrs.length + image.length) ≤ top) :
    Pushes bottom top (ptrs.forM fun ptr => pushUsizeToStack bottom ptr) image fun _ image' =>
      image' = ptrs.reverse.flatMap (littleEndian 8) ++ image := by
  apply pushes_forM
  · intro ptr _ image' hptr
    exact pushes_pushUsizeToStack htop (by simpa using hptr)
  · rwa [length_flatMap_littleEndian]

lemma length_tables {argc : ℕ} {auxv : List Auxv} {auxvPtrs envpPtrs argvPtrs : List ℕ}
    (hlen : auxvPtrs.length = auxv.length) :
    (tables argc auxv auxvPtrs envpPtrs argvPtrs).length =
      8 * (1 + argvPtrs.length + 1 + envpPtrs.length + 1 + (auxv.length + 1) * 2) := by
  simp [tables, auxPairs, hlen]
  omega

lemma pushes_pushTables {argc : ℕ} {auxv : List Auxv} {envpPtrs argvPtrs : List ℕ}
    (htop : top < 2 ^ 64) (hlen : auxvPtrs.length = auxv.length)
    (hfit : bottom + (8 * (1 + argvPtrs.length + 1 + envpPtrs.length + 1 + (auxv.length + 1) * 2) +
      image.length) ≤ top) :
    Pushes bottom top
      (pushTables bottom argc auxv (auxvPtrs.map some) envpPtrs argvPtrs) image fun _ image' =>
        image' = tables argc auxv auxvPtrs envpPtrs argvPtrs ++ image := by
  have hpairs : (auxPairs auxv auxvPtrs).length = auxv.length := by simp [auxPairs, hlen]
  apply Pushes.bind (pushes_pushAuxvEntryToStack rfl htop (by omega))
  rintro - _ rfl
  apply Pushes.bind (pushes_auxEntries htop hlen (by simp; omega))
  rintro - _ rfl
  apply Pushes.bind (pushes_pushUsizeToStack htop (by simp [hpairs]; omega))
  rintro - _ rfl
  apply Pushes.bind (pushes_words htop (by simp [hpairs]; omega))
  rintro - _ rfl
  apply Pushes.bind (pushes_pushUsizeToStack htop (by simp [hpairs]; omega))
  rintro - _ rfl
  apply Pushes.bind (pushes_words htop (by simp [hpairs]; omega))
  rintro - _ rfl
  simpa [tables, List.append_assoc] using
    pushes_pushUsizeToStack htop (by simp [hpairs]; omega)

end Rules

/-! ## The run -/

/-- The strings and the aux data, in bytes. -/
def stringBytes (argv envp : List (List (BitVec 8))) (auxv : List Auxv) : ℕ :=
  (argv.flatMap nulTerminated).length + (envp.flatMap nulTerminated).length +
    (auxv.flatMap Auxv.data).length

/-- What the builder takes from a stack whose top is 16-byte aligned. -/
def frameSize (argv envp : List (List (BitVec 8))) (auxv : List Auxv) : ℕ :=
  roundUp (roundUp (stringBytes argv envp auxv) 8 + 8 * numEntries argv envp auxv) 16

/-- The tables in front of the strings, every pointer at its string. -/
structure Frame (userTop : ℕ) (argv envp : List (List (BitVec 8))) (auxv : List Auxv)
    (image : List (BitVec 8)) where
  auxvPtrs : List ℕ
  envpPtrs : List ℕ
  argvPtrs : List ℕ
  strings : List (BitVec 8)
  image_eq : image = tables argv.length auxv auxvPtrs envpPtrs argvPtrs ++ strings
  aux : List.Forall₂ (fun aux ptr => PointsTo userTop strings ptr aux.data) auxv auxvPtrs
  env : List.Forall₂ (fun str ptr => PointsTo userTop strings ptr (nulTerminated str)) envp
    envpPtrs
  arg : List.Forall₂ (fun str ptr => PointsTo userTop strings ptr (nulTerminated str)) argv
    argvPtrs.reverse

lemma length_flatMap_reverse {α : Type} (bytes : α → List (BitVec 8)) (items : List α) :
    (items.reverse.flatMap bytes).length = (items.flatMap bytes).length := by
  simp [List.length_flatMap]

variable {n bottom top userTop : ℕ} {auxv : List Auxv} {argv envp : List (List (BitVec 8))}

lemma le_roundUp (x : ℕ) (hn : 0 < n) : x ≤ roundUp x n := by
  have := Nat.div_add_mod (x + n - 1) n
  have := Nat.mod_lt (x + n - 1) hn
  rw [roundUp, mul_comm]
  omega

lemma stringBytes_add_le_frameSize (argv envp : List (List (BitVec 8))) (auxv : List Auxv) :
    stringBytes argv envp auxv + 8 * numEntries argv envp auxv ≤ frameSize argv envp auxv := by
  have hstr := le_roundUp (stringBytes argv envp auxv) (show 0 < 8 by omega)
  have hall := le_roundUp (roundUp (stringBytes argv envp auxv) 8 + 8 * numEntries argv envp auxv)
    (show 0 < 16 by omega)
  unfold frameSize
  omega

variable {image : List (BitVec 8)} {strs : List (List (BitVec 8))}

lemma pushes_strings (htop : top < 2 ^ 64)
    (hfit : bottom + ((strs.flatMap nulTerminated).length + image.length) ≤ top) :
    Pushes bottom top (pushEach userTop top (pushString bottom) strs) image fun ptrs image' =>
      image' = strs.reverse.flatMap nulTerminated ++ image ∧
      List.Forall₂ (fun str ptr => PointsTo userTop image' ptr (nulTerminated str)) strs ptrs :=
  pushes_pushEach htop (fun _ _ => pushes_pushString htop) hfit

lemma pushes_auxData (htop : top < 2 ^ 64)
    (hfit : bottom + ((auxv.flatMap Auxv.data).length + image.length) ≤ top) :
    Pushes bottom top (pushEach userTop top (pushAuxDataToStack bottom) auxv) image
      fun ptrs image' => image' = auxv.reverse.flatMap Auxv.data ++ image ∧
        List.Forall₂ (fun aux ptr => PointsTo userTop image' ptr aux.data) auxv ptrs :=
  pushes_pushEach htop (fun _ _ => pushes_pushAuxDataToStack htop) hfit

lemma pushes_pushFrame (htop : top < 2 ^ 64) (halign : top % 16 = 0)
    (hfit : bottom + frameSize argv envp auxv ≤ top) :
    Pushes bottom top (pushFrame userTop top bottom argv envp auxv) [] fun sp image =>
      sp = wsub userTop (frameSize argv envp auxv) ∧ image.length = frameSize argv envp auxv ∧
      Nonempty (Frame userTop argv envp auxv image) := by
  have hsize := stringBytes_add_le_frameSize argv envp auxv
  have hstrings : (argv.flatMap nulTerminated).length + (envp.flatMap nulTerminated).length +
    (auxv.flatMap Auxv.data).length = stringBytes argv envp auxv := rfl
  apply Pushes.bind
  · apply pushes_auxData htop
    simp only [length_flatMap_reverse, List.length_nil]
    omega
  rintro auxvPtrs _ ⟨rfl, haux⟩
  apply Pushes.bind
  · apply pushes_strings htop
    simp only [List.length_append, length_flatMap_reverse, List.length_nil]
    omega
  rintro envpPtrs _ ⟨rfl, henv⟩
  apply Pushes.bind
  · apply pushes_strings htop
    simp only [List.length_append, length_flatMap_reverse, List.length_nil]
    omega
  rintro argvPtrs strings ⟨hstr, harg⟩
  have hlen : strings.length = stringBytes argv envp auxv := by
    rw [hstr]
    simp only [List.length_append, length_flatMap_reverse, List.length_nil]
    omega
  apply Pushes.bind (pushes_alignStack htop halign (by rw [hlen]; exact hfit))
  rintro - padded ⟨⟨pad, hpad⟩, hpadded⟩
  rw [hlen] at hpadded
  change _ = frameSize argv envp auxv at hpadded
  have hauxLen := haux.length_eq
  have henvLen := henv.length_eq
  have hargLen := harg.length_eq
  simp only [List.length_reverse] at hauxLen hargLen
  apply Pushes.bind
  · apply pushes_pushTables htop (by simp [hauxLen])
    rw [← hargLen, ← henvLen]
    change bottom + (8 * numEntries argv envp auxv + _) ≤ top
    omega
  rintro - image himage
  have himageLen : image.length = frameSize argv envp auxv := by
    rw [himage, List.length_append, length_tables (by simp [hauxLen]), ← hargLen, ← henvLen]
    change 8 * numEntries argv envp auxv + _ = _
    omega
  have hlift : ∀ ptr bytes, PointsTo userTop strings ptr bytes →
      PointsTo userTop padded ptr bytes := by
    intro ptr bytes h
    rw [hpad]
    exact h.append pad
  apply Pushes.mono (pushes_currentUserSp htop)
  rintro _ _ ⟨rfl, rfl⟩
  refine ⟨by rw [himageLen], himageLen, ⟨auxvPtrs.reverse, envpPtrs, argvPtrs, padded, himage,
    ?_, ?_, ?_⟩⟩
  · rw [← List.forall₂_reverse_iff, List.reverse_reverse]
    refine haux.imp fun aux ptr h => hlift ptr _ ?_
    rw [hstr]
    exact (h.append _).append _
  · refine henv.imp fun str ptr h => hlift ptr _ ?_
    rw [hstr]
    exact h.append _
  · rw [← List.forall₂_reverse_iff, List.reverse_reverse]
    exact harg.imp fun str ptr h => hlift ptr _ h

/-- A stack area that can take the frame is enough, and its image is a frame. -/
lemma initUserStack_returns {userTop top bottom : ℕ} {argv envp : List (List (BitVec 8))}
    {auxv : List Auxv} (htop : top < 2 ^ 64) (halign : top % 16 = 0)
    (hfit : bottom + frameSize argv envp auxv ≤ top) (s : Stack) :
    ∃ s' image, (initUserStack userTop top bottom argv envp auxv).Returns s
        (wsub userTop (frameSize argv envp auxv)) s' ∧
      OnStack bottom top s' image ∧ image.length = frameSize argv envp auxv ∧
      Nonempty (Frame userTop argv envp auxv image) := by
  have hstart : OnStack bottom top { s with sp := top } [] :=
    ⟨by change bottom ≤ top; omega, rfl, trivial⟩
  obtain ⟨sp, s', image, hrun, hs', rfl, hlen, hframe⟩ := pushes_pushFrame htop halign hfit _ hstart
  exact ⟨s', image, returns_modify_bind.mpr hrun, hs', hlen, hframe⟩

/-! ## The estimate -/

lemma foldl_strings (h : n + (strs.flatMap nulTerminated).length < 2 ^ 64) :
    strs.foldl (fun l str => wadd (wadd l str.length) 1) n =
      n + (strs.flatMap nulTerminated).length := by
  induction strs generalizing n with
  | nil => rfl
  | cons str strs ih =>
    have hstr : (nulTerminated str).length = str.length + 1 := by simp [nulTerminated]
    simp only [List.flatMap_cons, List.length_append] at h
    have hhead : wadd (wadd n str.length) 1 = n + (nulTerminated str).length := by
      rw [@wadd_of_lt n str.length (by omega), wadd_of_lt (by omega), hstr, add_assoc]
    rw [List.foldl_cons, hhead, ih (by omega), List.flatMap_cons, List.length_append, add_assoc]

lemma dataLen_eq {aux : Auxv} (h : aux.data.length < 2 ^ 64) :
    aux.dataLen = aux.data.length := by
  cases aux with
  | random values => simp [Auxv.data, Auxv.dataLen]
  | platform bytes | execFn bytes =>
    simp only [Auxv.data, nulTerminated, List.length_append, List.length_singleton] at h ⊢
    exact wadd_of_lt h
  | _ => rfl

lemma foldl_auxData (h : n + (auxv.flatMap Auxv.data).length < 2 ^ 64) :
    auxv.foldl (fun l aux => wadd l aux.dataLen) n = n + (auxv.flatMap Auxv.data).length := by
  induction auxv generalizing n with
  | nil => rfl
  | cons aux auxv ih =>
    simp only [List.flatMap_cons, List.length_append] at h
    have hsize : aux.dataLen = aux.data.length := dataLen_eq (by omega)
    rw [List.foldl_cons, hsize, wadd_of_lt (by omega), ih (by omega), List.flatMap_cons,
      List.length_append, add_assoc]

lemma alignUp_eq_roundUp {x : ℕ} (hn : 0 < n) (h : x + (n - 1) < 2 ^ 64) :
    alignUp x n = roundUp x n := by
  have hdiv := Nat.div_add_mod (x + (n - 1)) n
  have hsub : x + n - 1 = x + (n - 1) := by omega
  rw [alignUp, wadd_of_lt h, alignDown, roundUp, hsub, mul_comm]
  omega

section

variable (h : stringBytes argv envp auxv + 8 * numEntries argv envp auxv + 2 * pageSize ≤ 2 ^ 64)
include h

lemma estimateUserInitStackSize_eq : estimateUserInitStackSize argv envp auxv =
      roundUp ((argv.flatMap nulTerminated).length + (envp.flatMap nulTerminated).length) 8 +
        (auxv.flatMap Auxv.data).length + 8 * numEntries argv envp auxv := by
  unfold stringBytes pageSize at h
  have hround : roundUp ((argv.flatMap nulTerminated).length +
      (envp.flatMap nulTerminated).length) 8 ≤ (argv.flatMap nulTerminated).length +
      (envp.flatMap nulTerminated).length + 7 := by
    unfold roundUp
    omega
  have hptrs : ((2 * (1 + auxv.length) + argv.length + 1 + envp.length + 1 + 1) * 8) % 2 ^ 64 =
      8 * numEntries argv envp auxv := by
    unfold numEntries at *
    omega
  rw [estimateUserInitStackSize, foldl_strings (by omega), foldl_strings (by omega),
    foldl_auxData (by omega), hptrs]
  simp only [zero_add]
  rw [@wadd_of_lt (argv.flatMap nulTerminated).length _ (by omega),
    alignUp_eq_roundUp (by omega) (by omega), @wadd_of_lt _ (auxv.flatMap Auxv.data).length
      (by omega), wadd_of_lt (by omega)]

/-- The estimate aligns the strings only and knows of no padding word, but the frame ends
on a multiple of 16 and whole pages are allocated. -/
lemma frameSize_le_estimate : frameSize argv envp auxv ≤
      alignUp (estimateUserInitStackSize argv envp auxv) pageSize := by
  rw [estimateUserInitStackSize_eq h]
  unfold stringBytes pageSize at h
  rw [alignUp_eq_roundUp (by norm_num [pageSize]) (by unfold roundUp pageSize; omega)]
  unfold frameSize stringBytes roundUp pageSize
  omega

end

/-- The stack area that exec allocates from its own estimate takes every frame. -/
theorem initUserStack_succeeds_on_estimate (userTop top bottom : ℕ)
    (argv envp : List (List (BitVec 8))) (auxv : List Auxv) (s : Stack)
    (hmem : stringBytes argv envp auxv + 8 * numEntries argv envp auxv + 2 * pageSize ≤ 2 ^ 64)
    (htop : top < 2 ^ 64) (hpage : top % pageSize = 0)
    (harea : bottom + alignUp (estimateUserInitStackSize argv envp auxv) pageSize = top) :
    ∃ sp s', (initUserStack userTop top bottom argv envp auxv).Returns s sp s' := by
  have hfit : bottom + frameSize argv envp auxv ≤ top := by
    have := frameSize_le_estimate hmem
    omega
  have halign : top % 16 = 0 := by
    unfold pageSize at hpage
    omega
  obtain ⟨s', image, hrun, -⟩ := initUserStack_returns htop halign hfit s
  exact ⟨_, s', hrun⟩

/-- The estimate of 4089 bytes is rounded to one page, which the frame fills. -/
theorem initUserStack_fills_page :
    frameSize [List.replicate 4023 97] [] [.platform []] = 4096 ∧
    ∃ sp s', (initUserStack 0x7fffffffe000 0xffff800000101000 0xffff800000100000
      [List.replicate 4023 97] [] [.platform []]).Returns ⟨0, zeros⟩ sp s' := by
  constructor
  · decide +kernel
  · exact initUserStack_succeeds_on_estimate _ _ _ _ _ _ _ (by decide +kernel) (by decide)
      (by decide) (by decide +kernel)

end Kevlar.InitStack
