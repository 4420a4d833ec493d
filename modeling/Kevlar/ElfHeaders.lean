import Kevlar.MachineWord

/-!
# The headers of an executable

`Elf::parse` reads the header at the start of a file and borrows the program headers behind
it; `Elf::interp_path` looks for the path of the dynamic linker. Every offset, count and size
comes from the file. Slicing a buffer out of its range is a fault, and so is an addition that
overflows in a build that checks; the kernel's own build wraps.
-/
namespace Kevlar
open List Nat

/-- The ranges that the next bytes of a UTF-8 string have to be in, after one more byte. -/
def utf8Step : List (ℕ × ℕ) → BitVec 8 → Option (List (ℕ × ℕ))
  | (low, high) :: rest, byte => if low ≤ byte.toNat ∧ byte.toNat ≤ high then some rest else none
  | [], byte =>
    let b := byte.toNat
    let more := (0x80, 0xBF)
    if b < 0x80 then some []
    else if b < 0xC2 then none
    else if b < 0xE0 then some [more]
    else if b = 0xE0 then some [(0xA0, 0xBF), more]
    else if b = 0xED then some [(0x80, 0x9F), more]
    else if b < 0xF0 then some [more, more]
    else if b = 0xF0 then some [(0x90, 0xBF), more, more]
    else if b < 0xF4 then some [more, more, more]
    else if b = 0xF4 then some [(0x80, 0x8F), more, more]
    else none

/-- `core::str::from_utf8` accepts the bytes. -/
def isUtf8 (bytes : List (BitVec 8)) : Bool := decide (bytes.foldlM utf8Step [] = some [])

namespace ElfFiles

abbrev Buffer : Type := List (BitVec 8)

inductive Errno
  | ENOEXEC
  deriving DecidableEq

inductive Fault
  | sliceRange (start stop len : ℕ)
  | overflow
  deriving DecidableEq

/-! ## Slices and sizes -/

/-- `&buf[start..stop]`. -/
def sliceRange (buf : Buffer) (start stop : ℕ) : Except Fault Buffer :=
  if start ≤ stop ∧ stop ≤ buf.length then .ok ((buf.take stop).drop start)
  else .error (.sliceRange start stop buf.length)

/-- `&buf[start..]`. -/
def sliceFrom (buf : Buffer) (start : ℕ) : Except Fault Buffer :=
  sliceRange buf start buf.length

/-- A sum of two sizes; `checks` says whether the build checks for overflow. -/
def addSizes (checks : Bool) (a b : ℕ) : Except Fault ℕ :=
  if checks && decide (2 ^ 64 ≤ a + b) then .error .overflow else .ok (wadd a b)

/-- The little-endian number in the bytes from an offset on. -/
def readUint (buf : Buffer) (offset width : ℕ) : ℕ :=
  Nat.ofDigits 256 (((buf.drop offset).take width).map BitVec.toNat)

lemma readUint_lt (buf : Buffer) (offset width : ℕ) :
    readUint buf offset width < 256 ^ width := by
  set digits := ((buf.drop offset).take width).map BitVec.toNat with hdigits
  have hlen : digits.length ≤ width := by
    rw [hdigits, length_map]
    exact length_take_le _ _
  have hlt : ofDigits 256 digits < 256 ^ digits.length := by
    apply ofDigits_lt_base_pow_length (by norm_num)
    intro d hd
    obtain ⟨byte, -, rfl⟩ := mem_map.mp hd
    exact byte.isLt
  exact hlt.trans_le (Nat.pow_le_pow_right (by norm_num) hlen)

/-! ## The file -/

/-- The fields of the ELF header that are read. -/
structure Header where
  eIdent : Buffer
  eType : ℕ
  eMachine : ℕ
  ePhoff : ℕ
  ePhnum : ℕ
  deriving DecidableEq

/-- `size_of::<Header>()`. -/
def headerSize : ℕ := 64

def Header.refFromPrefix (bytes : Buffer) : Option Header :=
  if bytes.length < headerSize then none
  else some {
    eIdent := bytes.take 16
    eType := readUint bytes 16 2
    eMachine := readUint bytes 18 2
    ePhoff := readUint bytes 32 8
    ePhnum := readUint bytes 56 2 }

structure ProgramHeader where
  pType : ℕ
  pOffset : ℕ
  pFilesz : ℕ

/-- `size_of::<ProgramHeader>()`. -/
def programHeaderSize : ℕ := 56

def ProgramHeader.ofBytes (bytes : Buffer) : ProgramHeader where
  pType := readUint bytes 0 4
  pOffset := readUint bytes 8 8
  pFilesz := readUint bytes 32 8

/-- An ELF object: the header, and where in the buffer the program headers lie. -/
structure Elf where
  buf : Buffer
  header : Header
  phOffset : ℕ
  phCount : ℕ
  deriving DecidableEq

def Elf.programHeaders (elf : Elf) : List ProgramHeader :=
  (List.range elf.phCount).map fun i =>
    .ofBytes (elf.buf.drop (elf.phOffset + programHeaderSize * i))

/-- `slice_from_prefix::<ProgramHeader>` finds the bytes long enough. -/
def sliceFromPrefix (bytes : Buffer) (count : ℕ) : Bool :=
  programHeaderSize * count < 2 ^ 64 && programHeaderSize * count ≤ bytes.length

def elfMag : Buffer := [0x7F, 0x45, 0x4C, 0x46]

def etExec : ℕ := 2

def etDyn : ℕ := 3

/-- `EM_X86_64`. -/
def expectedMachine : ℕ := 62

def ptInterp : ℕ := 3

namespace Elf

/-- `Elf::parse`. -/
def parse (buf : Buffer) : Except Fault (Except Errno Elf) :=
  if buf.length < headerSize then .ok (.error .ENOEXEC)
  else match Header.refFromPrefix buf with
  | none => .ok (.error .ENOEXEC)
  | some header =>
    if header.eIdent.take 4 ≠ elfMag then .ok (.error .ENOEXEC)
    else if header.eMachine ≠ expectedMachine then .ok (.error .ENOEXEC)
    else if header.eType ≠ etExec ∧ header.eType ≠ etDyn then .ok (.error .ENOEXEC)
    else
      match sliceFrom buf header.ePhoff with
      | .error fault => .error fault
      | .ok bytes =>
        if sliceFromPrefix bytes header.ePhnum then
          .ok (.ok ⟨buf, header, header.ePhoff, header.ePhnum⟩)
        else .ok (.error .ENOEXEC)

/-- The path at the start of the bytes, if it is UTF-8. -/
def pathOf (slice : Buffer) : Except Fault (Option Buffer) :=
  match sliceRange slice 0 (slice.findIdx (· = 0)) with
  | .error fault => .error fault
  | .ok path => .ok (if isUtf8 path then some path else none)

/-- The loop of `Elf::interp_path`. -/
def interpPathLoop (checks : Bool) (buf : Buffer) :
    List ProgramHeader → Except Fault (Option Buffer)
  | [] => .ok none
  | phdr :: rest =>
    if phdr.pType = ptInterp then
      match addSizes checks phdr.pOffset phdr.pFilesz with
      | .error fault => .error fault
      | .ok stop =>
        if stop ≤ buf.length then
          match sliceRange buf phdr.pOffset stop with
          | .error fault => .error fault
          | .ok slice => pathOf slice
        else interpPathLoop checks buf rest
    else interpPathLoop checks buf rest

def interpPath (checks : Bool) (elf : Elf) (buf : Buffer) : Except Fault (Option Buffer) :=
  interpPathLoop checks buf elf.programHeaders

end Elf

/-! ## Which files are read without a fault -/

/-- A computation ends without a fault. -/
def Returns {α : Type} (run : Except Fault α) : Prop := ∃ r, run = .ok r

variable {α : Type} {buf : Buffer} {start stop : ℕ}

lemma returns_ok (r : α) : Returns (.ok r : Except Fault α) := ⟨r, rfl⟩

lemma not_returns_error (fault : Fault) :
    ¬ Returns (.error fault : Except Fault α) := by
  rintro ⟨r, hr⟩
  cases hr

lemma sliceRange_of_le (h : start ≤ stop ∧ stop ≤ buf.length) :
    sliceRange buf start stop = .ok ((buf.take stop).drop start) := if_pos h

lemma sliceRange_of_not_le (h : ¬ (start ≤ stop ∧ stop ≤ buf.length)) :
    sliceRange buf start stop = .error (.sliceRange start stop buf.length) := if_neg h

namespace Elf

/-- The header passes the tests that are made before the program headers are looked for. -/
def Accepted (buf : Buffer) : Prop :=
  headerSize ≤ buf.length ∧ (buf.take 16).take 4 = elfMag ∧
    readUint buf 18 2 = expectedMachine ∧
    (readUint buf 16 2 = etExec ∨ readUint buf 16 2 = etDyn)

/-- Where the header says that the program headers are. -/
def phoff (buf : Buffer) : ℕ := readUint buf 32 8

/-- A file that is refused early, one whose offset faults, and one that is borrowed from or
found too short. -/
lemma parse_cases (buf : Buffer) :
    (¬ Accepted buf ∧ parse buf = .ok (.error .ENOEXEC)) ∨
    (Accepted buf ∧ buf.length < phoff buf ∧
      parse buf = .error (.sliceRange (phoff buf) buf.length buf.length)) ∨
    (Accepted buf ∧ phoff buf ≤ buf.length ∧ (parse buf = .ok (.error .ENOEXEC) ∨
      ∃ elf, parse buf = .ok (.ok elf) ∧ elf.buf = buf ∧ elf.phOffset = phoff buf ∧
        elf.phOffset + programHeaderSize * elf.phCount ≤ buf.length)) := by
  unfold parse Header.refFromPrefix Accepted
  by_cases hlen : buf.length < headerSize
  · left
    rw [if_pos hlen]
    exact ⟨fun h => absurd h.1 (by omega), rfl⟩
  simp only [if_neg hlen]
  split_ifs with hmag hmachine htype
  · exact .inl ⟨fun h => hmag h.2.1, rfl⟩
  · exact .inl ⟨fun h => hmachine h.2.2.1, rfl⟩
  · exact .inl ⟨fun h => by tauto, rfl⟩
  right
  have haccepted : headerSize ≤ buf.length ∧ (buf.take 16).take 4 = elfMag ∧
      readUint buf 18 2 = expectedMachine ∧
      (readUint buf 16 2 = etExec ∨ readUint buf 16 2 = etDyn) :=
    ⟨by omega, not_not.mp hmag, not_not.mp hmachine, by tauto⟩
  by_cases hoff : phoff buf ≤ buf.length
  · right
    refine ⟨haccepted, hoff, ?_⟩
    have hslice : sliceFrom buf (readUint buf 32 8) = .ok (buf.drop (readUint buf 32 8)) := by
      unfold phoff at hoff
      rw [sliceFrom, sliceRange_of_le ⟨hoff, le_rfl⟩, take_length]
    rw [hslice]
    simp only
    split_ifs with hfit
    · right
      refine ⟨_, rfl, rfl, rfl, ?_⟩
      simp only [sliceFromPrefix, Bool.and_eq_true, decide_eq_true_eq, length_drop] at hfit
      simp only [phoff] at hoff
      simp only
      omega
    · left
      rfl
  · left
    have hslice : sliceFrom buf (readUint buf 32 8) =
        .error (.sliceRange (phoff buf) buf.length buf.length) := by
      apply sliceRange_of_not_le
      simp only [phoff] at hoff
      omega
    rw [hslice]
    exact ⟨haccepted, by omega, rfl⟩

lemma returns_parse_iff (buf : Buffer) :
    Returns (parse buf) ↔ (Accepted buf → phoff buf ≤ buf.length) := by
  obtain ⟨hno, hparse⟩ | ⟨hyes, hlt, hparse⟩ | ⟨hyes, hle, hparse | ⟨elf, hparse, -⟩⟩ :=
    parse_cases buf
  · simp [hparse, returns_ok, hno]
  · simp [hparse, not_returns_error, hyes, hlt]
  · simp [hparse, returns_ok, hle]
  · simp [hparse, returns_ok, hle]

/-- Every program header lies in the buffer. -/
def HeadersInside (elf : Elf) (buf : Buffer) : Prop :=
  ∀ i < elf.phCount, elf.phOffset + programHeaderSize * i + programHeaderSize ≤ buf.length

lemma headersInside_of_parse {buf : Buffer} {elf : Elf} (h : parse buf = .ok (.ok elf)) :
    elf.HeadersInside buf := by
  intro i hi
  have hfit : elf.phOffset + programHeaderSize * elf.phCount ≤ buf.length := by
    obtain ⟨-, hparse⟩ | ⟨-, -, hparse⟩ | ⟨-, -, hparse | ⟨elf', hparse, -, -, hfit⟩⟩ :=
      parse_cases buf
    all_goals rw [hparse] at h
    all_goals cases h
    exact hfit
  have hmul := mul_le_mul_left programHeaderSize (succ_le_of_lt hi)
  rw [mul_succ] at hmul
  omega

lemma returns_pathOf (slice : Buffer) : Returns (pathOf slice) := by
  rw [pathOf, sliceRange_of_le ⟨zero_le _, findIdx_le_length⟩]
  exact returns_ok _

/-- The end of what the header describes can be computed: it is a machine word, or the build
wraps it to something past the buffer. -/
def EndFits (checks : Bool) (len : ℕ) (phdr : ProgramHeader) : Prop :=
  phdr.pOffset + phdr.pFilesz < 2 ^ 64 ∨
    (checks = false ∧ len < wadd phdr.pOffset phdr.pFilesz)

/-- The loop looks past the header. -/
def PassedOver (len : ℕ) (phdr : ProgramHeader) : Prop :=
  phdr.pType = ptInterp → len < wadd phdr.pOffset phdr.pFilesz

/-- Each interpreter header that the loop comes to fits. -/
def ReachedFit (checks : Bool) (len : ℕ) (phdrs : List ProgramHeader) : Prop :=
  ∀ before phdr after, phdrs = before ++ phdr :: after → phdr.pType = ptInterp →
    (∀ q ∈ before, PassedOver len q) → EndFits checks len phdr

lemma reachedFit_nil (checks : Bool) (len : ℕ) : ReachedFit checks len [] := by
  intro before phdr after h
  simp at h

lemma reachedFit_cons_iff (checks : Bool) (len : ℕ) (phdr : ProgramHeader)
    (rest : List ProgramHeader) : ReachedFit checks len (phdr :: rest) ↔
      (phdr.pType = ptInterp → EndFits checks len phdr) ∧
      (PassedOver len phdr → ReachedFit checks len rest) := by
  constructor
  · intro h
    constructor
    · intro htype
      exact h [] phdr rest rfl htype (by simp)
    · intro hpass before q after heq htype hbefore
      apply h (phdr :: before) q after (by rw [heq, cons_append]) htype
      simpa using ⟨hpass, hbefore⟩
  · intro ⟨hfirst, hrest⟩ before q after heq htype hbefore
    cases before with
    | nil =>
      injection heq with hq
      subst hq
      exact hfirst htype
    | cons p before =>
      injection heq with hp heq
      subst hp
      have hp := hbefore phdr mem_cons_self
      exact hrest hp before q after heq htype fun q hq => hbefore q (mem_cons_of_mem _ hq)

variable {a b : ℕ}

/-- A wrapped end lies before the start, so that slicing faults. -/
lemma wadd_lt_of_overflow (hb : b < 2 ^ 64) (ha : a < 2 ^ 64) (h : 2 ^ 64 ≤ a + b) :
    wadd a b < a := by
  unfold wadd
  omega

lemma addSizes_of_overflow (h : 2 ^ 64 ≤ a + b) :
    addSizes true a b = .error .overflow := by
  rw [addSizes, Bool.true_and, decide_eq_true h]
  rfl

lemma addSizes_unchecked (a b : ℕ) : addSizes false a b = .ok (wadd a b) := rfl

lemma addSizes_of_lt (checks : Bool) (h : a + b < 2 ^ 64) :
    addSizes checks a b = .ok (a + b) := by
  rw [addSizes, decide_eq_false (by omega), Bool.and_false, wadd_of_lt h]
  rfl

lemma returns_interpPathLoop_iff (checks : Bool) (buf : Buffer) (phdrs : List ProgramHeader)
    (hsizes : ∀ p ∈ phdrs, p.pOffset < 2 ^ 64 ∧ p.pFilesz < 2 ^ 64) :
    Returns (interpPathLoop checks buf phdrs) ↔ ReachedFit checks buf.length phdrs := by
  induction phdrs with
  | nil => exact ⟨fun _ => reachedFit_nil _ _, fun _ => returns_ok _⟩
  | cons phdr rest ih =>
    obtain ⟨hoff, hsz⟩ := hsizes phdr mem_cons_self
    have ih := ih fun p hp => hsizes p (mem_cons_of_mem _ hp)
    rw [reachedFit_cons_iff, interpPathLoop]
    by_cases htype : phdr.pType = ptInterp
    swap
    · rw [if_neg htype, ih]
      simp [htype, PassedOver]
    rw [if_pos htype]
    by_cases hover : 2 ^ 64 ≤ phdr.pOffset + phdr.pFilesz
    · have hback := wadd_lt_of_overflow hsz hoff hover
      have hlt : ¬ phdr.pOffset + phdr.pFilesz < 2 ^ 64 := not_lt.mpr hover
      cases checks with
      | true =>
        have hno : ¬ EndFits true buf.length phdr := by
          rintro (h | ⟨h, -⟩)
          · exact hlt h
          · cases h
        rw [addSizes_of_overflow hover]
        simp only [not_returns_error, htype, hno, forall_const, false_and]
      | false =>
        rw [addSizes_unchecked]
        by_cases hstop : wadd phdr.pOffset phdr.pFilesz ≤ buf.length
        · have hno : ¬ EndFits false buf.length phdr := by
            rintro (h | ⟨-, h⟩)
            · exact hlt h
            · omega
          simp only [if_pos hstop]
          rw [sliceRange_of_not_le (by omega)]
          simp only [not_returns_error, htype, hno, forall_const, false_and]
        · have hfits : EndFits false buf.length phdr := .inr ⟨rfl, Nat.lt_of_not_le hstop⟩
          have hpass : PassedOver buf.length phdr := fun _ => Nat.lt_of_not_le hstop
          simp only [if_neg hstop, ih, htype, hfits, hpass, forall_const, true_and]
    · have hlt := Nat.lt_of_not_le hover
      have hfits : EndFits checks buf.length phdr := .inl hlt
      rw [addSizes_of_lt checks hlt]
      by_cases hstop : phdr.pOffset + phdr.pFilesz ≤ buf.length
      · have hpass : ¬ PassedOver buf.length phdr := by
          intro h
          have := h htype
          rw [wadd_of_lt hlt] at this
          omega
        simp only [if_pos hstop]
        rw [sliceRange_of_le ⟨by omega, hstop⟩]
        simp only [returns_pathOf, hfits, hpass, implies_true, false_imp_iff, and_self]
      · have hpass : PassedOver buf.length phdr := by
          intro _
          rw [wadd_of_lt hlt]
          exact Nat.lt_of_not_le hstop
        simp only [if_neg hstop, ih, hfits, hpass, implies_true, forall_const, true_and]

lemma sizes_programHeaders (elf : Elf) :
    ∀ p ∈ elf.programHeaders, p.pOffset < 2 ^ 64 ∧ p.pFilesz < 2 ^ 64 := by
  intro p hp
  obtain ⟨i, -, rfl⟩ := mem_map.mp hp
  have h₁ := readUint_lt (elf.buf.drop (elf.phOffset + programHeaderSize * i)) 8 8
  have h₂ := readUint_lt (elf.buf.drop (elf.phOffset + programHeaderSize * i)) 32 8
  exact ⟨h₁, h₂⟩

/-- A buffer is read without a fault, and the program headers that come out lie in it. -/
def ReadsSafely (checks : Bool) (buf searched : Buffer) : Prop :=
  ∃ r, parse buf = .ok r ∧ ∀ elf, r = .ok elf →
    elf.HeadersInside buf ∧ Returns (elf.interpPath checks searched)

/-- A buffer is read safely exactly if the offset of the program headers of an accepted header
is not past its end, and no interpreter header that is reached has an end that overflows. -/
theorem readsSafely_iff (checks : Bool) (buf searched : Buffer) :
    ReadsSafely checks buf searched ↔
      (Accepted buf → phoff buf ≤ buf.length) ∧
      ∀ elf, parse buf = .ok (.ok elf) →
        ReachedFit checks searched.length elf.programHeaders := by
  constructor
  · intro ⟨r, hparse, helf⟩
    constructor
    · exact (returns_parse_iff buf).mp ⟨r, hparse⟩
    · intro elf hok
      rw [hparse] at hok
      injection hok with hok
      have hreturns := (helf elf hok).2
      exact (returns_interpPathLoop_iff _ _ _ elf.sizes_programHeaders).mp hreturns
  · intro ⟨hoff, hfit⟩
    obtain ⟨r, hparse⟩ := (returns_parse_iff buf).mpr hoff
    refine ⟨r, hparse, ?_⟩
    intro elf hok
    subst hok
    refine ⟨headersInside_of_parse hparse, ?_⟩
    exact (returns_interpPathLoop_iff _ _ _ elf.sizes_programHeaders).mpr (hfit elf hparse)

/-- An executable that is a header with the given offset and count, and what follows. -/
def fileWith (phoff : Buffer) (phnum : BitVec 8) (rest : Buffer) : Buffer :=
  elfMag ++ List.replicate 12 0 ++ [2, 0, 62, 0] ++ List.replicate 12 0 ++ phoff ++
    List.replicate 16 0 ++ [phnum] ++ List.replicate 7 0 ++ rest

/-- An interpreter header whose offset and size add up to `2 ^ 64`. -/
def wrappingInterp : Buffer :=
  [3, 0, 0, 0] ++ List.replicate 4 0 ++ List.replicate 8 0xFF ++ List.replicate 16 0 ++
    [1] ++ List.replicate 23 0

def interpFile : Buffer := fileWith [64, 0, 0, 0, 0, 0, 0, 0] 1 wrappingInterp

/-- Sixty-four bytes whose program headers start one past the end; and a whole file with one
interpreter header, for which the build that wraps slices backwards. -/
theorem parse_and_interpPath_fault :
    parse (fileWith [65, 0, 0, 0, 0, 0, 0, 0] 0 []) = .error (.sliceRange 65 64 64) ∧
    let elf : Elf := ⟨interpFile, ⟨interpFile.take 16, etExec, expectedMachine, 64, 1⟩, 64, 1⟩
    parse interpFile = .ok (.ok elf) ∧
      elf.interpPath false interpFile = .error (.sliceRange (2 ^ 64 - 1) 0 120) ∧
      elf.interpPath true interpFile = .error .overflow := by
  decide +kernel

end Elf

end ElfFiles

end Kevlar
