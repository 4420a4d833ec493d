import Kevlar.ElfHeaders

/-!
# Loading a kernel module

`load_module` parses a relocatable object, lays its sections out in pages of its own, copies
them there and applies the relocations. Offsets and sizes come from the file and the sums wrap.
A computation of the model stops at an error that the loader returns, at a panic, or at the
first write outside the pages of the image; what is written is left out.
-/
namespace Kevlar.Modules
open List

open ElfFiles (Buffer readUint elfMag)

inductive Errno
  | ENOEXEC | ENOENT | ENOMEM
  deriving DecidableEq

inductive Stop
  | err (errno : Errno)
  | panic
  | stray
  deriving DecidableEq

abbrev Load (α : Type) : Type := Except Stop α

/-- The computation ends with a result or with an error that the loader returns. -/
def Safe {α : Type} (x : Load α) : Prop := x ≠ .error .panic ∧ x ≠ .error .stray

@[simp] def ensure (c : Prop) [Decidable c] : Load Unit :=
  if c then .ok () else .error (.err .ENOEXEC)

def orErr {α : Type} (errno : Errno) : Option α → Load α
  | some a => .ok a
  | none => .error (.err errno)

/-- `&buf[start..stop]`. -/
def slice (buf : Buffer) (start stop : ℕ) : Load Buffer :=
  if start ≤ stop ∧ stop ≤ buf.length then .ok ((buf.take stop).drop start) else .error .panic

/-! ## The file -/

structure Section where
  name : ℕ
  type : ℕ
  flags : ℕ
  offset : ℕ
  size : ℕ
  link : ℕ
  info : ℕ
  addralign : ℕ

def Section.ofBytes (bytes : Buffer) : Section where
  name := readUint bytes 0 4
  type := readUint bytes 4 4
  flags := readUint bytes 8 8
  offset := readUint bytes 24 8
  size := readUint bytes 32 8
  link := readUint bytes 40 4
  info := readUint bytes 44 4
  addralign := readUint bytes 48 8

structure Symbol where
  name : ℕ
  shndx : ℕ
  value : ℕ

def Symbol.ofBytes (bytes : Buffer) : Symbol :=
  ⟨readUint bytes 0 4, readUint bytes 6 2, readUint bytes 8 8⟩

structure Rela where
  offset : ℕ
  info : ℕ
  addend : ℕ

def Rela.ofBytes (bytes : Buffer) : Rela :=
  ⟨readUint bytes 0 8, readUint bytes 8 8, readUint bytes 16 8⟩

/-- `slice_from_prefix`: the records at the start of the bytes, if they are long enough. -/
def records {α : Type} (ofBytes : Buffer → α) (width : ℕ) (bytes : Buffer) (count : ℕ) :
    Option (List α) :=
  if width * count < 2 ^ 64 ∧ width * count ≤ bytes.length then
    some ((List.range count).map fun i => ofBytes (bytes.drop (width * i)))
  else none

/-- A string table, of which the end is checked against the file. -/
def stringTable (buf : Buffer) (sh : Section) : Load Buffer := do
  let stop := wadd sh.offset sh.size
  ensure (stop ≤ buf.length)
  slice buf sh.offset stop

structure RelObj where
  buf : Buffer
  sections : List Section
  shstrtab : Buffer
  symtab : List Symbol
  strtab : Buffer

/-- The section headers and the number of the section with their names. -/
def parseHeader (buf : Buffer) : Load (List Section × Section) := do
  ensure (64 ≤ buf.length)
  ensure (buf.take 4 = elfMag)
  ensure (readUint buf 16 2 = 1)
  ensure (readUint buf 18 2 = 183)
  let shoff := readUint buf 40 8
  let shnum := readUint buf 60 2
  ensure (shnum ≠ 0 ∧ shoff < buf.length)
  let sections ← orErr .ENOEXEC (records Section.ofBytes 64 (buf.drop shoff) shnum)
  let names ← orErr .ENOEXEC sections[readUint buf 62 2]?
  .ok (sections, names)

def shtProgbits : ℕ := 1
def shtSymtab : ℕ := 2
def shtRela : ℕ := 4
def shtNobits : ℕ := 8
def shnCommon : ℕ := 0xfff2

/-- The symbols of a symbol table that starts inside the file. -/
def parseSymbols (sections : List Section) (sh : Section) (bytes : Buffer) :
    Load (List Symbol × Section) := do
  let symtab ← orErr .ENOEXEC (records Symbol.ofBytes 24 bytes (sh.size / 24))
  let strings ← orErr .ENOEXEC sections[sh.link]?
  .ok (symtab, strings)

/-- `RelObj::parse`. -/
def parse (buf : Buffer) : Load RelObj := do
  let (sections, names) ← parseHeader buf
  let shstrtab ← stringTable buf names
  let sh ← orErr .ENOEXEC (sections.find? (·.type = shtSymtab))
  let bytes ← slice buf sh.offset buf.length
  let (symtab, strings) ← parseSymbols sections sh bytes
  let strtab ← stringTable buf strings
  .ok ⟨buf, sections, shstrtab, symtab, strtab⟩

/-- `read_cstr`, with the empty string for what is not there or no string. -/
def readCstr (buf : Buffer) (offset : ℕ) : Buffer :=
  let bytes := (buf.drop offset).takeWhile (· ≠ 0)
  if isUtf8 bytes then bytes else []

/-- The section `.modinfo`, if it ends inside the file. -/
def modinfoSection (obj : RelObj) : Option Section :=
  obj.sections.find? fun sh =>
    readCstr obj.shstrtab sh.name = [46, 109, 111, 100, 105, 110, 102, 111] ∧
      wadd sh.offset sh.size ≤ obj.buf.length

/-- The bytes of `.modinfo` are only logged. -/
def modinfo (obj : RelObj) : Load Unit :=
  match modinfoSection obj with
  | none => .ok ()
  | some sh => do
    let _ ← slice obj.buf sh.offset (wadd sh.offset sh.size)
    .ok ()

/-! ## The image -/

/-- The kernel around the loader: the page allocator, which answers the address of the first
of the pages, and the exported symbols. -/
structure Env where
  allocPages : ℕ → Option ℕ
  lookup : Buffer → Option ℕ

/-- `(x + a - 1) & !(a - 1)`. -/
def alignUp (x a : ℕ) : ℕ :=
  let mask := BitVec.ofNat 64 a - 1
  ((BitVec.ofNat 64 x + mask) &&& ~~~ mask).toNat

/-- The pages of a module, the address of each section that is loaded, and where the
trampolines start. -/
structure Image where
  base : ℕ
  len : ℕ
  sectionVa : List (Option ℕ)
  stubs : ℕ

/-- The offsets of the sections with `SHF_ALLOC`, and the end of the last one. -/
def layout (sections : List Section) : List (Option ℕ) × ℕ :=
  sections.foldl (fun (offsets, total) sh =>
    if sh.flags / 2 % 2 = 0 then (offsets ++ [none], total)
    else
      let offset := alignUp total (if sh.addralign = 0 then 1 else sh.addralign)
      (offsets ++ [some offset], wadd offset sh.size)) ([], 0)

/-- The trampolines start behind the sections. -/
def stubArea (sections : List Section) : ℕ := alignUp (layout sections).2 16

/-- The pages for the sections and 256 trampolines of 16 bytes. -/
def imagePages (sections : List Section) : ℕ :=
  alignUp (wadd (stubArea sections) (256 * 16)) 4096 / 4096

/-- The image of the sections in pages that start at `base`. -/
def imageAt (sections : List Section) (base : ℕ) : Image :=
  ⟨base, imagePages sections * 4096, (layout sections).1.map (Option.map (wadd base)),
    wadd base (stubArea sections)⟩

def place (env : Env) (obj : RelObj) : Load Image := do
  ensure ((layout obj.sections).2 ≠ 0)
  let base ← orErr .ENOMEM (env.allocPages (imagePages obj.sections))
  .ok (imageAt obj.sections base)

/-- The bytes lie in the pages of the image. -/
def Image.Holds (img : Image) (address count : ℕ) : Prop :=
  count = 0 ∨ img.base ≤ address ∧ address + count ≤ img.base + img.len

instance (img : Image) (address count : ℕ) : Decidable (img.Holds address count) :=
  inferInstanceAs (Decidable (_ ∨ _))

def write (img : Image) (address count : ℕ) : Load Unit :=
  if img.Holds address count then .ok () else .error .stray

/-- One section of the copy pass. -/
def copySection (img : Image) (obj : RelObj) : Section × Option ℕ → Load Unit
  | (_, none) => .ok ()
  | (sh, some dst) =>
    if sh.type = shtProgbits then do
      ensure (wadd sh.offset sh.size ≤ obj.buf.length)
      write img dst sh.size
    else if sh.type = shtNobits then write img dst sh.size
    else .ok ()

/-- The copy pass. -/
def copySections (img : Image) (obj : RelObj) : Load Unit :=
  (obj.sections.zip img.sectionVa).foldlM (fun _ => copySection img obj) ()

/-! ## Relocations -/

/-- What a relocation type asks for. -/
inductive Kind
  | nothing
  | data64
  | data32
  | branch26
  | adr21
  | adrp21

def kindOf : ℕ → Option Kind
  | 0 => some .nothing
  | 257 | 260 => some .data64
  | 258 | 261 | 277 | 278 | 284 | 285 | 286 | 299 => some .data32
  | 282 | 283 => some .branch26
  | 274 => some .adr21
  | 275 => some .adrp21
  | _ => none

def Kind.width : Kind → ℕ
  | nothing => 0
  | data64 => 8
  | _ => 4

/-- The distance is one that the instruction can hold. -/
def Kind.Reaches (s a p : BitVec 64) : Kind → Prop
  | branch26 => -2 ^ 27 ≤ (s + a - p).toInt ∧ (s + a - p).toInt < 2 ^ 27 ∧
      (s + a - p).toInt % 4 = 0
  | adr21 => -2 ^ 20 ≤ (s + a - p).toInt ∧ (s + a - p).toInt < 2 ^ 20
  | adrp21 =>
    let pages := (((s + a) &&& ~~~ 0xfff) - (p &&& ~~~ 0xfff)).sshiftRight 12
    pages.toInt < 2 ^ 20 ∧ -2 ^ 20 ≤ pages.toInt
  | _ => True

instance (s a p : BitVec 64) (k : Kind) : Decidable (k.Reaches s a p) := by
  cases k <;> unfold Kind.Reaches <;> infer_instance

/-- `arm64::apply`. -/
def apply (img : Image) (type target symVa addend : ℕ) : Load Unit :=
  match kindOf type with
  | none => .error .panic
  | some kind =>
    if kind.Reaches (.ofNat 64 symVa) (.ofNat 64 addend) (.ofNat 64 target) then
      write img target kind.width
    else .error .panic

/-- `symbols::resolve`. -/
def resolve (env : Env) (img : Image) (sym : Symbol) (name : Buffer) : Load ℕ :=
  if sym.shndx = 0 then orErr .ENOENT (env.lookup name)
  else if sym.shndx = 0xfff1 then .ok sym.value
  else if sym.shndx = shnCommon then .error .panic
  else do
    let va ← orErr .ENOEXEC (img.sectionVa[sym.shndx]?.join)
    .ok (wadd va sym.value)

/-- A branch that cannot reach the symbol. -/
def Far (type target symVa : ℕ) : Prop :=
  let off := (BitVec.ofNat 64 symVa - BitVec.ofNat 64 target).toInt
  (type = 282 ∨ type = 283) ∧ ¬ (-2 ^ 27 ≤ off ∧ off < 2 ^ 27)

instance (type target symVa : ℕ) : Decidable (Far type target symVa) :=
  inferInstanceAs (Decidable (_ ∧ _))

/-- The address that the relocation is applied with, and the trampolines so far: a branch that
is too far away goes to a trampoline of the symbol. -/
def effectiveVa (img : Image) (type target symVa : ℕ) (stubs : List (ℕ × ℕ)) :
    Load (ℕ × List (ℕ × ℕ)) :=
  if Far type target symVa then
    match stubs.find? (·.1 = symVa) with
    | some stub => .ok (stub.2, stubs)
    | none => do
      ensure (stubs.length < 256)
      let stub := wadd img.stubs (stubs.length * 16)
      write img stub 16
      .ok (stub, stubs ++ [(symVa, stub)])
  else .ok (symVa, stubs)

/-- One relocation against the section at `targetVa`. -/
def relocate (env : Env) (obj : RelObj) (img : Image) (targetVa : ℕ) (stubs : List (ℕ × ℕ))
    (rel : Rela) : Load (List (ℕ × ℕ)) := do
  let sym ← orErr .ENOEXEC obj.symtab[rel.info / 2 ^ 32]?
  let symVa ← resolve env img sym (readCstr obj.strtab sym.name)
  let type := rel.info % 2 ^ 32
  let target := wadd targetVa rel.offset
  let (va, stubs) ← effectiveVa img type target symVa stubs
  apply img type target va rel.addend
  .ok stubs

/-- The entries of a table of relocations that starts inside the file. -/
def relocations (obj : RelObj) (sh : Section) : Option (List Rela) :=
  records Rela.ofBytes 24 (obj.buf.drop sh.offset) (sh.size / 24)

/-- The relocations of one section, if it is a table of them against a loaded section. -/
def relocateTable (env : Env) (obj : RelObj) (img : Image) (stubs : List (ℕ × ℕ))
    (sh : Section) : Load (List (ℕ × ℕ)) :=
  if sh.type ≠ shtRela then .ok stubs
  else if sh.offset ≤ obj.buf.length then
    match relocations obj sh, img.sectionVa[sh.info]?.join with
    | some entries, some targetVa => entries.foldlM (relocate env obj img targetVa) stubs
    | _, _ => .ok stubs
  else .error .panic

/-- `load_module`, up to the point where all is written. -/
def loadModule (env : Env) (buf : Buffer) : Load Unit := do
  let obj ← parse buf
  modinfo obj
  let img ← place env obj
  copySections img obj
  let _ ← obj.sections.foldlM (relocateTable env obj img) []
  .ok ()

/-! ## What a file has to meet -/

/-- The entries of a table in the file. -/
def entriesAt {α : Type} (ofBytes : Buffer → α) (width : ℕ) (buf : Buffer) (offset count : ℕ) :
    List α :=
  (List.range count).map fun i => ofBytes ((buf.drop offset).drop (width * i))

def headers (buf : Buffer) : List Section :=
  entriesAt Section.ofBytes 64 buf (readUint buf 40 8) (readUint buf 60 2)

def symtabHeader (buf : Buffer) : Option Section := (headers buf).find? (·.type = shtSymtab)

def symbols (buf : Buffer) : List Symbol :=
  match symtabHeader buf with
  | some sh => entriesAt Symbol.ofBytes 24 buf sh.offset (sh.size / 24)
  | none => []

/-- The names of the symbols. -/
def strings (buf : Buffer) : Buffer :=
  match (symtabHeader buf).bind fun sh => (headers buf)[sh.link]? with
  | some sh => (buf.take (sh.offset + sh.size)).drop sh.offset
  | none => []

def relas (buf : Buffer) (sh : Section) : List Rela :=
  entriesAt Rela.ofBytes 24 buf sh.offset (sh.size / 24)

/-- At most what a section adds to the image, with the gap before it. -/
def Section.need (sh : Section) : ℕ :=
  if sh.flags / 2 % 2 = 0 then 0 else sh.addralign + 1 + sh.size

/-- The place and the symbol are so near, or so aligned, that the instruction can be changed. -/
def Kind.Near (symVa addend target : ℕ) : Kind → Prop
  | branch26 => addend = 0 ∧ symVa % 4 = 0 ∧ target % 4 = 0
  | kind => kind.Reaches (.ofNat 64 symVa) (.ofNat 64 addend) (.ofNat 64 target)

instance (symVa addend target : ℕ) (k : Kind) : Decidable (k.Near symVa addend target) := by
  cases k <;> unfold Kind.Near <;> infer_instance

/-- A relocation against a section of `size` bytes at `offset` of the image: its type is known,
it changes bytes of the section, its symbol is no common one and can be reached. -/
def RelocFits (env : Env) (buf : Buffer) (size offset : ℕ) (rel : Rela) : Prop :=
  ∃ kind ∈ kindOf (rel.info % 2 ^ 32), rel.offset + kind.width ≤ size ∧
    ∀ sym ∈ (symbols buf)[rel.info / 2 ^ 32]?, sym.shndx ≠ shnCommon ∧
      ∀ base ∈ env.allocPages (imagePages (headers buf)),
        ∀ symVa ∈ (resolve env (imageAt (headers buf) base) sym
            (readCstr (strings buf) sym.name)).toOption,
          kind.Near symVa rel.addend (base + offset + rel.offset)

instance (env : Env) (buf : Buffer) (size offset : ℕ) (rel : Rela) :
    Decidable (RelocFits env buf size offset rel) := by
  unfold RelocFits
  infer_instance

/-- What a file needs to be loaded or refused with an error, by its fields: no section ends
behind the last address, the tables start in the file, the sections take less than 128 MB, and
the relocations stay in the sections that they are against. -/
structure Loadable (env : Env) (buf : Buffer) : Prop where
  noWrap : ∀ sh ∈ headers buf, sh.offset + sh.size < 2 ^ 64
  tables : ∀ sh ∈ headers buf, sh.type = shtSymtab ∨ sh.type = shtRela → sh.offset ≤ buf.length
  small : ((headers buf).map Section.need).sum + 3 * 4096 ≤ 2 ^ 27
  relocs : ∀ sh ∈ headers buf, sh.type = shtRela → ∀ target ∈ (headers buf)[sh.info]?,
    ∀ offset ∈ (layout (headers buf)).1[sh.info]?.join, ∀ rel ∈ relas buf sh,
      RelocFits env buf target.size offset rel

/-- The page allocator answers pages of the address space. -/
def Env.PagesOk (env : Env) : Prop :=
  ∀ pages base, env.allocPages pages = some base → base % 4096 = 0 ∧ base + pages * 4096 ≤ 2 ^ 64

/-! ## Which files are loaded safely -/

/-- The computation does not panic and writes into the image only, and its result, if it has
one, meets the condition. -/
def Ends {α : Type} (x : Load α) (P : α → Prop) : Prop := Safe x ∧ ∀ a, x = .ok a → P a

section Ends

variable {α β : Type} {P : α → Prop} {Q : β → Prop}

lemma ends_ok {a : α} (h : P a) : Ends (.ok a : Load α) P := by
  refine ⟨by simp [Safe], ?_⟩
  rintro b ⟨⟩
  exact h

lemma ends_err (errno : Errno) : Ends (.error (.err errno) : Load α) P := by
  refine ⟨by simp [Safe], ?_⟩
  rintro b ⟨⟩

lemma Ends.bind {x : Load α} {f : α → Load β} (hx : Ends x P) (hf : ∀ a, P a → Ends (f a) Q) :
    Ends (x >>= f) Q := by
  cases x with
  | ok a => exact hf a (hx.2 a rfl)
  | error stop =>
    refine ⟨⟨fun h => hx.1.1 ?_, fun h => hx.1.2 ?_⟩, fun b h => by cases h⟩
    · cases h
      rfl
    · cases h
      rfl

lemma ends_ensure (c : Prop) [Decidable c] : Ends (ensure c) fun _ => c := by
  unfold ensure
  split
  · exact ends_ok ‹c›
  · exact ends_err _

lemma ends_orErr (errno : Errno) (o : Option α) : Ends (orErr errno o) fun a => o = some a := by
  cases o with
  | none => exact ends_err errno
  | some a => exact ends_ok rfl

/-- The rule for a loop, with its invariant. -/
lemma Ends.foldlM {f : β → α → Load β} {l : List α} {start : β} (hstart : Q start)
    (hstep : ∀ acc, Q acc → ∀ a ∈ l, Ends (f acc a) Q) : Ends (l.foldlM f start) Q := by
  induction l generalizing start with
  | nil => exact ends_ok hstart
  | cons a l ih =>
    refine (hstep start hstart a mem_cons_self).bind fun next hnext => ih hnext ?_
    exact fun acc hacc b hb => hstep acc hacc b (mem_cons_of_mem _ hb)

lemma ends_slice {buf : Buffer} {start stop : ℕ} (h : start ≤ stop ∧ stop ≤ buf.length) :
    Ends (slice buf start stop) fun bytes => bytes = (buf.take stop).drop start := by
  rw [slice, if_pos h]
  exact ends_ok rfl

lemma ends_write {img : Image} {address count : ℕ} (h : img.Holds address count) :
    Ends (write img address count) fun _ => True := by
  rw [write, if_pos h]
  exact ends_ok trivial

end Ends

/-! ### The parser -/

lemma records_eq {α : Type} {ofBytes : Buffer → α} {width offset count : ℕ} {buf : Buffer}
    {l : List α} (h : records ofBytes width (buf.drop offset) count = some l) :
    l = entriesAt ofBytes width buf offset count := by
  unfold records at h
  split_ifs at h
  exact (Option.some.inj h).symm

lemma ends_parseHeader (buf : Buffer) :
    Ends (parseHeader buf) fun r => r.1 = headers buf ∧ r.2 ∈ headers buf := by
  refine (ends_ensure _).bind fun _ _ => (ends_ensure _).bind fun _ _ => ?_
  refine (ends_ensure _).bind fun _ _ => (ends_ensure _).bind fun _ _ => ?_
  refine (ends_ensure _).bind fun _ _ => (ends_orErr _ _).bind fun sections hsections => ?_
  refine (ends_orErr _ _).bind fun names hnames => ends_ok ?_
  obtain rfl := records_eq hsections
  exact ⟨rfl, mem_of_getElem? hnames⟩

lemma ends_stringTable {buf : Buffer} {sh : Section} (h : sh.offset + sh.size < 2 ^ 64) :
    Ends (stringTable buf sh) fun bytes =>
      bytes = (buf.take (sh.offset + sh.size)).drop sh.offset := by
  unfold stringTable
  rw [wadd_of_lt h]
  exact (ends_ensure _).bind fun _ hend => ends_slice ⟨by omega, hend⟩

section File

variable {env : Env} {buf : Buffer}

/-- What the parser reads is in the file. -/
lemma ends_parse (h : Loadable env buf) :
    Ends (parse buf) fun obj => obj.buf = buf ∧ obj.sections = headers buf ∧
      obj.symtab = symbols buf ∧ obj.strtab = strings buf := by
  refine (ends_parseHeader buf).bind fun ⟨sections, names⟩ ⟨hsections, hnames⟩ => ?_
  subst hsections
  refine (ends_stringTable (h.noWrap names hnames)).bind fun shstrtab _ => ?_
  refine (ends_orErr _ _).bind fun sh hsh => ?_
  have htype : sh.type = shtSymtab := by simpa using find?_some hsh
  have hstart := h.tables sh (mem_of_find?_eq_some hsh) (.inl htype)
  refine (ends_slice ⟨hstart, le_rfl⟩).bind fun bytes hbytes => ?_
  rw [take_length] at hbytes
  subst hbytes
  have hsyms : Ends (parseSymbols (headers buf) sh (buf.drop sh.offset)) fun r =>
      r.1 = symbols buf ∧ (headers buf)[sh.link]? = some r.2 := by
    refine (ends_orErr _ _).bind fun symtab hsymtab => (ends_orErr _ _).bind fun strs hstrs => ?_
    refine ends_ok ⟨?_, hstrs⟩
    obtain rfl := records_eq hsymtab
    unfold symbols symtabHeader
    rw [hsh]
  refine hsyms.bind fun ⟨symtab, strs⟩ ⟨hsymtab, hstrs⟩ => ?_
  refine (ends_stringTable (h.noWrap strs (mem_of_getElem? hstrs))).bind fun strtab hstrtab => ?_
  refine ends_ok ⟨rfl, rfl, hsymtab, ?_⟩
  unfold strings symtabHeader
  rw [hsh, Option.bind_some]
  rw [hstrs, hstrtab]

lemma ends_modinfo {obj : RelObj} (h : ∀ sh ∈ obj.sections, sh.offset + sh.size < 2 ^ 64) :
    Ends (modinfo obj) fun _ => True := by
  unfold modinfo
  cases hsec : modinfoSection obj with
  | none => exact ends_ok trivial
  | some sh =>
    have hfound := find?_some hsec
    rw [decide_eq_true_iff] at hfound
    have hend := hfound.2
    have hlt := h sh (mem_of_find?_eq_some hsec)
    rw [wadd_of_lt hlt] at hend
    refine Ends.bind (ends_slice ?_) fun _ _ => ends_ok trivial
    rw [wadd_of_lt hlt]
    exact ⟨by omega, hend⟩

end File

/-! ### The layout -/

section Layout

lemma and_add_and_not (y m : BitVec 64) : (y &&& m).toNat + (y &&& ~~~ m).toNat = y.toNat := by
  have hzero : (y &&& m) &&& (y &&& ~~~ m) = 0#64 := by
    ext i
    simp +contextual
  have hsum : (y &&& m) + (y &&& ~~~ m) = y := by
    rw [BitVec.add_eq_or_of_and_eq_zero _ _ hzero]
    ext i
    simp [← Bool.and_or_distrib_left]
  have hleft : (y &&& m).toNat ≤ y.toNat := by
    rw [BitVec.toNat_and]
    exact Nat.and_le_left
  have h := congrArg BitVec.toNat hsum
  rw [BitVec.toNat_add] at h
  omega

lemma toNat_mask {a : ℕ} (ha : 0 < a) (h : a < 2 ^ 64) :
    (BitVec.ofNat 64 a - 1).toNat = a - 1 := by
  have hone : (1 : BitVec 64).toNat = 1 := rfl
  rw [BitVec.toNat_sub, BitVec.toNat_ofNat, hone]
  omega

/-- Rounding up moves an address by less than the alignment. -/
lemma alignUp_bounds {x a : ℕ} (ha : 0 < a) (h : x + a < 2 ^ 64) :
    x ≤ alignUp x a ∧ alignUp x a < x + a := by
  have hmask := toNat_mask ha (by omega)
  have hsplit := and_add_and_not (.ofNat 64 x + (.ofNat 64 a - 1)) (.ofNat 64 a - 1)
  have hle : ((.ofNat 64 x + (.ofNat 64 a - 1)) &&& (.ofNat 64 a - 1) : BitVec 64).toNat ≤
      (BitVec.ofNat 64 a - 1).toNat := by
    exact Nat.and_le_right
  have hsum : (BitVec.ofNat 64 x + (.ofNat 64 a - 1)).toNat = x + (a - 1) := by
    rw [BitVec.toNat_add, hmask, BitVec.toNat_ofNat]
    omega
  unfold alignUp
  dsimp only
  omega

lemma alignUp_mod (x : ℕ) {k : ℕ} (hk : k < 64) : alignUp x (2 ^ k) % 2 ^ k = 0 := by
  have hmask := @toNat_mask (2 ^ k) (Nat.two_pow_pos k) (Nat.pow_lt_pow_right (by norm_num) hk)
  rw [← Nat.and_two_pow_sub_one_eq_mod, ← hmask]
  unfold alignUp
  rw [← BitVec.toNat_and, BitVec.and_assoc]
  simp

lemma layout_append (l : List Section) (sh : Section) :
    layout (l ++ [sh]) = if sh.flags / 2 % 2 = 0 then ((layout l).1 ++ [none], (layout l).2)
      else
        let offset := alignUp (layout l).2 (if sh.addralign = 0 then 1 else sh.addralign)
        ((layout l).1 ++ [some offset], wadd offset sh.size) := by
  rw [layout, foldl_append]
  rfl

/-- If the sizes do not wrap, each section ends before the end of the layout. -/
lemma layout_spec {sections : List Section}
    (hfit : (sections.map Section.need).sum ≤ 2 ^ 27) :
    (layout sections).1.length = sections.length ∧
      (layout sections).2 ≤ (sections.map Section.need).sum ∧
      ∀ sh offset, (sh, some offset) ∈ sections.zip (layout sections).1 →
        offset + sh.size ≤ (layout sections).2 := by
  induction sections using reverseRecOn with
  | nil => exact ⟨rfl, le_rfl, fun _ _ h => by cases h⟩
  | append_singleton l sh ih =>
    rw [map_append, sum_append] at hfit ⊢
    simp only [map_cons, map_nil, sum_cons, sum_nil, add_zero, Section.need] at hfit ⊢
    obtain ⟨hlen, htotal, hin⟩ := ih (by omega)
    rw [layout_append]
    by_cases hload : sh.flags / 2 % 2 = 0
    · rw [if_pos hload] at hfit ⊢
      rw [if_pos hload]
      refine ⟨by simp [hlen], htotal, fun sh' offset hmem => ?_⟩
      rw [zip_append hlen.symm] at hmem
      exact hin sh' offset (by simpa using hmem)
    · rw [if_neg hload] at hfit ⊢
      rw [if_neg hload]
      have halign : 0 < (if sh.addralign = 0 then 1 else sh.addralign) ∧
          (if sh.addralign = 0 then 1 else sh.addralign) ≤ sh.addralign + 1 := by
        split_ifs <;> omega
      obtain ⟨hlow, hhigh⟩ := @alignUp_bounds (layout l).2 _ halign.1 (by omega)
      dsimp only
      rw [wadd_of_lt (by omega)]
      refine ⟨by simp [hlen], by omega, fun sh' offset' hmem => ?_⟩
      rw [zip_append hlen.symm, mem_append] at hmem
      rcases hmem with hmem | hmem
      · have hend := hin sh' offset' hmem
        omega
      · simp only [zip_cons_cons, zip_nil_right, mem_singleton, Prod.mk.injEq,
          Option.some.injEq] at hmem
        obtain ⟨rfl, rfl⟩ := hmem
        exact le_rfl

/-- The trampolines lie behind the sections, at multiples of 16 bytes, and the image is smaller
than 128 MB. -/
lemma stubArea_bounds {sections : List Section}
    (hsmall : (sections.map Section.need).sum + 3 * 4096 ≤ 2 ^ 27) :
    (layout sections).2 ≤ stubArea sections ∧ stubArea sections % 16 = 0 ∧
      stubArea sections + 4096 ≤ imagePages sections * 4096 ∧
      imagePages sections * 4096 ≤ 2 ^ 27 := by
  obtain ⟨-, htotal, -⟩ := @layout_spec sections (by omega)
  obtain ⟨hlow, hhigh⟩ := @alignUp_bounds (layout sections).2 16 (by norm_num) (by omega)
  have hmod : stubArea sections % 16 = 0 := @alignUp_mod (layout sections).2 4 (by norm_num)
  have hpages := @alignUp_mod (stubArea sections + 4096) 12 (by norm_num)
  obtain ⟨hlow', hhigh'⟩ := @alignUp_bounds (stubArea sections + 4096) 4096 (by norm_num)
    (by unfold stubArea; omega)
  have hend : wadd (stubArea sections) (256 * 16) = stubArea sections + 4096 :=
    wadd_of_lt (by unfold stubArea; omega)
  unfold imagePages
  rw [hend]
  unfold stubArea at *
  norm_num at hpages
  omega

end Layout

lemma toInt_distance (s p : ℕ) :
    (BitVec.ofNat 64 s - BitVec.ofNat 64 p).toInt = ((s : ℤ) - p).bmod (2 ^ 64) := by
  simp [BitVec.toInt_sub, BitVec.toInt_ofNat']

/-! ### The image -/

section Image

variable {sections : List Section} {base : ℕ} {sh : Section} {offset : ℕ}

variable (hsmall : (sections.map Section.need).sum + 3 * 4096 ≤ 2 ^ 27)
  (hend : base + imagePages sections * 4096 ≤ 2 ^ 64)

include hsmall hend

/-- A section lies in the image. -/
lemma section_bounds (hmem : (sh, some offset) ∈ sections.zip (layout sections).1) :
    wadd base offset = base + offset ∧
      offset + sh.size + 4096 ≤ imagePages sections * 4096 := by
  have hin := (layout_spec (by omega)).2.2 sh offset hmem
  have hstub := stubArea_bounds hsmall
  exact ⟨wadd_of_lt (by omega), by omega⟩

lemma holds_section (hmem : (sh, some offset) ∈ sections.zip (layout sections).1)
    {start count : ℕ} (h : start + count ≤ sh.size) :
    (imageAt sections base).Holds (base + offset + start) count := by
  have hin := (section_bounds hsmall hend hmem).2
  refine .inr ⟨?_, ?_⟩
  · change base ≤ _
    omega
  · change _ ≤ base + imagePages sections * 4096
    omega

lemma ends_copySections {obj : RelObj} (hobj : obj.sections = sections) :
    Ends (copySections (imageAt sections base) obj) fun _ => True := by
  refine Ends.foldlM trivial fun _ _ ⟨sh, va⟩ hmem => ?_
  rw [hobj] at hmem
  change (sh, va) ∈ sections.zip ((layout sections).1.map (Option.map (wadd base))) at hmem
  rw [zip_map_right, mem_map] at hmem
  obtain ⟨⟨sh', o⟩, hmem, heq⟩ := hmem
  obtain ⟨rfl, rfl⟩ := Prod.mk.inj heq
  cases o with
  | none => exact ends_ok trivial
  | some offset =>
    have hholds := @holds_section sections base sh' offset hsmall hend hmem 0 sh'.size
      (by rw [zero_add])
    rw [add_zero, ← (section_bounds hsmall hend hmem).1] at hholds
    simp only [id_eq, Option.map_some, copySection]
    split_ifs
    · exact (ends_ensure _).bind fun _ _ => ends_write hholds
    · exact ends_write hholds
    · exact ends_ok trivial

/-! ### Relocations -/

/-- The trampolines lie in their area. -/
def StubsOk (sections : List Section) (base : ℕ) (stubs : List (ℕ × ℕ)) : Prop :=
  ∀ stub ∈ stubs, ∃ k < 256, stub.2 = base + stubArea sections + 16 * k

lemma ends_effectiveVa {type target symVa : ℕ} {stubs : List (ℕ × ℕ)}
    (hstubs : StubsOk sections base stubs) :
    Ends (effectiveVa (imageAt sections base) type target symVa stubs) fun r =>
      StubsOk sections base r.2 ∧ (¬ Far type target symVa → r.1 = symVa) ∧
        (Far type target symVa → ∃ k < 256, r.1 = base + stubArea sections + 16 * k) := by
  unfold effectiveVa
  by_cases hfar : Far type target symVa
  · rw [if_pos hfar]
    cases hfind : stubs.find? (·.1 = symVa) with
    | some stub =>
      exact ends_ok ⟨hstubs, fun h => absurd hfar h, fun _ =>
        hstubs stub (mem_of_find?_eq_some hfind)⟩
    | none =>
      refine (ends_ensure _).bind fun _ hlen => ?_
      have hbounds := stubArea_bounds hsmall
      have hva : wadd (imageAt sections base).stubs (stubs.length * 16) =
          base + stubArea sections + 16 * stubs.length := by
        change wadd (wadd base (stubArea sections)) (stubs.length * 16) = _
        rw [@wadd_of_lt base (stubArea sections) (by omega), wadd_of_lt (by omega)]
        omega
      rw [hva]
      refine (ends_write (.inr ⟨?_, ?_⟩)).bind fun _ _ => ends_ok ⟨?_, ?_, ?_⟩
      · change base ≤ _
        omega
      · change _ ≤ base + imagePages sections * 4096
        omega
      · intro stub hstub
        rcases mem_append.mp hstub with hstub | hstub
        · exact hstubs stub hstub
        · rw [mem_singleton.mp hstub]
          exact ⟨_, hlen, rfl⟩
      · exact fun h => absurd hfar h
      · exact fun _ => ⟨_, hlen, rfl⟩
  · rw [if_neg hfar]
    exact ends_ok ⟨hstubs, fun _ => rfl, fun h => absurd h hfar⟩

omit hend in
/-- A type that is known can hold the distance, with a trampoline if the branch is too long. -/
lemma reaches_of_near {type target symVa va addend : ℕ} {kind : Kind}
    (hbase : base % 4096 = 0) (hkind : kindOf type = some kind)
    (hnear : kind.Near symVa addend target) (htarget : base ≤ target)
    (htarget' : target < base + imagePages sections * 4096)
    (hkeep : ¬ Far type target symVa → va = symVa)
    (hstub : Far type target symVa → ∃ k < 256, va = base + stubArea sections + 16 * k) :
    kind.Reaches (.ofNat 64 va) (.ofNat 64 addend) (.ofNat 64 target) := by
  obtain ⟨-, hmod, harea, hlen⟩ := stubArea_bounds hsmall
  have hbranch : type = 282 ∨ type = 283 → kind = .branch26 := by
    rintro (rfl | rfl) <;> exact (Option.some.inj hkind).symm
  have hother : kind ≠ .branch26 → va = symVa := fun hne => hkeep fun hfar => hne (hbranch hfar.1)
  cases kind with
  | branch26 =>
    obtain ⟨rfl, hsym, hplace⟩ := hnear
    have htype : type = 282 ∨ type = 283 := by
      unfold kindOf at hkind
      split at hkind <;> cases hkind <;> simp
    simp only [Kind.Reaches, BitVec.add_zero, toInt_distance]
    by_cases hfar : Far type target symVa
    · obtain ⟨k, hk, rfl⟩ := hstub hfar
      rw [Int.bmod_def]
      omega
    · rw [hkeep hfar]
      have hrange := not_not.mp fun hout => hfar ⟨htype, hout⟩
      rw [toInt_distance] at hrange
      refine ⟨hrange.1, hrange.2, ?_⟩
      rw [Int.bmod_def]
      omega
  | nothing | data64 | data32 => trivial
  | adr21 | adrp21 =>
    rw [hother (by simp)]
    exact hnear

end Image

section Load

variable {env : Env} {buf : Buffer} {obj : RelObj} {base : ℕ}

/-- The loader's view of the file is the file. -/
structure Views (obj : RelObj) (buf : Buffer) : Prop where
  buf_eq : obj.buf = buf
  sections_eq : obj.sections = headers buf
  symtab_eq : obj.symtab = symbols buf
  strtab_eq : obj.strtab = strings buf

variable (h : Loadable env buf) (hobj : Views obj buf)
  (halloc : env.allocPages (imagePages (headers buf)) = some base) (hbase : base % 4096 = 0)
  (hend : base + imagePages (headers buf) * 4096 ≤ 2 ^ 64)

include h hobj halloc hbase hend

lemma ends_relocate {target : Section} {offset : ℕ} {rel : Rela} {stubs : List (ℕ × ℕ)}
    (hmem : (target, some offset) ∈ (headers buf).zip (layout (headers buf)).1)
    (hfits : RelocFits env buf target.size offset rel)
    (hstubs : StubsOk (headers buf) base stubs) :
    Ends (relocate env obj (imageAt (headers buf) base) (wadd base offset) stubs rel)
      (StubsOk (headers buf) base) := by
  obtain ⟨kind, hkind, hwidth, hsyms⟩ := hfits
  obtain ⟨hva, hin⟩ := section_bounds h.small hend hmem
  have hholds := holds_section h.small hend hmem hwidth
  unfold relocate
  rw [hobj.symtab_eq, hobj.strtab_eq, hva, @wadd_of_lt (base + offset) rel.offset (by omega)]
  refine (ends_orErr _ _).bind fun sym hsym => ?_
  obtain ⟨hcommon, hnear⟩ := hsyms sym hsym
  have hresolve : Ends (resolve env (imageAt (headers buf) base) sym
      (readCstr (strings buf) sym.name)) fun symVa =>
        kind.Near symVa rel.addend (base + offset + rel.offset) := by
    refine ⟨?_, fun symVa hsymVa => hnear base halloc symVa (by rw [hsymVa]; rfl)⟩
    unfold resolve
    split_ifs
    · exact (ends_orErr _ _).1
    · exact (@ends_ok _ (fun _ => True) _ trivial).1
    · exact ((ends_orErr _ _).bind fun _ _ => @ends_ok _ (fun _ => True) _ trivial).1
  refine hresolve.bind fun symVa hsymVa => ?_
  refine (ends_effectiveVa h.small hend hstubs).bind fun ⟨va, stubs'⟩ ⟨hstubs', hkeep, hstub⟩ => ?_
  have hreaches := reaches_of_near h.small hbase hkind hsymVa (by omega) (by omega) hkeep hstub
  have happly : Ends (apply (imageAt (headers buf) base) (rel.info % 2 ^ 32)
      (base + offset + rel.offset) va rel.addend) fun _ => True := by
    unfold apply
    rw [hkind]
    dsimp only
    rw [if_pos hreaches]
    exact ends_write hholds
  exact happly.bind fun _ _ => ends_ok hstubs'

lemma ends_relocateTable {sh : Section} (hsh : sh ∈ headers buf) {stubs : List (ℕ × ℕ)}
    (hstubs : StubsOk (headers buf) base stubs) :
    Ends (relocateTable env obj (imageAt (headers buf) base) stubs sh)
      (StubsOk (headers buf) base) := by
  unfold relocateTable
  by_cases htype : sh.type = shtRela
  · rw [if_neg (not_not.mpr htype), hobj.buf_eq, if_pos (h.tables sh hsh (.inr htype))]
    split
    · next entries targetVa hentries htarget =>
      unfold relocations at hentries
      rw [hobj.buf_eq] at hentries
      obtain rfl := records_eq hentries
      change ((layout (headers buf)).1.map (Option.map (wadd base)))[sh.info]?.join = _ at htarget
      rw [getElem?_map] at htarget
      cases hoffset : (layout (headers buf)).1[sh.info]? with
      | none =>
        rw [hoffset] at htarget
        cases htarget
      | some o =>
        cases o with
        | none =>
          rw [hoffset] at htarget
          cases htarget
        | some offset =>
          rw [hoffset] at htarget
          cases htarget
          have hsmall := h.small
          obtain ⟨hlength, -, -⟩ := @layout_spec (headers buf) (by omega)
          obtain ⟨hlt, -⟩ := List.getElem?_eq_some_iff.mp hoffset
          obtain ⟨target, htarget⟩ : ∃ target, (headers buf)[sh.info]? = some target :=
            ⟨_, getElem?_eq_getElem (hlength ▸ hlt)⟩
          have hmem : (target, some offset) ∈ (headers buf).zip (layout (headers buf)).1 :=
            mem_of_getElem? (getElem?_zip_eq_some.mpr ⟨htarget, hoffset⟩)
          refine Ends.foldlM hstubs fun stubs' hstubs' rel hrel => ?_
          refine ends_relocate h hobj halloc hbase hend hmem ?_ hstubs'
          exact h.relocs sh hsh htype target htarget offset (by rw [hoffset]; rfl) rel hrel
    · exact ends_ok hstubs
  · rw [if_pos htype]
    exact ends_ok hstubs

end Load

/-- The bytes of a number, the lowest one first. -/
def littleEndian (width value : ℕ) : Buffer :=
  (List.range width).map fun i => .ofNat 8 (value / 256 ^ i)

/-- The start of an object file with this number of sections; the first one has the names. -/
def objectHeader (sections : ℕ) : Buffer :=
  elfMag ++ littleEndian 12 0 ++ littleEndian 2 1 ++ littleEndian 2 183 ++ littleEndian 20 0 ++
    littleEndian 8 64 ++ littleEndian 12 0 ++ littleEndian 2 sections ++ littleEndian 2 0

def sectionHeader (type flags offset size info : ℕ) : Buffer :=
  littleEndian 4 0 ++ littleEndian 4 type ++ littleEndian 8 flags ++ littleEndian 8 0 ++
    littleEndian 8 offset ++ littleEndian 8 size ++ littleEndian 4 0 ++ littleEndian 4 info ++
    littleEndian 16 0

/-- A file of which the symbol table starts behind the end. -/
def farSymbols : Buffer :=
  objectHeader 2 ++ sectionHeader 3 0 0 0 0 ++ sectionHeader shtSymtab 0 4096 24 0

/-- A file with sixteen bytes of code, one symbol of section `shndx` and one relocation of the
code against it. -/
def oneReloc (shndx type offset : ℕ) : Buffer :=
  objectHeader 4 ++ sectionHeader 3 0 0 0 0 ++ sectionHeader shtSymtab 0 320 24 0 ++
    sectionHeader shtProgbits 2 0 16 0 ++ sectionHeader shtRela 0 344 24 2 ++
    (littleEndian 6 0 ++ littleEndian 2 shndx ++ littleEndian 16 0) ++
    (littleEndian 8 offset ++ littleEndian 8 type ++ littleEndian 8 0)

/-- Pages for small modules, and an exported symbol far away from them. -/
def somePages : Env :=
  ⟨fun pages => if pages ≤ 16 then some 0x40000000 else none, fun _ => some 0x8000000000⟩

lemma pagesOk_somePages : somePages.PagesOk := by
  intro pages base h
  obtain ⟨hle, rfl⟩ : pages ≤ 16 ∧ 0x40000000 = base := by
    simpa [somePages] using h
  exact ⟨rfl, by omega⟩

end Kevlar.Modules
