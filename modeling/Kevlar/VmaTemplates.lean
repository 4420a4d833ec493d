import Kevlar.VmArea

/-!
# Loading the segments of a static executable

`load_elf_segments` adds an area for every loadable segment and anonymous areas for
the gaps between them. For a static executable the areas it has added are kept as a
template under the address of the file object, and the next `exec` of a file object
at that address adds the areas of the template and does not look at the program
headers that it has just read. No template is ever dropped.

Applying a template does what `load_elf_segments` has done when the template was
made. So an `exec` installs the areas of its own headers as long as an address with
a template is only given headers that make the same template, and otherwise it may
install the areas of a file that no longer exists.
-/
namespace Kevlar
open Option Except List

/-- The fields of an ELF program header that the loader reads. -/
structure ProgramHeader where
  pType : ℕ
  pFlags : ℕ
  pOffset : ℕ
  pVaddr : ℕ
  pFilesz : ℕ
  pMemsz : ℕ
  deriving Repr, DecidableEq

def ptLoad : ℕ := 1

/-- `elf_flags_to_prot`: the bits of a segment in the order of `MMapProt`. -/
def elfFlagsToProt (pFlags : ℕ) : MMapProt where
  read := pFlags.testBit 2
  write := pFlags.testBit 1
  exec := pFlags.testBit 0

namespace ProgramHeader

def segStart (phdr : ProgramHeader) (baseOffset : ℕ) : ℕ := wadd phdr.pVaddr baseOffset

def segEnd (phdr : ProgramHeader) (baseOffset : ℕ) : ℕ :=
  wadd (phdr.segStart baseOffset) phdr.pMemsz

def pageStart (phdr : ProgramHeader) (baseOffset : ℕ) : ℕ :=
  alignDown (phdr.segStart baseOffset) pageSize

def pageEnd (phdr : ProgramHeader) (baseOffset : ℕ) : ℕ :=
  alignUp (phdr.segEnd baseOffset) pageSize

/-- A segment with bytes in the file is backed by it from its page-aligned start on. -/
def areaType (phdr : ProgramHeader) (baseOffset : ℕ) (file : FileId) : VmAreaType :=
  let startAdjust := phdr.segStart baseOffset - phdr.pageStart baseOffset
  if 0 < phdr.pFilesz then
    .file file (wsub phdr.pOffset startAdjust) (wadd phdr.pFilesz startAdjust)
  else .anonymous

end ProgramHeader

section Loading

variable (baseOffset : ℕ) (file : FileId)

/-- One iteration of the first loop of `load_elf_segments`. -/
def addSegment (phdr : ProgramHeader) (vm : Vm) : Except Errno Vm := do
  let start ← newNonnull (phdr.pageStart baseOffset)
  vm.addVmAreaWithProt start (wsub (phdr.pageEnd baseOffset) (phdr.pageStart baseOffset))
    (phdr.areaType baseOffset file) (elfFlagsToProt phdr.pFlags) false

def addSegments : List ProgramHeader → Vm → Except Errno Vm
  | [], vm => .ok vm
  | phdr :: phdrs, vm => do
    let vm ← addSegment baseOffset file phdr vm
    addSegments phdrs vm

/-- An anonymous area from one address to another if there is room between them and
the range is still free. -/
def addGap (start stop : ℕ) (vm : Vm) : Except Errno Vm :=
  if start < stop then do
    let start ← newNonnull start
    if vm.isFreeVaddrRange start (stop - start) then
      vm.addVmArea start (stop - start) .anonymous
    else .ok vm
  else .ok vm

/-- The loop that fills the gaps between the page ranges of the segments. -/
def fillGaps : List (ℕ × ℕ) → ℕ → Vm → Except Errno Vm
  | [], _, vm => .ok vm
  | (pageStart, pageEnd) :: ranges, coveredEnd, vm => do
    let vm ← addGap coveredEnd pageStart vm
    fillGaps ranges (max coveredEnd pageEnd) vm

/-- One iteration of the last loop: what is missing of the first and of the last page. -/
def padSegment (phdr : ProgramHeader) (vm : Vm) : Except Errno Vm := do
  let vm ← addGap (phdr.pageStart baseOffset) (phdr.segStart baseOffset) vm
  addGap (phdr.segEnd baseOffset) (phdr.pageEnd baseOffset) vm

def padSegments : List ProgramHeader → Vm → Except Errno Vm
  | [], vm => .ok vm
  | phdr :: phdrs, vm => do
    let vm ← padSegment baseOffset phdr vm
    padSegments phdrs vm

def loadElfSegments (phdrs : List ProgramHeader) (vm : Vm) : Except Errno Vm := do
  let loads := phdrs.filter fun phdr => phdr.pType = ptLoad
  let vm ← addSegments baseOffset file loads vm
  let pageRanges := (loads.map fun phdr =>
    (phdr.pageStart baseOffset, phdr.pageEnd baseOffset)).insertionSort fun r r' => r.1 ≤ r'.1
  match pageRanges with
  | [] => .ok vm
  | (start, _) :: _ =>
    let vm ← fillGaps pageRanges start vm
    padSegments baseOffset loads vm

end Loading

/-! ## The template cache -/

/-- `VmaTemplateEntry`; the protection is kept as bits there. -/
structure VmaTemplateEntry where
  start : ℕ
  len : ℕ
  prot : MMapProt
  isFile : Bool
  fileOffset : ℕ
  fileSize : ℕ
  deriving Repr, DecidableEq

def VmArea.templateEntry (vma : VmArea) : VmaTemplateEntry where
  start := vma.start
  len := wsub vma.endAddr vma.start
  prot := vma.prot
  isFile := match vma.areaType with
    | .file .. => true
    | _ => false
  fileOffset := match vma.areaType with
    | .file _ offset _ => offset
    | _ => 0
  fileSize := match vma.areaType with
    | .file _ _ fileSize => fileSize
    | _ => 0

/-- The template that `save_vma_template` stores: the areas from an index on. -/
def vmaTemplate (vm : Vm) (vmaStartIdx : ℕ) : List VmaTemplateEntry :=
  (vm.vmAreas.drop vmaStartIdx).map VmArea.templateEntry

def applyVmaTemplate (file : FileId) : List VmaTemplateEntry → Vm → Except Errno Vm
  | [], vm => .ok vm
  | entry :: template, vm => do
    let start ← newNonnull entry.start
    let vm ← vm.addVmAreaWithProt start entry.len
      (if entry.isFile then .file file entry.fileOffset entry.fileSize else .anonymous)
      entry.prot false
    applyVmaTemplate file template vm

/-- `VMA_TEMPLATE_CACHE`, by the address of the file object. -/
abbrev TemplateCache : Type := FileId → Option (List VmaTemplateEntry)

/-- The part of `do_elf_binfmt` that registers the segments of a static executable. -/
def installSegments (cache : TemplateCache) (file : FileId) (phdrs : List ProgramHeader)
    (vm : Vm) : Except Errno Vm × TemplateCache :=
  match cache file with
  | some template => (applyVmaTemplate file template vm, cache)
  | none =>
    match loadElfSegments 0 file phdrs vm with
    | .ok vm' => (.ok vm', Function.update cache file (some (vmaTemplate vm' vm.vmAreas.length)))
    | .error e => (.error e, cache)

/-- The end of the image. -/
def mainHi (phdrs : List ProgramHeader) : ℕ :=
  phdrs.foldl (fun hi phdr =>
    if phdr.pType = ptLoad then max hi (wadd phdr.pVaddr phdr.pMemsz) else hi) 0

/-- The page of the file header and `USER_STACK_LEN` lie below the stack top. -/
def userStackBottom : ℕ := userStackTop - pageSize - 128 * 1024

/-- The address space that `do_elf_binfmt` makes for a static executable before it
registers the segments. An image that ends at address zero is a panic. -/
def freshVm (pml4 : ℕ) (phdrs : List ProgramHeader) : Option (Except Errno Vm) :=
  let userHeapBottom := alignUp (mainHi phdrs) pageSize
  if userStackBottom ≤ userHeapBottom then some (.error .E2BIG)
  else if userHeapBottom = 0 then none
  else some (.ok (Vm.new pml4 userStackBottom userHeapBottom))

/-! ## Histories -/

/-- What `do_elf_binfmt` finds in a file: a static executable or something else. -/
inductive Content
  | static (phdrs : List ProgramHeader)
  | other

/-- The file objects that exist, by address, and the template cache. -/
structure ExecWorld where
  files : FileId → Option Content
  cache : TemplateCache

/-- An `exec` with its new page table, a rewrite of a file, the end of a file object
and a new one. -/
inductive ExecEvent
  | exec (file : FileId) (pml4 : ℕ)
  | rewrite (file : FileId) (content : Content)
  | drop (file : FileId)
  | create (file : FileId) (content : Content)

namespace ExecWorld

/-- The cache after an `exec`. Only one that gets as far as the segments of a static
executable can change it. -/
def cacheAfter (w : ExecWorld) (file : FileId) (pml4 : ℕ) : TemplateCache :=
  match w.files file with
  | some (.static phdrs) =>
    match freshVm pml4 phdrs with
    | some (.ok vm) => (installSegments w.cache file phdrs vm).2
    | _ => w.cache
  | _ => w.cache

/-- A new file object gets an address that no other one has. -/
def step (w : ExecWorld) : ExecEvent → Option ExecWorld
  | .exec file pml4 => some { w with cache := w.cacheAfter file pml4 }
  | .rewrite file content =>
    if (w.files file).isSome then
      some { w with files := Function.update w.files file (some content) }
    else none
  | .drop file => some { w with files := Function.update w.files file none }
  | .create file content =>
    if (w.files file).isNone then
      some { w with files := Function.update w.files file (some content) }
    else none

end ExecWorld

/-- The worlds that are reached from an empty cache by events that are `ok`. -/
inductive ExecRun (ok : ExecWorld → ExecEvent → Prop) : ExecWorld → Prop
  | start (files : FileId → Option Content) : ExecRun ok ⟨files, fun _ => none⟩
  | step {w w' : ExecWorld} {e : ExecEvent} : ExecRun ok w → ok w e → w.step e = some w' →
      ExecRun ok w'

/-- An `exec` of any static executable installs what `load_elf_segments` makes of the
program headers. -/
def ExecWorld.InstallsHeaders (w : ExecWorld) : Prop :=
  ∀ file phdrs pml4 vm, w.files file = some (.static phdrs) →
    freshVm pml4 phdrs = some (.ok vm) →
    (installSegments w.cache file phdrs vm).1 = loadElfSegments 0 file phdrs vm

/-- The template is the one that the program headers make. -/
def Describes (template : List VmaTemplateEntry) (file : FileId) (phdrs : List ProgramHeader) :
    Prop :=
  ∀ pml4 vm, freshVm pml4 phdrs = some (.ok vm) →
    ∃ vm', loadElfSegments 0 file phdrs vm = .ok vm' ∧
      vmaTemplate vm' vm.vmAreas.length = template

/-- An address with a template is only given contents that make this template. -/
def KeepsTemplates (w : ExecWorld) : ExecEvent → Prop
  | .rewrite file (.static phdrs) | .create file (.static phdrs) =>
    ∀ template, w.cache file = some template → Describes template file phdrs
  | _ => True

/-! ## Applying a template again -/

def Vm.withTable (vm : Vm) (pml4 : ℕ) : Vm := { vm with pml4 := pml4 }

/-- The areas were added one after the other, each of them anonymous or backed by the
file. -/
inductive Appends (file : FileId) : Vm → List VmArea → Vm → Prop
  | nil (vm : Vm) : Appends file vm [] vm
  | cons {vm vm' vm'' : Vm} {areas : List VmArea} {start len : ℕ} {areaType : VmAreaType}
      {prot : MMapProt} : start ≠ 0 → len ≠ 0 →
      areaType = .anonymous ∨ (∃ offset fileSize, areaType = .file file offset fileSize) →
      vm.addVmAreaWithProt start len areaType prot false = .ok vm' → Appends file vm' areas vm'' →
      Appends file vm (⟨start, len, areaType, prot, false, 0⟩ :: areas) vm''

/-- A function that only adds areas, and does not look at the page table. -/
structure Adds (file : FileId) (f : Vm → Except Errno Vm) : Prop where
  appends : ∀ {vm vm'}, f vm = .ok vm' → ∃ areas, Appends file vm areas vm'
  withTable : ∀ vm pml4, f (vm.withTable pml4) = (f vm).map fun vm' => vm'.withTable pml4

variable {vm vm' : Vm} {file : FileId} {phdrs : List ProgramHeader} {w : ExecWorld}

lemma addVmAreaWithProt_ok {start len : ℕ} {areaType : VmAreaType} {prot : MMapProt}
    {shared : Bool} (h : vm.addVmAreaWithProt start len areaType prot shared = .ok vm') :
    len = 0 ∧ vm' = vm ∨ len ≠ 0 ∧ start + len ≤ kernelBaseAddr ∧
      vm' = { vm with vmAreas := vm.vmAreas ++ [⟨start, len, areaType, prot, shared, 0⟩] } := by
  rw [Vm.addVmAreaWithProt] at h
  split_ifs at h with hlen haccess hfree
  · exact .inl ⟨hlen, (ok.inj h).symm⟩
  · refine .inr ⟨hlen, ?_, (ok.inj h).symm⟩
    simpa [accessOk] using haccess

namespace Appends

variable {file : FileId} {vm vm' vm'' : Vm} {areas areas' : List VmArea}

lemma vmAreas_eq (h : Appends file vm areas vm') : vm'.vmAreas = vm.vmAreas ++ areas := by
  induction h with
  | nil vm => rw [append_nil]
  | cons _ hlen _ hadd _ ih =>
    rcases addVmAreaWithProt_ok hadd with ⟨hzero, -⟩ | ⟨-, -, rfl⟩
    · exact absurd hzero hlen
    · rw [ih, append_assoc, singleton_append]

lemma append (h : Appends file vm areas vm') (h' : Appends file vm' areas' vm'') :
    Appends file vm (areas ++ areas') vm'' := by
  induction h with
  | nil vm => exact h'
  | cons hstart hlen htype hadd _ ih => exact .cons hstart hlen htype hadd (ih h')

/-- The entry of an area gives the area again. -/
lemma applyVmaTemplate (h : Appends file vm areas vm') :
    applyVmaTemplate file (areas.map VmArea.templateEntry) vm = .ok vm' := by
  induction h with
  | nil vm => rfl
  | @cons vm vm₁ vm' areas start len areaType prot hstart hlen htype hadd _ ih =>
    have hrange : start + len ≤ kernelBaseAddr := by
      rcases addVmAreaWithProt_ok hadd with ⟨hzero, -⟩ | ⟨-, hrange, -⟩
      · exact absurd hzero hlen
      · exact hrange
    have hword : wsub (wadd start len) start = len := by
      unfold kernelBaseAddr at hrange
      rw [wadd_of_lt (by omega), wsub_of_le (by omega) (by omega), Nat.add_sub_cancel_left]
    have hentry : (if (VmArea.templateEntry ⟨start, len, areaType, prot, false, 0⟩).isFile then
        VmAreaType.file file
          (VmArea.templateEntry ⟨start, len, areaType, prot, false, 0⟩).fileOffset
          (VmArea.templateEntry ⟨start, len, areaType, prot, false, 0⟩).fileSize
        else .anonymous) = areaType := by
      rcases htype with rfl | ⟨offset, fileSize, rfl⟩
      · rfl
      · rfl
    rw [map_cons, Kevlar.applyVmaTemplate, hentry]
    have hnonnull : newNonnull start = .ok start := if_neg hstart
    change (newNonnull start >>= fun a => vm.addVmAreaWithProt a (wsub (wadd start len) start)
      areaType prot false >>= _) = _
    rw [hword, hnonnull]
    change (vm.addVmAreaWithProt start len areaType prot false >>= _) = _
    rw [hadd]
    exact ih

end Appends

namespace Adds

variable {file : FileId} {f f' : Vm → Except Errno Vm}

lemma ok : Adds file ok :=
  ⟨fun {vm _} h => ⟨[], ok.inj h ▸ .nil vm⟩, fun _ _ => rfl⟩

lemma bind (h : Adds file f) (h' : Adds file f') : Adds file fun vm => f vm >>= f' := by
  constructor
  · intro vm vm'' hok
    cases hf : f vm with
    | error e =>
      rw [hf] at hok
      cases hok
    | ok vm' =>
      rw [hf] at hok
      obtain ⟨areas, happends⟩ := h.appends hf
      obtain ⟨areas', happends'⟩ := h'.appends hok
      exact ⟨areas ++ areas', happends.append happends'⟩
  · intro vm pml4
    rw [h.withTable]
    cases f vm with
    | error e => rfl
    | ok vm' => exact h'.withTable vm' pml4

lemma ite {c : Vm → Bool} (hc : ∀ vm pml4, c (vm.withTable pml4) = c vm) (h : Adds file f)
    (h' : Adds file f') : Adds file fun vm => if c vm then f vm else f' vm := by
  constructor
  · intro vm vm' hok
    split_ifs at hok
    · exact h.appends hok
    · exact h'.appends hok
  · intro vm pml4
    rw [hc]
    split_ifs
    · exact h.withTable vm pml4
    · exact h'.withTable vm pml4

lemma nonnull {g : ℕ → Vm → Except Errno Vm} {start : ℕ} (h : start ≠ 0 → Adds file (g start)) :
    Adds file fun vm => newNonnull start >>= fun start => g start vm := by
  by_cases hstart : start = 0
  · have hnull : newNonnull start = .error .EFAULT := if_pos hstart
    rw [hnull]
    exact ⟨fun h => (by cases h), fun _ _ => rfl⟩
  · have hnonnull : newNonnull start = .ok start := if_neg hstart
    rw [hnonnull]
    exact h hstart

lemma add {start len : ℕ} {areaType : VmAreaType} {prot : MMapProt} (hstart : start ≠ 0)
    (htype : areaType = .anonymous ∨ ∃ offset fileSize, areaType = .file file offset fileSize) :
    Adds file fun vm => vm.addVmAreaWithProt start len areaType prot false := by
  constructor
  · intro vm vm' hok
    rcases addVmAreaWithProt_ok hok with ⟨-, rfl⟩ | ⟨hlen, -, -⟩
    · exact ⟨[], .nil _⟩
    · exact ⟨_, .cons hstart hlen htype hok (.nil vm')⟩
  · intro vm pml4
    have hfree : (vm.withTable pml4).isFreeVaddrRange start len = vm.isFreeVaddrRange start len :=
      rfl
    rw [Vm.addVmAreaWithProt, Vm.addVmAreaWithProt, hfree]
    split_ifs
    all_goals rfl

lemma addSegment (baseOffset : ℕ) (phdr : ProgramHeader) :
    Adds file (addSegment baseOffset file phdr) := by
  refine nonnull fun hstart => add hstart ?_
  unfold ProgramHeader.areaType
  split_ifs
  · exact .inr ⟨_, _, rfl⟩
  · exact .inl rfl

lemma addGap (start stop : ℕ) : Adds file (addGap start stop) := by
  unfold Kevlar.addGap
  split_ifs
  · exact @nonnull file (fun start vm => if vm.isFreeVaddrRange start (stop - start) then
      vm.addVmArea start (stop - start) .anonymous else .ok vm) start
      fun hstart => ite (fun _ _ => rfl) (add hstart (.inl rfl)) ok
  · exact ok

lemma addSegments (baseOffset : ℕ) (phdrs : List ProgramHeader) :
    Adds file (addSegments baseOffset file phdrs) := by
  induction phdrs with
  | nil => exact ok
  | cons phdr phdrs ih => exact (addSegment baseOffset phdr).bind ih

lemma fillGaps (ranges : List (ℕ × ℕ)) (coveredEnd : ℕ) :
    Adds file (fillGaps ranges coveredEnd) := by
  induction ranges generalizing coveredEnd with
  | nil => exact ok
  | cons range ranges ih => exact (addGap _ _).bind (ih _)

lemma padSegment (baseOffset : ℕ) (phdr : ProgramHeader) :
    Adds file (padSegment baseOffset phdr) :=
  (addGap _ _).bind (addGap _ _)

lemma padSegments (baseOffset : ℕ) (phdrs : List ProgramHeader) :
    Adds file (padSegments baseOffset phdrs) := by
  induction phdrs with
  | nil => exact ok
  | cons phdr phdrs ih => exact (padSegment baseOffset phdr).bind ih

lemma loadElfSegments (baseOffset : ℕ) (phdrs : List ProgramHeader) :
    Adds file (loadElfSegments baseOffset file phdrs) := by
  refine (addSegments baseOffset _).bind ?_
  dsimp only
  split
  · exact ok
  · exact (fillGaps _ _).bind (padSegments baseOffset _)

end Adds

/-- A template that was just saved does what `load_elf_segments` did. -/
lemma applyVmaTemplate_vmaTemplate (h : loadElfSegments 0 file phdrs vm = .ok vm') :
    applyVmaTemplate file (vmaTemplate vm' vm.vmAreas.length) vm = .ok vm' := by
  obtain ⟨areas, happends⟩ := (Adds.loadElfSegments 0 phdrs).appends h
  rw [vmaTemplate, happends.vmAreas_eq, drop_left]
  exact happends.applyVmaTemplate

lemma freshVm_eq_ok {pml4 : ℕ} (h : freshVm pml4 phdrs = some (.ok vm)) (pml4' : ℕ) :
    freshVm pml4' phdrs = some (.ok (vm.withTable pml4')) := by
  unfold freshVm at h ⊢
  dsimp only at h ⊢
  split_ifs at h ⊢
  · cases some.inj h
  · obtain rfl : Vm.new pml4 userStackBottom _ = vm := ok.inj (some.inj h)
    rfl

/-- The template of an executable is the same for every new address space. -/
lemma describes_of_load {pml4 : ℕ} (hfresh : freshVm pml4 phdrs = some (.ok vm))
    (hload : loadElfSegments 0 file phdrs vm = .ok vm') :
    Describes (vmaTemplate vm' vm.vmAreas.length) file phdrs := by
  intro pml4' vm₁ hfresh'
  obtain rfl : vm.withTable pml4' = vm₁ :=
    ok.inj (some.inj ((freshVm_eq_ok hfresh pml4').symm.trans hfresh'))
  refine ⟨vm'.withTable pml4', ?_, rfl⟩
  rw [(Adds.loadElfSegments 0 phdrs).withTable, hload]
  rfl

/-- Every template of an existing static executable is the one of its headers. -/
def ExecWorld.Fresh (w : ExecWorld) : Prop :=
  ∀ file template phdrs, w.cache file = some template → w.files file = some (.static phdrs) →
    Describes template file phdrs

lemma ExecWorld.Fresh.installsHeaders (h : w.Fresh) : w.InstallsHeaders := by
  intro file phdrs pml4 vm hfile hfresh
  unfold installSegments
  cases hcache : w.cache file with
  | some template =>
    obtain ⟨vm', hload, rfl⟩ := h file template phdrs hcache hfile pml4 vm hfresh
    rw [hload]
    exact applyVmaTemplate_vmaTemplate hload
  | none =>
    cases loadElfSegments 0 file phdrs vm with
    | ok vm' | error e => rfl

lemma installSegments_cache (cache : TemplateCache) (file : FileId)
    (phdrs : List ProgramHeader) (vm : Vm) :
    (installSegments cache file phdrs vm).2 = cache ∨
      ∃ vm', loadElfSegments 0 file phdrs vm = .ok vm' ∧ (installSegments cache file phdrs vm).2 =
        Function.update cache file (some (vmaTemplate vm' vm.vmAreas.length)) := by
  unfold installSegments
  cases cache file with
  | some template => exact .inl rfl
  | none =>
    cases loadElfSegments 0 file phdrs vm with
    | ok vm' => exact .inr ⟨vm', rfl, rfl⟩
    | error e => exact .inl rfl

/-- An `exec` stores a template only where there was none, and then the one of the
headers that it has read. -/
lemma ExecWorld.cacheAfter_eq_some {w : ExecWorld} {file f : FileId} {pml4 : ℕ}
    {template : List VmaTemplateEntry} (h : w.cacheAfter file pml4 f = some template) :
    w.cache f = some template ∨
      ∀ phdrs, w.files f = some (.static phdrs) → Describes template f phdrs := by
  rcases hfile : w.files file with _ | (phdrs | _)
  · exact .inl (by simpa only [ExecWorld.cacheAfter, hfile] using h)
  · rcases hfresh : freshVm pml4 phdrs with _ | (e | vm)
    · exact .inl (by simpa only [ExecWorld.cacheAfter, hfile, hfresh] using h)
    · exact .inl (by simpa only [ExecWorld.cacheAfter, hfile, hfresh] using h)
    · simp only [ExecWorld.cacheAfter, hfile, hfresh] at h
      rcases installSegments_cache w.cache file phdrs vm with heq | ⟨vm', hload, heq⟩
      · exact .inl (by rwa [heq] at h)
      · rw [heq] at h
        by_cases hf : f = file
        · subst hf
          rw [Function.update_self] at h
          cases h
          refine .inr fun phdrs' hfile' => ?_
          obtain rfl := Content.static.inj (some.inj (hfile.symm.trans hfile'))
          exact describes_of_load hfresh hload
        · exact .inl (by rwa [Function.update_of_ne hf] at h)
  · exact .inl (by simpa only [ExecWorld.cacheAfter, hfile] using h)

/-- New contents at one address. -/
lemma ExecWorld.Fresh.update (h : w.Fresh) {content : Option Content}
    (hnew : ∀ phdrs, content = some (.static phdrs) → ∀ template, w.cache file = some template →
      Describes template file phdrs) :
    ExecWorld.Fresh { w with files := Function.update w.files file content } := by
  intro f template phdrs hcache hfile
  change Function.update w.files file content f = _ at hfile
  by_cases hf : f = file
  · subst hf
    rw [Function.update_self] at hfile
    exact hnew phdrs hfile template hcache
  · rw [Function.update_of_ne hf] at hfile
    exact h f template phdrs hcache hfile

lemma ExecWorld.Fresh.step {w w' : ExecWorld} {e : ExecEvent} (h : w.Fresh)
    (hok : KeepsTemplates w e) (hstep : w.step e = some w') : w'.Fresh := by
  cases e with
  | exec file pml4 =>
    rw [ExecWorld.step, some.injEq] at hstep
    subst hstep
    intro f template phdrs hcache hfile
    rcases @ExecWorld.cacheAfter_eq_some w file f pml4 template hcache with hold | hnew
    · exact h f template phdrs hold hfile
    · exact hnew phdrs hfile
  | drop file =>
    rw [ExecWorld.step, some.injEq] at hstep
    subst hstep
    exact h.update fun phdrs hcontent => (by cases hcontent)
  | rewrite file content | create file content =>
    rw [ExecWorld.step] at hstep
    split_ifs at hstep
    rw [some.injEq] at hstep
    subst hstep
    refine h.update fun phdrs hcontent => ?_
    rw [some.injEq] at hcontent
    subst hcontent
    exact hok

lemma ExecRun.fresh (h : ExecRun KeepsTemplates w) : w.Fresh := by
  induction h with
  | start files =>
    intro file template phdrs hcache
    cases hcache
  | step _ hok hstep ih => exact ih.step hok hstep

/-- As long as an address with a template is only given contents that make the same
template, an `exec` installs what `load_elf_segments` makes of its headers. -/
theorem installsHeaders_of_keepsTemplates {w : ExecWorld} (h : ExecRun KeepsTemplates w) :
    w.InstallsHeaders :=
  h.fresh.installsHeaders

/-! ## A stale template -/

/-- An executable with one page of code at the given address. -/
def onePage (vaddr : ℕ) : Content := .static [⟨ptLoad, 5, 0, vaddr, pageSize, pageSize⟩]

def onlyFile : ExecWorld where
  files file := if file = 1 then some (onePage 0x400000) else none
  cache _ := none

/-- The file is rewritten with an image elsewhere. -/
def rewriteHistory : List ExecEvent := [.exec 1 0, .rewrite 1 (onePage 0x500000)]

/-- The file object goes away and another file gets its address. -/
def reuseHistory : List ExecEvent := [.exec 1 0, .drop 1, .create 1 (onePage 0x500000)]

/-- The address of the file is given to another file object with the same headers. -/
theorem installsHeaders_same_headers : ∃ w, ExecRun KeepsTemplates w ∧
    (w.cache 1).isSome = true ∧ w.files 1 = some (onePage 0x400000) ∧ w.InstallsHeaders := by
  have hstart : ExecRun KeepsTemplates onlyFile := .start _
  have hexec := @ExecRun.step _ _ _ (.exec 1 0) hstart trivial rfl
  have hdrop := @ExecRun.step _ _ _ (.drop 1) hexec trivial rfl
  have hcreate := @ExecRun.step _ _ _ (.create 1 (onePage 0x400000)) hdrop
    (fun template htemplate => hexec.fresh 1 template _ htemplate rfl) rfl
  exact ⟨_, hcreate, by decide, rfl, installsHeaders_of_keepsTemplates hcreate⟩

lemma ExecRun.events {w w' : ExecWorld} (h : ExecRun (fun _ _ => True) w)
    {events : List ExecEvent} (hevents : events.foldlM ExecWorld.step w = some w') :
    ExecRun (fun _ _ => True) w' := by
  induction events generalizing w with
  | nil =>
    obtain rfl : w = w' := some.inj hevents
    exact h
  | cons e events ih =>
    obtain ⟨u, hu, hrest⟩ := bind_eq_some_iff.mp hevents
    exact ih (.step h trivial hu) hrest

/-- The start of the first area after the stack and the heap. -/
def imageStart (r : Except Errno Vm) : Option ℕ :=
  r.toOption.bind fun vm => vm.vmAreas[2]?.map VmArea.start

lemma not_installsHeaders_of_stale (hcache : w.cache = onlyFile.cacheAfter 1 0)
    (hfile : w.files 1 = some (onePage 0x500000)) : ¬w.InstallsHeaders := by
  intro h
  have heq := h 1 _ 0 (Vm.new 0 userStackBottom 0x501000) hfile rfl
  have himage := congrArg imageStart heq
  rw [hcache] at himage
  revert himage
  decide

/-- Both histories lead to a world in which an `exec` installs the image at the old
address. -/
theorem exec_installs_stale_areas :
    (∃ w, ExecRun (fun _ _ => True) w ∧ rewriteHistory.foldlM ExecWorld.step onlyFile = some w ∧
      w.files 1 = some (onePage 0x500000) ∧ ¬w.InstallsHeaders) ∧
    (∃ w, ExecRun (fun _ _ => True) w ∧ reuseHistory.foldlM ExecWorld.step onlyFile = some w ∧
      w.files 1 = some (onePage 0x500000) ∧ ¬w.InstallsHeaders) := by
  have hstart : ExecRun (fun _ _ => True) onlyFile := .start _
  constructor
  · exact ⟨_, @ExecRun.events _ _ hstart rewriteHistory rfl, rfl, rfl,
      not_installsHeaders_of_stale rfl rfl⟩
  · exact ⟨_, @ExecRun.events _ _ hstart reuseHistory rfl, rfl, rfl,
      not_installsHeaders_of_stale rfl rfl⟩

end Kevlar
