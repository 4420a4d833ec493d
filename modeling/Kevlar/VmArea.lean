import Kevlar.MachineWord

/-!
# Virtual memory areas and the operations on the area list

`Vm` keeps the fields of the kernel's address-space record that the modelled
operations read or write. Areas live in a list in the order of the source's
vector: index 0 is the stack at creation and index 1 the heap, and removal,
splitting and pushing move elements exactly as the vector operations do. An
operation that can fail half-way returns its result beside the state it left.
A `none` result is a kernel panic.
-/
namespace Kevlar

inductive Errno
  | EFAULT
  | EINVAL
  | ENOMEM
  | ESRCH
  | E2BIG
  deriving Repr, DecidableEq

/-- `PROT_READ`, `PROT_WRITE` and `PROT_EXEC`; no flag set is `PROT_NONE`. -/
structure MMapProt where
  read : Bool
  write : Bool
  exec : Bool
  deriving Repr, DecidableEq

namespace MMapProt

def none : MMapProt := ⟨false, false, false⟩
def rw : MMapProt := ⟨true, true, false⟩
def rwx : MMapProt := ⟨true, true, true⟩

end MMapProt

/-- A file is named by the address of its shared file object. -/
abbrev FileId := ℕ

inductive VmAreaType
  | anonymous
  | file (file : FileId) (offset fileSize : ℕ)
  | deviceMemory (physBase : ℕ)
  deriving Repr, DecidableEq

namespace VmAreaType

/-- Adjusted copy for a sub-range that starts `shift` bytes into the area.
The file size saturates at zero, the positions wrap. -/
def cloneWithShift (shift : ℕ) : VmAreaType → VmAreaType
  | anonymous => anonymous
  | file f offset fileSize => file f (wadd offset shift) (fileSize - shift)
  | deviceMemory physBase => deviceMemory (wadd physBase shift)

def isAnonymous : VmAreaType → Bool
  | anonymous => true
  | _ => false

end VmAreaType

structure VmArea where
  start : ℕ
  len : ℕ
  areaType : VmAreaType
  prot : MMapProt
  isShared : Bool
  allocId : ℕ
  deriving Repr, DecidableEq

namespace VmArea

/-- The source's `end()`. -/
def endAddr (v : VmArea) : ℕ := wadd v.start v.len

def contains (v : VmArea) (vaddr : ℕ) : Bool :=
  decide (v.start ≤ vaddr) && decide (vaddr < v.endAddr)

/-- Two half-open intervals meet when each starts below the end of the other. -/
def overlaps (v : VmArea) (other len : ℕ) : Bool :=
  decide (v.start < wadd other len) && decide (other < v.endAddr)

end VmArea

structure Vm where
  pml4 : ℕ
  vmAreas : List VmArea
  vallocNext : ℕ
  lastFaultVmaIdx : Option ℕ
  heapBottom : ℕ
  heapEnd : ℕ
  isForked : Bool
  isGhostForked : Bool
  deriving Repr, DecidableEq

def userVallocBase : ℕ := 0x0000000a00000000
def userVallocEnd : ℕ := 0x00000fff00000000
def userStackTop : ℕ := userVallocBase
def kernelBaseAddr : ℕ := 0xffff800000000000

/-- `UserVAddr::new_nonnull`: only the null address is refused. -/
def newNonnull (addr : ℕ) : Except Errno ℕ :=
  if addr = 0 then .error .EFAULT else .ok addr

/-- `UserVAddr::access_ok` of the profiles that keep the software check. -/
def accessOk (addr len : ℕ) : Bool := decide (addr + len ≤ kernelBaseAddr)

namespace Vm

/-- A fresh address space over the table `pml4`: the stack area up to the fixed
stack top and an empty heap area. -/
def new (pml4 stackBottom heapBottom : ℕ) : Vm where
  pml4 := pml4
  vmAreas :=
    [⟨stackBottom, wsub userStackTop stackBottom, .anonymous, .rw, false, 0⟩,
     ⟨heapBottom, 0, .anonymous, .rw, false, 0⟩]
  vallocNext := userVallocBase
  lastFaultVmaIdx := none
  heapBottom := heapBottom
  heapEnd := heapBottom
  isForked := false
  isGhostForked := false

def isFreeVaddrRange (vm : Vm) (start len : ℕ) : Bool :=
  vm.vmAreas.all fun area => !area.overlaps start len

/-- An empty request succeeds without an area; an overlapping one is refused. -/
def addVmAreaWithProt (vm : Vm) (start len : ℕ) (areaType : VmAreaType)
    (prot : MMapProt) (shared : Bool) : Except Errno Vm :=
  if len = 0 then .ok vm
  else if !accessOk start len then .error .EFAULT
  else if !vm.isFreeVaddrRange start len then .error .EINVAL
  else .ok { vm with vmAreas := vm.vmAreas ++ [⟨start, len, areaType, prot, shared, 0⟩] }

def addVmArea (vm : Vm) (start len : ℕ) (areaType : VmAreaType) : Except Errno Vm :=
  vm.addVmAreaWithProt start len areaType .rwx false

/-- What one iteration of a range loop does with an area: leave it in place,
possibly with a new protection, or take it out and queue pieces of it. -/
inductive Cut
  | keep (area : VmArea)
  | split (pieces : List VmArea)
  deriving Repr, DecidableEq

/-- The loop shared by `remove_vma_range` and `update_prot_range`. `i` indexes
the shrinking vector, `pieces` is the vector appended at the end, and `fuel`
counts the elements not yet visited: an iteration either advances `i` or takes
the element at `i` out. On an error the area just taken out and all queued
pieces are lost. -/
def cutLoop (cut : VmArea → Except Errno Cut) :
    ℕ → List VmArea → ℕ → List VmArea → Except Errno Unit × List VmArea
  | 0, areas, _, pieces => (.ok (), areas ++ pieces)
  | fuel + 1, areas, i, pieces =>
    match areas[i]? with
    | none => (.ok (), areas ++ pieces)
    | some vma =>
      match cut vma with
      | .error e => (.error e, areas.eraseIdx i)
      | .ok (.keep vma') => cutLoop cut fuel (areas.set i vma') (i + 1) pieces
      | .ok (.split ps) => cutLoop cut fuel (areas.eraseIdx i) i (pieces ++ ps)

/-- The piece of an area below `start`, with its original offset. -/
def leftPiece (start : ℕ) (vma : VmArea) : List VmArea :=
  if vma.start < start then [{ vma with len := wsub start vma.start }] else []

/-- The piece of an area from `stop` on, with its backing shifted along. -/
def rightPiece (stop : ℕ) (vma : VmArea) : Except Errno (List VmArea) :=
  if stop < vma.endAddr then
    match newNonnull stop with
    | .error e => .error e
    | .ok stop' => .ok [{ vma with
        start := stop'
        len := wsub vma.endAddr stop
        areaType := vma.areaType.cloneWithShift (wsub stop vma.start) }]
  else .ok []

/-- One iteration of `remove_vma_range` on `[start, stop)`. -/
def removeCut (start stop : ℕ) (vma : VmArea) : Except Errno Cut :=
  if vma.endAddr ≤ start ∨ stop ≤ vma.start then .ok (.keep vma)
  else (rightPiece stop vma).map fun right => .split (leftPiece start vma ++ right)

def removeVmaRange (vm : Vm) (start len : ℕ) : Except Errno Unit × Vm :=
  let r := cutLoop (removeCut start (wadd start len)) vm.vmAreas.length vm.vmAreas 0 []
  (r.1, { vm with vmAreas := r.2 })

/-- Set the protection of the first area with exactly this start and length. -/
def setProtExact (start len : ℕ) (prot : MMapProt) : List VmArea → Option (List VmArea)
  | [] => none
  | v :: vs =>
    if v.start = start ∧ v.len = len then some ({ v with prot := prot } :: vs)
    else (setProtExact start len prot vs).map (v :: ·)

/-- The piece of an area inside `[start, stop)`, with the new protection. -/
def midPiece (start stop : ℕ) (prot : MMapProt) (vma : VmArea) : Except Errno (List VmArea) :=
  match newNonnull (max vma.start start) with
  | .error e => .error e
  | .ok midStart => .ok [{ vma with
      start := midStart
      len := wsub (min vma.endAddr stop) midStart
      areaType := vma.areaType.cloneWithShift (wsub midStart vma.start)
      prot := prot }]

/-- One iteration of the slow path of `update_prot_range`: an area inside the
range is updated in place, a partly covered one is cut into up to three pieces. -/
def updateProtCut (start stop : ℕ) (prot : MMapProt) (vma : VmArea) : Except Errno Cut :=
  if vma.endAddr ≤ start ∨ stop ≤ vma.start then .ok (.keep vma)
  else if start ≤ vma.start ∧ vma.endAddr ≤ stop then .ok (.keep { vma with prot := prot })
  else do
    let mid ← midPiece start stop prot vma
    let right ← rightPiece stop vma
    return .split (leftPiece start vma ++ mid ++ right)

/-- The exact-match fast path comes first. -/
def updateProtRange (vm : Vm) (start len : ℕ) (prot : MMapProt) : Except Errno Unit × Vm :=
  match setProtExact start len prot vm.vmAreas with
  | some areas => (.ok (), { vm with vmAreas := areas })
  | none =>
    let r := cutLoop (updateProtCut start (wadd start len) prot)
      vm.vmAreas.length vm.vmAreas 0 []
    (r.1, { vm with vmAreas := r.2 })

/-- Lengthen the first area that satisfies `p`, as `iter_mut().any(..)` does. -/
def growFirst (p : VmArea → Bool) (additional : ℕ) : List VmArea → Option (List VmArea)
  | [] => none
  | v :: vs =>
    if p v then some ({ v with len := wadd v.len additional } :: vs)
    else (growFirst p additional vs).map (v :: ·)

/-- The area is named by its start address; the first match is lengthened. -/
def extendVma (vm : Vm) (vmaStart additional : ℕ) : Except Errno Vm :=
  match growFirst (fun v => decide (v.start = vmaStart)) additional vm.vmAreas with
  | some areas => .ok { vm with vmAreas := areas }
  | none => .error .ESRCH

/-- The page addresses `start_aligned, start_aligned + 4096, ..` below `freeEnd`
whose entries a shrinking heap clears. -/
def heapPages (startAligned freeEnd : ℕ) : List ℕ :=
  (List.range ((freeEnd - startAligned + (pageSize - 1)) / pageSize)).map
    fun k => startAligned + k * pageSize

/-- `expand_heap_to`. The result lists the pages that a shrink takes out of the
page table; the limit is the stack for a heap below it and the end of the
allocation region otherwise. A range that is not free advances the heap end and
leaves the areas alone unless only the heap's own area is in the way. -/
def expandHeapTo (vm : Vm) (newHeapEnd : ℕ) : Option (Except Errno (List ℕ) × Vm) :=
  if newHeapEnd < vm.heapBottom then some (.error .EINVAL, vm)
  else if newHeapEnd < vm.heapEnd then
    let freeEnd := vm.heapEnd
    let pages := heapPages (alignUp newHeapEnd pageSize) freeEnd
    let r := removeVmaRange { vm with heapEnd := newHeapEnd } newHeapEnd (freeEnd - newHeapEnd)
    some (r.1.map fun _ => pages, r.2)
  else
    match newNonnull (alignUp newHeapEnd pageSize) with
    | .error e => some (.error e, vm)
    | .ok alignedNew =>
      let alignedOld := alignUp vm.heapEnd pageSize
      let done : Vm := { vm with heapEnd := newHeapEnd }
      if alignedNew ≤ alignedOld then some (.ok [], done)
      else
        let grow := alignedNew - alignedOld
        match vm.vmAreas with
        | [] => none
        | stack :: _ =>
          let limit := if stack.start ≤ vm.heapBottom then userVallocEnd else stack.start
          if limit ≤ alignedNew then some (.error .ENOMEM, vm)
          else match newNonnull alignedOld with
          | .error e => some (.error e, vm)
          | .ok start =>
            if vm.isFreeVaddrRange start grow then
              let isHeap := fun area : VmArea => decide (area.endAddr = alignedOld) &&
                area.areaType.isAnonymous && decide (area.prot = .rw)
              match growFirst isHeap grow vm.vmAreas with
              | some areas => some (.ok [], { done with vmAreas := areas })
              | none =>
                match vm.addVmArea start grow .anonymous with
                | .error e => some (.error e, vm)
                | .ok vm' => some (.ok [], { vm' with heapEnd := newHeapEnd })
            else
              let isHeap := fun area : VmArea =>
                decide (area.endAddr = alignedOld) && area.areaType.isAnonymous
              let canExtend := vm.vmAreas.all fun area =>
                isHeap area || !area.overlaps start grow
              if canExtend then
                match growFirst isHeap grow vm.vmAreas with
                | some areas => some (.ok [], { done with vmAreas := areas })
                | none => some (.ok [], done)
              else some (.ok [], done)

def maxStackSize : ℕ := 8 * 1024 * 1024

/-- `try_grow_stack`: the area at index 0 is taken for the stack and grown down
to the page of the fault. No other area is looked at. -/
def tryGrowStack (vm : Vm) (faultAddr : ℕ) : Option (Bool × Vm) :=
  match vm.vmAreas with
  | [] => none
  | stack :: rest =>
    if stack.start ≤ faultAddr then some (false, vm)
    else if !stack.areaType.isAnonymous then some (false, vm)
    else if maxStackSize < wsub stack.endAddr faultAddr then some (false, vm)
    else
      let newStart := alignDown faultAddr pageSize
      if newStart = 0 then none
      else
        let growth := stack.start - newStart
        some (true, { vm with
          vmAreas := { stack with start := newStart, len := wadd stack.len growth } :: rest })

/-- The growing branch of `sys_mremap` up to its in-place extension: the area
is looked up by start and extent, the room behind its end is tested with
`is_free_vaddr_range`, and `extend_vma` is then called with the start address
alone. Where the source goes on to move the mapping, the result is `ENOMEM`. -/
def mremapGrow (vm : Vm) (oldAddr oldSize newSize : ℕ) : Except Errno Vm :=
  match vm.vmAreas.find? fun v =>
      decide (v.start = oldAddr) && decide (wadd oldAddr oldSize ≤ v.endAddr) with
  | none => .error .EFAULT
  | some vma =>
    if !vma.areaType.isAnonymous then .error .EINVAL
    else
      let vmaLen := wsub vma.endAddr vma.start
      match newNonnull (wadd oldAddr vmaLen) with
      | .error e => .error e
      | .ok vmaEndAddr =>
        if newSize ≤ vmaLen then .ok vm
        else if vm.isFreeVaddrRange vmaEndAddr (newSize - vmaLen) then
          vm.extendVma oldAddr (newSize - vmaLen)
        else .error .ENOMEM

end Vm
end Kevlar
