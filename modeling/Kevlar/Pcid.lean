import Kevlar.MachineWord

/-!
# PCID allocation and page table switches

The global PCID word packs a generation (bits 63 to 12) and the next PCID (bits
11 to 0). Its compare-and-exchange loops take effect at the exchange that
succeeds, so allocating and bumping are atomic. A switch is cut at its loads of
shared state. Each CPU has the translations cached in its TLB as pairs of a PCID
tag and the page table they were filled from. Page tables are numbered in the
order of their creation.
-/
namespace Kevlar.Pcid

def maxCpus : ℕ := 8

/-- `v & !0xFFF`. -/
def genOf (v : ℕ) : ℕ := v - v % 4096

/-- `v & 0xFFF`. -/
def pcidOf (v : ℕ) : ℕ := v % 4096

/-- `bump_global_pcid_generation`; the sum has its low twelve bits clear, so the
source's `|` is addition. -/
def bumpGlobalPcidGeneration (supported : Bool) (state : ℕ) : ℕ :=
  if supported then wadd (genOf state) 0x1000 + pcidOf state else state

/-- `alloc_pcid`: the returned pair and the new global word. When the counter is
exhausted both are the next generation with PCID 1. -/
def allocPcid (supported : Bool) (state : ℕ) : ℕ × ℕ :=
  if !supported then (0, state)
  else if 4095 ≤ pcidOf state then (wadd (genOf state) 0x1000 + 1, wadd (genOf state) 0x1000 + 1)
  else (genOf state + pcidOf state, genOf state + (pcidOf state + 1))

/-- How far a switch has come: the PCID of the table is read, the global
generation is read, the TLB is flushed. -/
inductive Phase
  | idle
  | loaded (table pcid : ℕ)
  | checked (table pcid globalGen : ℕ)
  | flushed (table pcid globalGen : ℕ)
  deriving Repr, DecidableEq

/-- The table and PCID that the switch is about to load. -/
def Phase.target : Phase → Option (ℕ × ℕ)
  | idle => none
  | loaded t p | checked t p _ | flushed t p _ => some (t, p)

structure Cpu where
  lastSeenGen : ℕ
  active : Option (ℕ × ℕ)
  phase : Phase
  tlb : List (ℕ × ℕ)
  deriving Repr, DecidableEq

/-- `pcidGen` holds the packed word of every live page table. -/
structure System where
  pcidSupported : Bool
  pcidState : ℕ
  created : ℕ
  pcidGen : ℕ → Option ℕ
  cpus : ℕ → Cpu

inductive Op
  | create
  | renew (table : ℕ)
  | reload (cpu table : ℕ)
  | drop (table : ℕ)
  | bump
  | switchBegin (cpu table : ℕ)
  | switchLoadGen (cpu : ℕ)
  | switchCommit (cpu : ℕ)
  | switchFinish (cpu : ℕ)
  | loadKernelPml4 (cpu : ℕ)
  | fill (cpu : ℕ)
  | evict (cpu : ℕ) (stays : ℕ × ℕ → Bool)

namespace System

/-- The boot state: PCID counter 1 in generation 0, nothing cached. -/
def boot (supported : Bool) : System where
  pcidSupported := supported
  pcidState := 1
  created := 0
  pcidGen := fun _ => none
  cpus := fun _ => ⟨0, none, .idle, []⟩

def setCpu (s : System) (c : ℕ) (cpu : Cpu) : System :=
  { s with cpus := Function.update s.cpus c cpu }

def setPcidGen (s : System) (t v : ℕ) : System :=
  { s with pcidGen := Function.update s.pcidGen t (some v) }

/-- The generation a switch compares with; a CPU beyond the array reads zero. -/
def cpuGen (s : System) (c : ℕ) : ℕ := if c < maxCpus then (s.cpus c).lastSeenGen else 0

/-- One atomic action. `none` means that the action is not possible in the state.

`renew` and `reload` are the parts of `duplicate_from` that give the parent a
fresh PCID and load it with a flushing CR3 write, `create` is every construction
of a page table. A flushing CR3 write drops the entries of the loaded PCID; with
PCID 0 it is the plain write that empties the TLB. `fill` caches a translation of
the active table, `evict` drops any entries. -/
def step (s : System) : Op → Option System
  | .create =>
    let (v, state) := allocPcid s.pcidSupported s.pcidState
    some { s.setPcidGen s.created v with pcidState := state, created := s.created + 1 }
  | .renew t =>
    match s.pcidGen t with
    | none => none
    | some old =>
      if pcidOf old = 0 then some s
      else
        let (v, state) := allocPcid s.pcidSupported s.pcidState
        some { s.setPcidGen t v with pcidState := state }
  | .reload c t =>
    match s.pcidGen t with
    | none => none
    | some v =>
      let p := pcidOf v
      let cpu := s.cpus c
      some (s.setCpu c { cpu with
        active := some (t, p)
        tlb := if p = 0 then [] else cpu.tlb.filter fun entry => entry.1 != p })
  | .drop t => some { s with pcidGen := Function.update s.pcidGen t none }
  | .bump =>
    some { s with pcidState := bumpGlobalPcidGeneration s.pcidSupported s.pcidState }
  | .switchBegin c t =>
    match s.pcidGen t with
    | none => none
    | some v =>
      let p := pcidOf v
      let cpu := s.cpus c
      if cpu.phase ≠ .idle then none
      else if p = 0 then some (s.setCpu c { cpu with active := some (t, 0), tlb := [] })
      else some (s.setCpu c { cpu with phase := .loaded t p })
  | .switchLoadGen c =>
    let cpu := s.cpus c
    match cpu.phase with
    | .loaded t p => some (s.setCpu c { cpu with phase := .checked t p (genOf s.pcidState) })
    | _ => none
  | .switchCommit c =>
    let cpu := s.cpus c
    match cpu.phase with
    | .checked t p g =>
      if s.cpuGen c = g then some (s.setCpu c { cpu with active := some (t, p), phase := .idle })
      else some (s.setCpu c { cpu with
        lastSeenGen := if c < maxCpus then g else cpu.lastSeenGen
        phase := .flushed t p g
        tlb := [] })
    | _ => none
  | .switchFinish c =>
    let cpu := s.cpus c
    match cpu.phase with
    | .flushed t p g =>
      let s := s.setCpu c { cpu with active := some (t, p), phase := .idle }
      match s.pcidGen t with
      | none => some s
      | some _ => some (s.setPcidGen t (g + p))
    | _ => none
  | .loadKernelPml4 c => some (s.setCpu c { s.cpus c with active := none })
  | .fill c =>
    match (s.cpus c).active with
    | none => none
    | some (t, p) => some (s.setCpu c { s.cpus c with tlb := (p, t) :: (s.cpus c).tlb })
  | .evict c stays =>
    some (s.setCpu c { s.cpus c with tlb := (s.cpus c).tlb.filter stays })

def Live (s : System) (t : ℕ) : Prop := ∃ v, s.pcidGen t = some v

/-- Whenever a switch on a CPU is about to take the path without a flush for a
live table, no entry under its PCID there comes from another live table. -/
def TagIsolated (s : System) : Prop :=
  ∀ c t p g, (s.cpus c).phase = .checked t p g → s.cpuGen c = g → s.Live t →
    ∀ t', t' ≠ t → s.Live t' → (p, t') ∉ (s.cpus c).tlb

end System
end Kevlar.Pcid
