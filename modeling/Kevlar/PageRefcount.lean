import Kevlar.PageTable

/-!
# Reference counts of physical pages

The counts are an array of sixteen-bit counters for the first four gigabytes of
memory, with the largest value set aside for pages of the kernel image. The
allocator manages up to sixteen gigabytes, so the functions also meet frames that
have no counter.

A history is a list of calls that concern one frame. It is lawful if after every
call the count is the number of outstanding references and a drop reports exactly
the last one. The main result says which histories are.
-/
namespace Kevlar
open Function

/-- The slots of the reference-count array: four gigabytes of memory. -/
def maxPages : ℕ := 1024 * 1024

/-- `PAGE_REF_KERNEL_IMAGE`, the count of pages that are never freed. -/
def pageRefKernelImage : ℕ := 2 ^ 16 - 1

namespace PageRef

/-- `page_ref_inc`: a sixteen-bit counter, left alone at the sentinel. -/
def inc (refs : Frame → ℕ) (f : Frame) : Frame → ℕ :=
  if f < maxPages ∧ refs f ≠ pageRefKernelImage then
    update refs f ((refs f + 1) % 2 ^ 16)
  else refs

/-- `page_ref_dec`, with whether the count fell to zero. A frame beyond the array
always counts as the last reference. -/
def dec (refs : Frame → ℕ) (f : Frame) : Bool × (Frame → ℕ) :=
  if f < maxPages then
    if refs f = pageRefKernelImage then (false, refs)
    else (decide (refs f = 1), update refs f ((refs f + 2 ^ 16 - 1) % 2 ^ 16))
  else (true, refs)

def count (refs : Frame → ℕ) (f : Frame) : ℕ := if f < maxPages then refs f else 1

def init (refs : Frame → ℕ) (f : Frame) : Frame → ℕ :=
  if f < maxPages then update refs f 1 else refs

/-- `page_ref_inc_huge`: the 512 counters of a 2 MB page, without a look at the
sentinel. -/
def incHuge (refs : Frame → ℕ) (base : Frame) : Frame → ℕ := fun f =>
  if base ≤ f ∧ f < base + 512 ∧ f < maxPages then (refs f + 1) % 2 ^ 16 else refs f

/-! ## Histories of one frame -/

/-- The calls that concern a frame; `incHuge` is a call for a 2 MB page around it. -/
inductive Call
  | init
  | inc
  | incHuge (base : Frame)
  | dec
  deriving DecidableEq

namespace Call

/-- What the call returns, if it is a drop, and the counters after it. -/
def run (f : Frame) (refs : Frame → ℕ) : Call → Option Bool × (Frame → ℕ)
  | init => (none, PageRef.init refs f)
  | inc => (none, PageRef.inc refs f)
  | incHuge base => (none, PageRef.incHuge refs base)
  | dec => (some (PageRef.dec refs f).1, (PageRef.dec refs f).2)

/-- The outstanding references after the call. -/
def outstanding (n : ℕ) : Call → ℕ
  | init => 1
  | inc => n + 1
  | incHuge _ => n + 1
  | dec => n - 1

/-- Only a reference that is outstanding is dropped, and a 2 MB page that is
counted contains the frame. -/
def Legal (f : Frame) (n : ℕ) : Call → Prop
  | init => True
  | inc => True
  | incHuge base => base ≤ f ∧ f < base + 512
  | dec => 0 < n

/-- The call keeps the count exact and a drop reports exactly the last reference. -/
def Exact (f : Frame) (refs : Frame → ℕ) (n : ℕ) (c : Call) : Prop :=
  (∀ last, (c.run f refs).1 = some last → (last = true ↔ c.outstanding n = 0)) ∧
    count (c.run f refs).2 f = c.outstanding n

/-- The counter can follow the call: the frame has one and is not at the sentinel. -/
def Tracked (f : Frame) (n : ℕ) (c : Call) : Prop :=
  c = init ∨ (f < maxPages ∧ n < pageRefKernelImage)

end Call

/-- Every call of the history is legal where it is made. -/
def Legal (f : Frame) : ℕ → List Call → Prop
  | _, [] => True
  | n, c :: calls => c.Legal f n ∧ Legal f (c.outstanding n) calls

/-- Every call of the history is exact. -/
def Lawful (f : Frame) : (Frame → ℕ) → ℕ → List Call → Prop
  | _, _, [] => True
  | refs, n, c :: calls => c.Exact f refs n ∧ Lawful f (c.run f refs).2 (c.outstanding n) calls

/-- Every call of the history can be followed. -/
def Tracked (f : Frame) : ℕ → List Call → Prop
  | _, [] => True
  | n, c :: calls => c.Tracked f n ∧ Tracked f (c.outstanding n) calls

variable {f : Frame} {refs : Frame → ℕ} {n : ℕ}

lemma count_of_lt (hf : f < maxPages) : count refs f = refs f := if_pos hf

lemma count_of_ge (hf : ¬f < maxPages) : count refs f = 1 := if_neg hf

/-- A call on a frame with a counter below the sentinel. -/
lemma Call.exact_of_lt {c : Call} (hf : f < maxPages) (hn : n < pageRefKernelImage)
    (hcount : refs f = n) (hlegal : c.Legal f n) : c.Exact f refs n := by
  have hsentinel : refs f ≠ pageRefKernelImage := by
    rw [hcount]
    exact hn.ne
  have hword : n + 1 < 2 ^ 16 := by
    unfold pageRefKernelImage at hn
    omega
  cases c with
  | init => exact ⟨by simp [run], by simp [run, count_of_lt hf, PageRef.init, hf, outstanding]⟩
  | inc =>
    have hinc : PageRef.inc refs f f = n + 1 := by
      rw [PageRef.inc, if_pos ⟨hf, hsentinel⟩, update_self, hcount,
        Nat.mod_eq_of_lt hword]
    refine ⟨by simp [run], ?_⟩
    rw [count_of_lt hf]
    exact hinc
  | incHuge base =>
    refine ⟨by simp [run], ?_⟩
    rw [count_of_lt hf]
    simp only [run, PageRef.incHuge, hlegal.1, hlegal.2, hf, and_self, if_true, hcount,
      Nat.mod_eq_of_lt hword, outstanding]
  | dec =>
    have hpos : 0 < n := hlegal
    have hdec : PageRef.dec refs f = (decide (n = 1), update refs f (n - 1)) := by
      have hmod : (n + 2 ^ 16 - 1) % 2 ^ 16 = n - 1 := by omega
      rw [PageRef.dec, if_pos hf, if_neg hsentinel, hcount, hmod]
    refine ⟨fun last hlast => ?_, ?_⟩
    · simp only [run, hdec, Option.some.injEq] at hlast
      rw [← hlast, decide_eq_true_iff, outstanding]
      omega
    · simp [run, hdec, count_of_lt hf, outstanding]

/-- Setting a frame up is always exact. -/
lemma Call.exact_init : Call.init.Exact f refs n := by
  refine ⟨by simp [run], ?_⟩
  by_cases hf : f < maxPages
  · simp [run, count_of_lt hf, PageRef.init, hf, outstanding]
  · simp [run, count_of_ge hf, outstanding]

/-- At the sentinel and beyond the array no other call is exact. -/
lemma Call.not_exact {c : Call} (hlegal : c.Legal f n) (hcount : count refs f = n)
    (hc : c ≠ .init) (h : f < maxPages → n = pageRefKernelImage) : ¬c.Exact f refs n := by
  intro hexact
  have hafter := hexact.2
  by_cases hf : f < maxPages
  · have hn := h hf
    rw [count_of_lt hf] at hcount hafter
    have hsentinel : refs f = pageRefKernelImage := hcount.trans hn
    have hnum : pageRefKernelImage = 65535 := by norm_num [pageRefKernelImage]
    cases c with
    | init => exact hc rfl
    | inc =>
      simp only [run, PageRef.inc, hsentinel, ne_eq, not_true_eq_false, and_false, if_false,
        outstanding] at hafter
      omega
    | incHuge base =>
      simp only [run, PageRef.incHuge, hlegal.1, hlegal.2, hf, and_self, if_true, hsentinel, hnum,
        outstanding] at hafter
      omega
    | dec =>
      simp only [run, PageRef.dec, if_pos hf, if_pos hsentinel, outstanding] at hafter
      omega
  · rw [count_of_ge hf] at hcount hafter
    cases c with
    | init => exact hc rfl
    | inc | incHuge base | dec =>
      simp only [outstanding] at hafter
      omega

/-- From an exact count below the sentinel, a history is lawful exactly if every
call can be followed. -/
lemma lawful_iff_of_count (calls : List Call) (hlegal : Legal f n calls)
    (hcount : count refs f = n) (hn : f < maxPages → n ≤ pageRefKernelImage) :
    Lawful f refs n calls ↔ Tracked f n calls := by
  induction calls generalizing refs n with
  | nil => exact .rfl
  | cons c calls ih =>
    obtain ⟨hc, hrest⟩ := hlegal
    have hstep : c.Exact f refs n ↔ c.Tracked f n := by
      by_cases hinit : c = .init
      · subst hinit
        exact iff_of_true Call.exact_init (.inl rfl)
      · by_cases hok : f < maxPages ∧ n < pageRefKernelImage
        · rw [count_of_lt hok.1] at hcount
          exact iff_of_true (Call.exact_of_lt hok.1 hok.2 hcount hc) (.inr hok)
        · refine iff_of_false (Call.not_exact hc hcount hinit fun hf => ?_) ?_
          · exact le_antisymm (hn hf) (not_lt.mp fun hlt => hok ⟨hf, hlt⟩)
          · rintro (h | h)
            · exact hinit h
            · exact hok h
    have hnext : c.Exact f refs n → c.Tracked f n → f < maxPages →
        c.outstanding n ≤ pageRefKernelImage := by
      rintro - htracked hf
      rcases htracked with rfl | ⟨-, hlt⟩
      · exact Nat.le_of_lt_succ (by norm_num [Call.outstanding, pageRefKernelImage])
      · cases c <;> simp only [Call.outstanding] <;> omega
    constructor
    · rintro ⟨hexact, hlawful⟩
      have htracked := hstep.mp hexact
      exact ⟨htracked, (ih hrest hexact.2 (hnext hexact htracked)).mp hlawful⟩
    · rintro ⟨htracked, hall⟩
      have hexact := hstep.mpr htracked
      exact ⟨hexact, (ih hrest hexact.2 (hnext hexact htracked)).mpr hall⟩

/-- From the zeroed array a history is lawful exactly if, after the first call sets
the frame up, every call but a new set-up finds a counter below the sentinel. -/
theorem lawful_iff (f : Frame) (calls : List Call) (hlegal : Legal f 0 (.init :: calls)) :
    Lawful f (fun _ => 0) 0 (.init :: calls) ↔ Tracked f 1 calls := by
  obtain ⟨-, hrest⟩ := hlegal
  have hexact : Call.init.Exact f (fun _ => 0) 0 := Call.exact_init
  have hiff := lawful_iff_of_count calls hrest hexact.2 fun _ =>
    (by norm_num [Call.outstanding, pageRefKernelImage] : 1 ≤ pageRefKernelImage)
  exact ⟨fun h => hiff.mp h.2, fun h => ⟨hexact, hiff.mpr h⟩⟩

/-- A page shared by a fork and given up twice. -/
theorem lawful_shared_page : Lawful 7 (fun _ => 0) 0 [.init, .inc, .dec, .dec] :=
  (lawful_iff 7 [.inc, .dec, .dec] (by simp [Legal, Call.Legal, Call.outstanding])).mpr
    (by simp [Tracked, Call.Tracked, Call.outstanding, maxPages, pageRefKernelImage])

/-- A page at four gigabytes is reported as given up while it is still in use. -/
theorem not_lawful_above_four_gib :
    Legal maxPages 0 [.init, .inc, .dec] ∧
      (PageRef.dec (PageRef.inc (PageRef.init (fun _ => 0) maxPages) maxPages) maxPages).1 = true ∧
      ¬Lawful maxPages (fun _ => 0) 0 [.init, .inc, .dec] := by
  refine ⟨by simp [Legal, Call.Legal, Call.outstanding], by simp [PageRef.dec], ?_⟩
  simp [Lawful, Call.Exact, Call.run, Call.outstanding, count, PageRef.inc, PageRef.init,
    PageRef.dec]

end PageRef

end Kevlar
