import JurasOS.Alloc.Ownership
import JurasOS.Paging.Layout
import JurasOS.Paging.Requests

/-!
# Runs of the page frame allocator

`PfaRun` is a run of requests and of frees of what they returned, with the blocks
that are live. From a state with the page tables in place, the frames marked are
at every step the ones marked at the start and those of the live blocks, each of
them once. `PfaStep` is a step that frees no frame of a set, whoever holds it:
what is marked of that set stays marked, so no request returns it.
-/

namespace JurasOS

open Machine Alloc Relation

/-- A block of pages that a request returned. -/
structure PageBlock where
  address : UInt32
  count : UInt32
  deriving DecidableEq

/-- The frames of the block. -/
def PageBlock.frames (b : PageBlock) : Set ℕ := blockFrames b.address b.count

/-- A run from `s₀`, with the blocks that requests returned and that were not freed since. Each
request that returns a block meets `Guard`, in the state before it. -/
inductive PfaRun (Guard : Kernel → PfaRequest → UInt32 → Prop) (s₀ : Kernel) : Kernel → List PageBlock → Prop
  | start : PfaRun Guard s₀ s₀ []
  /-- A request returns a block. -/
  | request {s s' : Kernel} {live : List PageBlock} (q : PfaRequest) {page : UInt32} :
      PfaRun Guard s₀ s live → 0 < q.count.toNat → q.run s = .ok (some page) s' → Guard s q page →
        PfaRun Guard s₀ s' (⟨page, q.count⟩ :: live)
  /-- A request returns `NULL`. -/
  | null {s s' : Kernel} {live : List PageBlock} (q : PfaRequest) :
      PfaRun Guard s₀ s live → 0 < q.count.toNat → q.run s = .ok none s' → PfaRun Guard s₀ s' live
  /-- A live page is freed. -/
  | freePage {s : Kernel} {live : List PageBlock} (b : PageBlock) :
      PfaRun Guard s₀ s live → b ∈ live → b.count = 1 →
      PfaRun Guard s₀ (pfaFreePage b.address s) (live.erase b)
  /-- A live block is freed. -/
  | freePages {s : Kernel} {live : List PageBlock} (b : PageBlock) :
      PfaRun Guard s₀ s live → b ∈ live → PfaRun Guard s₀ (pfaFreePages b.address b.count s) (live.erase b)

/-- The block that a request for more than one page returns ends in the bitmap. -/
def EndsInside (s : Kernel) (q : PfaRequest) (page : UInt32) : Prop :=
  1 < q.count.toNat → page.toNat / 4096 + q.count.toNat ≤ s.pfa.pageBitmap.length

/-- A request for several pages is made while there is room for it, or while the last frame is taken. -/
def FitsOrFull (s : Kernel) (q : PfaRequest) (_ : UInt32) : Prop :=
  1 < q.count.toNat → (∃ j, Room s.taken s.pfa.pageBitmap.length q.count.toNat j) ∨
    s.taken (s.pfa.pageBitmap.length - 1) = true

theorem fitsOrFull_page (s : Kernel) (page : UInt32) : FitsOrFull s .page page :=
  fun h => absurd h (by decide)

theorem PfaRequest.inside_of_fitsOrFull {s s' : Kernel} (hsmall : s.pfa.pageBitmap.length ≤ 2 ^ 20)
    {q : PfaRequest} {page : UInt32} (hrun : q.run s = .ok (some page) s') (hfits : FitsOrFull s q page) :
    page.toNat / 4096 + q.count.toNat ≤ s.pfa.pageBitmap.length := by
  by_cases hone : 1 < q.count.toNat
  · exact PfaRequest.inside_of_run_some hsmall (hfits hone) hrun
  · have := (PfaRequest.clear_of_run_some hsmall hrun).1
    omega

theorem mem_blockFrames {address pageCount : UInt32} (h : 0 < pageCount.toNat) :
    address.toNat / 4096 ∈ blockFrames address pageCount :=
  ⟨le_rfl, by omega⟩

/-- Freeing a live block of the bitmap clears its frames. -/
theorem PageBlock.free_marks (b : PageBlock) (h : b.address.toNat / 4096 + b.count.toNat ≤ 2 ^ 20)
    (s : Kernel) :
    Marks false b.frames s (pfaFreePages b.address b.count s) := by
  rw [PageBlock.frames, blockFrames, ← frames_eq h]
  exact pfaFreePages_marks b.address b.count s

theorem PageBlock.freePage_marks (b : PageBlock) (h : b.count = 1) (s : Kernel) :
    Marks false b.frames s (pfaFreePage b.address s) := by
  rw [PageBlock.frames, h, blockFrames_one]
  exact pfaFreePage_marks b.address s

/-! ### Ownership -/

/-- The invariant of a run from `s₀`, with the page tables in place. -/
structure PfaInv (s₀ : Kernel) (tables : UInt32) (s : Kernel) (live : List PageBlock) : Prop where
  ready : PfaReady s tables
  bitmap : s.pfa.pageBitmap = s₀.pfa.pageBitmap
  owns : Owns PageBlock.frames s₀.marked s.marked live
  inside : ∀ b ∈ live, b.address.toNat / 4096 + b.count.toNat ≤ s.pfa.pageBitmap.length
  nonempty : ∀ b ∈ live, 0 < b.count.toNat

section PfaInv

variable {s₀ s s' : Kernel} {tables : UInt32} {live : List PageBlock}

theorem PfaInv.start (h : PfaReady s₀ tables) : PfaInv s₀ tables s₀ [] :=
  ⟨h, rfl, Owns.nil, fun _ hb => absurd hb List.not_mem_nil, fun _ hb => absurd hb List.not_mem_nil⟩

/-- A request keeps the invariant. -/
theorem PfaInv.request (h : PfaInv s₀ tables s live) {q : PfaRequest} {page : UInt32}
    (hcount : 0 < q.count.toNat) (hrun : q.run s = .ok (some page) s') (hends : EndsInside s q page) :
    PfaInv s₀ tables s' (⟨page, q.count⟩ :: live) := by
  have hsmall := h.ready.length_le
  obtain ⟨hlt, hclear⟩ := PfaRequest.clear_of_run_some hsmall hrun
  have hinside : page.toNat / 4096 + q.count.toNat ≤ s.pfa.pageBitmap.length := by
    by_cases hone : 1 < q.count.toNat
    · exact hends hone
    · omega
  obtain ⟨index, -, -, hgrant⟩ := PfaRequest.of_run_some hrun
  obtain ⟨t, ht, hready, hbitmap, hmarked⟩ := h.ready.grant q hinside
  rw [hgrant] at ht
  cases ht
  have hunmarked : Disjoint (PageBlock.frames ⟨page, q.count⟩) s.marked := by
    refine Set.disjoint_left.mpr fun f hf hmem => ?_
    rw [Kernel.marked, Bitmap.marked, Set.mem_ofPred_eq] at hmem
    have := hclear f hf hmem.1
    rw [Kernel.taken, hmem.2] at this
    cases this
  refine ⟨hready, hbitmap.trans h.bitmap, hmarked ▸ h.owns.alloc hunmarked, fun b hb => ?_, fun b hb => ?_⟩
  · rw [hbitmap]
    rcases List.mem_cons.mp hb with rfl | hb
    · exact hinside
    · exact h.inside b hb
  · rcases List.mem_cons.mp hb with rfl | hb
    · exact hcount
    · exact h.nonempty b hb

/-- Freeing a live block keeps the invariant. -/
theorem PfaInv.free (h : PfaInv s₀ tables s live) {b : PageBlock} (hb : b ∈ live)
    (hmarks : Marks false b.frames s s') :
    PfaInv s₀ tables s' (live.erase b) := by
  have hinside := h.inside b hb
  have hF : b.frames ⊆ Set.Iio s.pfa.pageBitmap.length := fun f hf => lt_of_lt_of_le hf.2 hinside
  refine ⟨h.ready.marks hmarks hF, hmarks.bitmap.trans h.bitmap, ?_, fun c hc => ?_, fun c hc => ?_⟩
  · rw [hmarks.marked_sdiff]
    exact h.owns.free hb
  · rw [hmarks.bitmap]
    exact h.inside c (List.mem_of_mem_erase hc)
  · exact h.nonempty c (List.mem_of_mem_erase hc)

/-- The invariant holds through a run. -/
theorem PfaInv.of_run (hready : PfaReady s₀ tables) (hrun : PfaRun EndsInside s₀ s live) :
    PfaInv s₀ tables s live := by
  induction hrun with
  | start => exact PfaInv.start hready
  | request q _ hcount hcall hends ih => exact ih.request hcount hcall hends
  | null q _ hcount hcall ih => rwa [PfaRequest.eq_of_null hcall]
  | freePage b _ hb hone ih => exact ih.free hb (b.freePage_marks hone _)
  | freePages b _ hb ih =>
    have := ih.inside b hb
    have := ih.ready.length_le
    exact ih.free hb (b.free_marks (by omega) _)

/-- **The live blocks own the frames marked since the start**, each of them once, and none is at `NULL`. -/
theorem pfaRun_owns (hready : PfaReady s₀ tables) (hzero : 0 ∈ s₀.marked)
    (hrun : PfaRun EndsInside s₀ s live) :
    live.Pairwise (fun b c => Disjoint b.frames c.frames) ∧ (∀ b ∈ live, Disjoint b.frames s₀.marked) ∧
      s.marked = s₀.marked ∪ (⋃ b ∈ live, b.frames) ∧ ∀ b ∈ live, b.address ≠ 0 := by
  have h := PfaInv.of_run hready hrun
  refine ⟨h.owns.disjoint, h.owns.apart, h.owns.marked_eq, fun b hb h0 => ?_⟩
  have hmem : b.address.toNat / 4096 ∈ b.frames := mem_blockFrames (h.nonempty b hb)
  rw [h0] at hmem
  exact Set.disjoint_left.mp (h.owns.apart b hb) hmem hzero

/-- The page tables are above what lay below the kernel's end. -/
theorem Initialized.tableSpace_above {s s₁ : Kernel} (h : Initialized s s₁) (hfit : kernelTop s < 2 ^ 32)
    {buffer : UInt32} {n : ℕ} (hbelow : buffer.toNat + n ≤ s.kernelEnd.toNat) :
    Disjoint (tableSpace s₁.pd (s₁.pd + 12288)) (span buffer n) := by
  obtain ⟨-, hle, hspace, -⟩ := h.toNat_pd hfit
  have hlt := s₁.kernelEnd.toNat_lt
  have hend := s.kernelEnd.toNat_lt
  have htables : (s₁.pd + 12288).toNat = s₁.pd.toNat + 12288 := toNat_tables (by omega)
  rw [tableSpace, Set.disjoint_union_left]
  exact ⟨disjoint_span (by omega) (by omega) (Or.inr (by omega)),
    disjoint_span (by omega) (by omega) (Or.inr (by omega))⟩

/-- `ptm_initialize` leaves the page tables in place, clear of a bitmap below the kernel's end. -/
theorem Initialized.ready {s s₁ : Kernel} (h : Initialized s s₁) (hfit : kernelTop s < 2 ^ 32)
    (hbelow : s.pfa.pageBitmap.buffer.toNat + s.pfa.pageBitmap.size.toNat ≤ s.kernelEnd.toNat)
    (hsmall : s.pfa.pageBitmap.size.toNat * 8 ≤ 2 ^ 20) : PfaReady s₁ (s₁.pd + 12288) := by
  refine ⟨h.holds.inPlace, ?_, by rwa [h.bitmap]⟩
  rw [h.bitmap]
  exact h.tableSpace_above hfit hbelow

/-- A kernel of 2 MiB initialises its page tables, and has room for another page. -/
theorem smallKernel_ready : ∃ s₁, ptmInitialize smallKernel = .ok ⟨⟩ s₁ ∧ PfaReady s₁ (s₁.pd + 12288) ∧
    0 ∈ s₁.marked ∧
    Room s₁.taken s₁.pfa.pageBitmap.length 1 32767 := by
  obtain ⟨s₁, hrun, h⟩ :=
    ptmInitialize_ok (s := smallKernel) (by decide) (lockClear_of_buffer (by decide) (by decide))
  have hlocked : lockedFrames smallKernel = Set.Ico 0 1539 := lockedFrames_eq (by decide) (by decide)
  have htaken : ∀ f < 32768, s₁.taken f = true ↔ f ∈ lockedFrames smallKernel ∨ smallKernel.taken f = true :=
    fun f hf => h.taken f (by omega) (bit_clear (by decide) (by decide) hf)
  refine ⟨s₁, hrun, h.ready (by decide) (by decide) (by decide), ⟨?_, ?_⟩, ?_, ?_⟩
  · rw [h.bitmap]
    decide
  · exact (htaken 0 (by omega)).mpr (Or.inl (by rw [hlocked]; exact ⟨le_rfl, by omega⟩))
  · rw [h.bitmap]
    decide
  · intro k hk hk'
    rw [show k = 32767 by omega, ← Bool.not_eq_true, htaken 32767 (by omega), hlocked]
    rintro (hmem | hmem)
    · exact absurd hmem.2 (by omega)
    · exact absurd hmem (by decide)

theorem pfaRun_owns_smallKernel : ∃ s₁ page s₂, ptmInitialize smallKernel = .ok ⟨⟩ s₁ ∧
    pfaRequestMpage s₁ = .ok (some page) s₂ ∧ Disjoint (blockFrames page 1) s₁.marked ∧
      s₂.marked = s₁.marked ∪ blockFrames page 1 ∧ page ≠ 0 := by
  obtain ⟨s₁, hinit, hready, hzero, hroom⟩ := smallKernel_ready
  obtain ⟨page, s₂, hrun, -⟩ := hready.run_of_room (q := .mpage) (by decide) hroom
  have hcall : PfaRun EndsInside s₁ s₂ [⟨page, 1⟩] :=
    .request .mpage .start (by decide) hrun fun h => absurd h (by decide)
  obtain ⟨-, hapart, hmarked, hnull⟩ := pfaRun_owns hready hzero hcall
  refine ⟨s₁, page, s₂, hinit, hrun, hapart _ List.mem_cons_self, ?_, hnull _ List.mem_cons_self⟩
  rw [hmarked]
  simp [PageBlock.frames]

end PfaInv

/-! ### Frames that nobody frees -/

/-- A step of the allocator's callers that frees no frame of `R`. -/
inductive PfaStep (R : Set ℕ) : Kernel → Kernel → Prop
  | request {s s' : Kernel} (q : PfaRequest) {r : Option UInt32} : q.run s = .ok r s' → PfaStep R s s'
  | freePage {s : Kernel} (address : UInt32) : address.toNat / 4096 ∉ R → PfaStep R s (pfaFreePage address s)
  | freePages {s : Kernel} (address pageCount : UInt32) :
      Disjoint R (frames address pageCount) → PfaStep R s (pfaFreePages address pageCount s)

section PfaStep

variable {R : Set ℕ} {s s' t : Kernel}

theorem Grew.marked_subset (h : Grew s s') : s.marked ⊆ s'.marked := by
  rintro f ⟨hlt, hf⟩
  exact ⟨h.bitmap ▸ hlt, h.taken hf⟩

/-- A step keeps the marks of frames that it does not free. -/
theorem PfaStep.marked_subset (h : PfaStep R s s') (hR : R ⊆ s.marked) :
    R ⊆ s'.marked ∧ s'.pfa.pageBitmap = s.pfa.pageBitmap := by
  cases h with
  | request q hrun =>
    have := (q.run_grew).of_ok hrun
    exact ⟨hR.trans this.marked_subset, this.bitmap⟩
  | freePage address hnot =>
    have := pfaFreePage_marks address s
    rw [this.marked_sdiff]
    exact ⟨fun f hf => ⟨hR hf, fun h => hnot (Set.mem_singleton_iff.mp h ▸ hf)⟩, this.bitmap⟩
  | freePages address pageCount hdisj =>
    have := pfaFreePages_marks address pageCount s
    rw [this.marked_sdiff]
    exact ⟨fun f hf => ⟨hR hf, Set.disjoint_left.mp hdisj hf⟩, this.bitmap⟩

/-- So does a run of steps. -/
theorem marked_subset_of_steps (hR : R ⊆ s.marked) (hrun : ReflTransGen (PfaStep R) s t) :
    R ⊆ t.marked ∧ t.pfa.pageBitmap = s.pfa.pageBitmap := by
  induction hrun with
  | refl => exact ⟨hR, rfl⟩
  | tail _ hstep ih =>
    obtain ⟨hR', hbitmap⟩ := hstep.marked_subset ih.1
    exact ⟨hR', hbitmap.trans ih.2⟩

/-- **A request returns no marked frame**: so none that is marked and that nobody frees. -/
theorem PfaRequest.disjoint_of_run_some (hsmall : s.pfa.pageBitmap.length ≤ 2 ^ 20) (hR : R ⊆ s.marked)
    {q : PfaRequest} {page : UInt32} (hrun : q.run s = .ok (some page) s') :
    Disjoint (blockFrames page q.count) R := by
  obtain ⟨-, hclear⟩ := PfaRequest.clear_of_run_some hsmall hrun
  refine Set.disjoint_left.mpr fun f hf hmem => ?_
  obtain ⟨hlt, htaken⟩ := hR hmem
  have := hclear f hf hlt
  rw [Kernel.taken, htaken] at this
  cases this

end PfaStep

/-- The frames `R` are locked, and no later request returns one of them, unless it is freed. -/
def StaysLocked (R : Set ℕ) (s : Kernel) : Prop :=
  R ⊆ s.marked ∧ ∀ t, ReflTransGen (PfaStep R) s t → ∀ (q : PfaRequest) (page : UInt32) (t' : Kernel),
    q.run t = .ok (some page) t' → Disjoint (blockFrames page q.count) R

/-- Frames that are locked stay locked. -/
theorem staysLocked_iff {R : Set ℕ} {s : Kernel} (hsmall : s.pfa.pageBitmap.length ≤ 2 ^ 20) :
    StaysLocked R s ↔ R ⊆ s.marked := by
  refine ⟨And.left, fun h => ⟨h, fun t hrun q page t' hcall => ?_⟩⟩
  obtain ⟨hR, hbitmap⟩ := marked_subset_of_steps h hrun
  exact PfaRequest.disjoint_of_run_some (by rwa [hbitmap]) hR hcall

/-! ### The frames of the kernel -/

/-- The frames that meet the kernel, from `KERNEL_START` to `KERNEL_END`. -/
def kernelFrames (s : Kernel) : Set ℕ :=
  {f | s.kernelStart.toNat < (f + 1) * 4096 ∧ f * 4096 < s.kernelEnd.toNat}

/-- The frames of the kernel are locked, and no later request returns one of them, unless it is freed. -/
def KernelLocked (s : Kernel) : Prop := StaysLocked (kernelFrames s) s

section KernelLocked

variable {s s₁ : Kernel}

/-- The kernel's end is a multiple of 4096, so its frames end there. -/
theorem kernelFrames_eq (hstart : s₁.kernelStart = s.kernelStart)
    (hend : s₁.kernelEnd.toNat = kernelTop s) :
    kernelFrames s₁ = Set.Ico (s.kernelStart.toNat / 4096) (kernelTop s / 4096) := by
  have htop : kernelTop s % 4096 = 0 := by
    rw [kernelTop, roundUp]
    omega
  ext f
  rw [kernelFrames, Set.mem_ofPred_eq, hstart, hend, Set.mem_Ico]
  omega

/-- What is locked then: the frames that `NUM_PAGES` counts, and those that were locked before. -/
theorem Initialized.kernelLocked_iff (h : Initialized s s₁) (hfit : kernelTop s < 2 ^ 32)
    (hstart : s.kernelStart ≤ s.kernelEnd) (hcover : kernelTop s / 4096 ≤ s.pfa.pageBitmap.length)
    (hbelow : s.pfa.pageBitmap.buffer.toNat + s.pfa.pageBitmap.size.toNat ≤ s.kernelEnd.toNat)
    (hsmall : s.pfa.pageBitmap.length ≤ 2 ^ 20) :
    KernelLocked s₁ ↔
      ∀ f, s.kernelStart.toNat / 4096 + ((kernelTop s - s.kernelStart.toNat) / 4098 + 1) ≤ f →
        f < kernelTop s / 4096 → s.taken f = true := by
  have hframes := kernelFrames_eq h.kernelStart (h.toNat_pd hfit).2.2.2
  have htaken : ∀ f < kernelTop s / 4096, s₁.taken f = true ↔ f ∈ lockedFrames s ∨ s.taken f = true :=
    fun f hf => h.taken f (by omega) (bit_clear hfit hbelow (by omega))
  rw [lockedFrames_eq hfit hstart] at htaken
  rw [KernelLocked, staysLocked_iff (by rwa [h.bitmap]), hframes]
  refine ⟨fun hlocked f hlo hhi => ?_, fun hrest f hf => ⟨?_, (htaken f hf.2).mpr ?_⟩⟩
  · rcases (htaken f hhi).mp (hlocked ⟨by omega, hhi⟩).2 with hmem | hf
    · exact absurd hmem.2 (by omega)
    · exact hf
  · rw [h.bitmap]
    exact lt_of_lt_of_le hf.2 hcover
  · by_cases hlt : f < s.kernelStart.toNat / 4096 + ((kernelTop s - s.kernelStart.toNat) / 4098 + 1)
    · exact Or.inl ⟨hf.1, hlt⟩
    · exact Or.inr (hrest f (by omega) hf.2)

/-- **`ptm_initialize` locks the kernel exactly when** the frames that `NUM_PAGES` leaves out, from the
kernel's first frame and its count on, were locked before. -/
theorem ptmInitialize_locks_iff (s : Kernel) (hfit : kernelTop s < 2 ^ 32)
    (hstart : s.kernelStart ≤ s.kernelEnd) (hcover : kernelTop s / 4096 ≤ s.pfa.pageBitmap.length)
    (hbelow : s.pfa.pageBitmap.buffer.toNat + s.pfa.pageBitmap.size.toNat ≤ s.kernelEnd.toNat)
    (hsmall : s.pfa.pageBitmap.length ≤ 2 ^ 20) :
    ∃ s₁, ptmInitialize s = .ok ⟨⟩ s₁ ∧ (KernelLocked s₁ ↔
      ∀ f, s.kernelStart.toNat / 4096 + ((kernelTop s - s.kernelStart.toNat) / 4098 + 1) ≤ f →
        f < kernelTop s / 4096 → s.taken f = true) := by
  obtain ⟨s₁, hrun, h⟩ := ptmInitialize_ok (Nat.le_of_lt hfit) (lockClear_of_covers hfit hstart hcover hbelow)
  exact ⟨s₁, hrun, h.kernelLocked_iff hfit hstart hcover hbelow hsmall⟩

theorem ptmInitialize_locks_smallKernel : ∃ s₁, ptmInitialize smallKernel = .ok ⟨⟩ s₁ ∧ KernelLocked s₁ := by
  obtain ⟨s₁, hrun, hiff⟩ :=
    ptmInitialize_locks_iff smallKernel (by decide) (by decide) (by decide) (by decide) (by decide)
  refine ⟨s₁, hrun, hiff.mpr fun f hlo hhi => ?_⟩
  have hnone : smallKernel.kernelStart.toNat / 4096 +
    ((kernelTop smallKernel - smallKernel.kernelStart.toNat) / 4098 + 1) =
    kernelTop smallKernel / 4096 := by decide
  omega

/-- A kernel of four mebibytes, less a page. -/
def largeKernel : Kernel :=
  { Kernel.loaded with kernelEnd := 0x3FF000, pfa := ⟨⟨4096, 0x300000⟩, 0, 0, 0, true⟩ }

/-- The last page table of a large kernel is not locked, and the next request returns it. -/
theorem ptmInitialize_leaves_table : ∃ s₁ s₂, ptmInitialize largeKernel = .ok ⟨⟩ s₁ ∧ ¬ KernelLocked s₁ ∧
    tableOf s₁.mem s₁.pd 1023 = 2049 * 4096 ∧ pfaRequestPage s₁ = .ok (some (2049 * 4096)) s₂ := by
  obtain ⟨s₁, hrun, h⟩ :=
    ptmInitialize_ok (s := largeKernel) (by decide) (lockClear_of_buffer (by decide) (by decide))
  have hlocked : lockedFrames largeKernel = Set.Ico 0 2049 := lockedFrames_eq (by decide) (by decide)
  have htaken : ∀ f < 32768, s₁.taken f = true ↔ f ∈ lockedFrames largeKernel ∨ largeKernel.taken f = true :=
    fun f hf => h.taken f (by omega) (bit_clear (by decide) (by decide) hf)
  have hclear : s₁.taken 2049 = false := by
    rw [← Bool.not_eq_true, htaken 2049 (by omega), hlocked]
    rintro (hmem | hmem)
    · exact absurd hmem.2 (by omega)
    · exact absurd hmem (by decide)
  have hsearch : clearPage s₁ = some 2049 := by
    refine firstClear_eq_some.mpr ⟨by rw [h.bitmap]; decide, hclear, fun j hj => ?_⟩
    exact (htaken j (by omega)).mpr (Or.inl (by rw [hlocked]; exact ⟨Nat.zero_le j, hj⟩))
  obtain ⟨-, -, hspace, hend⟩ := h.toNat_pd (by decide)
  have htop : kernelTop largeKernel = 2050 * 4096 := by decide
  refine ⟨s₁, pfaLockPage (2049 * 4096) s₁, hrun, fun hall => ?_, ?_, ?_⟩
  · have hmem : 2049 ∈ kernelFrames s₁ := by
      rw [kernelFrames_eq h.kernelStart hend]
      exact ⟨by decide, by rw [htop]; omega⟩
    have : s₁.taken 2049 = true := (hall.1 hmem).2
    rw [hclear] at this
    cases this
  · rw [← UInt32.toNat_inj, h.toNat_tableOf (by decide) (by omega)]
    show _ = 2049 * 4096
    omega
  · rw [pfaRequestPage, pfaRequest_of_some hsearch]
    rfl

end KernelLocked

end JurasOS
