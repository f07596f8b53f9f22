import JurasOS.Boot.Coverage
import JurasOS.Paging.Answers

/-!
# `NULL` as an answer

A request that finds no pages returns `NULL`, and one that finds the pages at frame 0
returns their address, which is `NULL` as well. So its callers can tell one from the
other exactly as long as frame 0 is marked. Reading the memory map does not see to
that: it marks the pages of the bitmap and those from its entries on.
-/

namespace JurasOS

open Machine Alloc Relation

/-- The request returns `NULL` exactly when it marks no frame. -/
def TellsApart (q : PfaRequest) (s : Kernel) : Prop :=
  ∀ r s', q.run s = .ok r s' → (r.getD 0 = 0 ↔ s'.marked = s.marked)

section TellsApart

variable {q : PfaRequest} {s s' : Kernel} {page : UInt32}

/-- A grant marks the first of its pages. -/
theorem PfaRequest.taken_of_grant (hcount : 0 < q.count.toNat) (h : q.grant page s = .ok ⟨⟩ s') :
    s'.taken (page.toNat / 4096) = true := by
  have hlt := page_lt page
  obtain ⟨t, -, rfl⟩ := PfaRequest.of_grant h
  exact (pfaLockPages_marks page q.count t).inside _ ⟨0, hcount, by omega⟩ (by omega)

/-- With frame 0 marked, no request returns pages at `NULL`. -/
theorem tellsApart_of_marked (hsmall : s.pfa.pageBitmap.length ≤ 2 ^ 20) (hzero : 0 ∈ s.marked)
    (hcount : 0 < q.count.toNat) : TellsApart q s := by
  rintro (_ | page) s' hrun
  · rw [PfaRequest.eq_of_null hrun]
    exact iff_of_true rfl rfl
  · obtain ⟨index, hsearch, rfl, hgrant⟩ := PfaRequest.of_run_some hrun
    obtain ⟨-, ⟨hlt, hclear⟩, -⟩ := findRun_eq_some.mp hsearch
    have hfree : s.taken index = false := hclear index le_rfl (by omega)
    have hmarked := PfaRequest.taken_of_grant hcount hgrant
    rw [toNat_frame (by omega)] at hmarked
    have hbitmap := ((q.grant_grew _).of_ok hgrant).bitmap
    refine iff_of_false (fun hnull => ?_) fun hsame => ?_
    · -- only frame 0 is at `NULL`, and it is taken
      have hdvd := frame_eq_null_iff.mp hnull
      obtain rfl : index = 0 := Nat.eq_zero_of_dvd_of_lt hdvd (by omega)
      rw [show s.taken 0 = true from hzero.2] at hfree
      cases hfree
    · have hmem : index ∈ s.marked := by
        rw [← hsame]
        exact ⟨by rwa [hbitmap], hmarked⟩
      rw [show s.taken index = true from hmem.2] at hfree
      cases hfree

/-- With frame 0 clear, the next request for a page returns it, at `NULL`. -/
theorem pfaRequestPage_null (hpos : 0 < s.pfa.pageBitmap.length) (hclear : s.taken 0 = false) :
    ∃ s', PfaRequest.page.run s = .ok (some 0) s' ∧ Marks true {0} s s' := by
  have hsearch : clearPage s = some 0 :=
    firstClear_eq_some.mpr ⟨hpos, hclear, fun j hj => absurd hj (Nat.not_lt_zero j)⟩
  obtain ⟨s', hrun, hmarks⟩ := pfaRequestPage_of_clear hsearch (by decide)
  exact ⟨s', hrun, hmarks⟩

/-- While nobody frees frame 0, the callers can tell success from failure exactly when it was marked at the
start. -/
theorem tellsApart_of_steps_iff {s₁ : Kernel} (hsmall : s₁.pfa.pageBitmap.length ≤ 2 ^ 20)
    (hpos : 0 < s₁.pfa.pageBitmap.length) :
    (∀ s₂, ReflTransGen (PfaStep {0}) s₁ s₂ → ∀ q : PfaRequest, 0 < q.count.toNat → TellsApart q s₂) ↔
      0 ∈ s₁.marked := by
  constructor
  · intro htells
    by_contra hnot
    have hclear : s₁.taken 0 = false := by
      rw [← Bool.not_eq_true]
      exact fun htaken => hnot ⟨hpos, htaken⟩
    obtain ⟨s', hrun, hmarks⟩ := pfaRequestPage_null hpos hclear
    have hsame := (htells s₁ .refl .page (by decide) _ s' hrun).mp rfl
    refine hnot ?_
    rw [← hsame, hmarks.marked_union]
    exact Or.inr ⟨rfl, hpos⟩
  · intro hzero s₂ hrun q hcount
    obtain ⟨hzero', hbitmap⟩ := marked_subset_of_steps (Set.singleton_subset_iff.mpr hzero) hrun
    exact tellsApart_of_marked (by rwa [hbitmap]) (Set.singleton_subset_iff.mp hzero') hcount

/-- **After the map was read, the callers can tell success from failure**, in every state that requests and
frees of other frames than frame 0 lead to, **exactly when** reading the map has marked frame 0: for a map
stored off the bitmap, when frame 0 is one of the bitmap's own pages, or is reserved from an entry on. -/
theorem tellsApart_iff {fuel : ℕ} {s₁ : Kernel} (hfirst : s.pfa.initialized = false)
    (hrun : pfaReadMultibootMemoryMap fuel s = .ok ⟨⟩ s₁) :
    ((∀ s₂, ReflTransGen (PfaStep {0}) s₁ s₂ → ∀ q : PfaRequest, 0 < q.count.toNat → TellsApart q s₂) ↔
        0 ∈ s₁.marked) ∧
      ∀ entrySize entries, MapStored s entrySize entries → entries.length < fuel →
        (0 ∈ s₁.marked ↔ 0 ∈ mapFrames s.kernelEnd s.tags.memoryMap entrySize entries) := by
  obtain ⟨hpos, hsmall⟩ := pfaReadMultibootMemoryMap_length hfirst hrun
  refine ⟨tellsApart_of_steps_iff hsmall hpos, fun entrySize entries hstored hfuel => ?_⟩
  obtain ⟨s₁', hrun', h⟩ := pfaReadMultibootMemoryMap_ok hfirst hstored hfuel
  rw [hrun] at hrun'
  cases hrun'
  exact h.mem_marked (by rw [← h.length_eq]; exact hpos)

/-- A kernel of a mebibyte whose map is in frame 0, with an entry that is not available. -/
def lowKernel : Kernel :=
  { Kernel.loaded with
    mem := fun a => (smallMap 0x20 0).getD (a - 0x500).toNat 0
    kernelEnd := 0x100000
    tags := { Kernel.loaded.tags with memoryMap := 0x500 } }

theorem tellsApart_lowKernel : ∃ s₁, pfaReadMultibootMemoryMap 3 lowKernel = .ok ⟨⟩ s₁ ∧
    ∀ s₂, ReflTransGen (PfaStep {0}) s₁ s₂ → TellsApart .page s₂ := by
  have htag : MmapTag lowKernel.mem 0x500 24 [⟨0, 0x100000, 1⟩, ⟨0x2000, 0x1000, 2⟩] :=
    ⟨by decide, by decide, by decide, by decide, by decide, by decide⟩
  have hstored := mapStored_of_below (s := lowKernel) htag (by decide) (by decide)
  obtain ⟨s₁, hrun, -⟩ := pfaReadMultibootMemoryMap_ok rfl hstored (by decide : 2 < 3)
  obtain ⟨hiff, hmarked⟩ := tellsApart_iff rfl hrun
  have hzero : 0 ∈ s₁.marked :=
    (hmarked 24 _ hstored (by decide)).mpr (Or.inr ⟨1, by decide, by decide, rfl, 0, by decide, by decide⟩)
  exact ⟨s₁, hrun, fun s₂ hsteps => hiff.mpr hzero s₂ hsteps .page (by decide)⟩

/-- With the map above frame 0 the first request for a page returns frame 0, that is `NULL`, and marks it. -/
theorem pfaRequestPage_null_mapKernel : ∃ s₁ s₂, pfaReadMultibootMemoryMap 3 (mapKernel 0 1) = .ok ⟨⟩ s₁ ∧
    pfaRequestPage s₁ = .ok (some 0) s₂ ∧ s₂.marked ≠ s₁.marked := by
  have hstored := mapKernel_stored 0x100000 (by decide) (by decide)
  obtain ⟨s₁, hrun, h⟩ := pfaReadMultibootMemoryMap_ok rfl hstored (by decide : 2 < 3)
  have hpos := (pfaReadMultibootMemoryMap_length rfl hrun).1
  have hnot : 0 ∉ s₁.marked := by
    rw [h.mem_marked (by rw [← h.length_eq]; exact hpos)]
    exact notMem_mapFrames_pair (by decide) rfl (by decide) (by decide) (by decide)
  have hclear : s₁.taken 0 = false := by
    rw [← Bool.not_eq_true]
    exact fun htaken => hnot ⟨hpos, htaken⟩
  obtain ⟨s₂, hnull, hmarks⟩ := pfaRequestPage_null hpos hclear
  refine ⟨s₁, s₂, hrun, hnull, fun hsame => hnot ?_⟩
  rw [← hsame, hmarks.marked_union]
  exact Or.inr ⟨rfl, hpos⟩

end TellsApart

end JurasOS
