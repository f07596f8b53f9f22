import JurasOS.Paging.Counters
import JurasOS.Paging.Runs

/-!
# Pages mapped to themselves

`ptm_map_addr` leaves an entry that is there as it is, so `pfa_request_mpages` maps
its pages to themselves only if whatever was mapped before was mapped to itself.
`SelfMapped` says so of an address space. After `ptm_initialize` it holds, and the
requests, the frees and the mappings of pages to themselves keep it, when the page
tables are clear of the bits of all frames: then also of those that a request takes
past the end of the bitmap.
-/

namespace JurasOS

open Machine Alloc Relation

/-- The pages that are mapped are mapped to themselves, for the kernel and writable. -/
def AddressSpace.SelfMapped (A : AddressSpace) : Prop := ∀ q p, A q = some p → identity (2 ^ 20) q = some p

open Classical in
/-- The pages of `F` are mapped to themselves, the others as in `A`. -/
noncomputable def AddressSpace.selfMap (A : AddressSpace) (F : Set ℕ) : AddressSpace :=
  F.piecewise (identity (2 ^ 20)) A

section SelfMapped

variable {A : AddressSpace} {F G : Set ℕ} {q : ℕ}

theorem AddressSpace.selfMap_of_mem (hq : q ∈ F) : A.selfMap F q = identity (2 ^ 20) q := if_pos hq

theorem AddressSpace.selfMap_of_notMem (hq : q ∉ F) : A.selfMap F q = A q := if_neg hq

theorem AddressSpace.selfMap_empty : A.selfMap ∅ = A := funext fun q => selfMap_of_notMem (Set.notMem_empty q)

theorem AddressSpace.selfMap_selfMap : (A.selfMap F).selfMap G = A.selfMap (F ∪ G) := by
  funext q
  by_cases hG : q ∈ G
  · rw [selfMap_of_mem hG, selfMap_of_mem (Or.inr hG)]
  · rw [selfMap_of_notMem hG]
    by_cases hF : q ∈ F
    · rw [selfMap_of_mem hF, selfMap_of_mem (Or.inl hF)]
    · rw [selfMap_of_notMem hF, selfMap_of_notMem (by simp [hF, hG])]

theorem identity_selfMapped {n : ℕ} (hn : n ≤ 2 ^ 20) : (identity n).SelfMapped := by
  intro q p hp
  rw [identity] at hp
  split at hp
  · rw [identity, if_pos (by omega)]
    exact hp
  · cases hp

/-- Mapping pages to themselves keeps to the identity. -/
theorem AddressSpace.SelfMapped.selfMap (h : A.SelfMapped) (F : Set ℕ) : (A.selfMap F).SelfMapped := by
  intro q p hp
  by_cases hq : q ∈ F
  · rwa [selfMap_of_mem hq] at hp
  · rw [selfMap_of_notMem hq] at hp
    exact h q p hp

/-- **The first mapping wins, and is the same**: a page mapped to itself goes to itself afterwards. -/
theorem AddressSpace.SelfMapped.map_eq (h : A.SelfMapped) {p : Mapping} (hp : identity (2 ^ 20) q = some p) :
    A.map q p = A.selfMap {q} := by
  funext j
  by_cases hj : j = q
  · rw [hj, AddressSpace.map_self, selfMap_of_mem (Set.mem_singleton q), hp]
    cases hA : A q with
    | none => rfl
    | some p' => rw [← hp, h q p' hA]; rfl
  · rw [AddressSpace.map_of_ne hj, selfMap_of_notMem (by rwa [Set.mem_singleton_iff])]

/-- The mapping of an aligned page to itself. -/
theorem identity_of_aligned {a : UInt32} (ha : a.toNat % 4096 = 0) : ∃ p : Mapping, p.phys = a ∧
    p.isKernel = true ∧ p.isWritable = true ∧ identity (2 ^ 20) (a.toNat / 4096) = some p := by
  refine ⟨⟨a, true, true, ha⟩, rfl, rfl, rfl, ?_⟩
  have hphys : UInt32.ofNat (a.toNat / 4096 * 4096) = a := by
    rw [Nat.div_mul_cancel (Nat.dvd_of_mod_eq_zero ha), UInt32.ofNat_toNat]
  rw [identity, if_pos (page_lt a)]
  simp only [hphys]

end SelfMapped

section Holds

variable {A : AddressSpace} {s s' t t' : Kernel} {tables : UInt32}

/-- A page is mapped to itself. -/
theorem Holds.ptmMapAddr_self (h : Holds A s tables) (hself : A.SelfMapped) {a : UInt32}
    (ha : a.toNat % 4096 = 0) :
    ∃ s', JurasOS.ptmMapAddr a a true true s = .ok ⟨⟩ s' ∧
      Holds (A.selfMap {a.toNat / 4096}) s' tables ∧ MapFrame tables s s' := by
  obtain ⟨p, hphys, hkernel, hwritable, hp⟩ := identity_of_aligned ha
  obtain ⟨s', hrun, hA, hframe⟩ := h.ptmMapAddr a p
  rw [hphys, hkernel, hwritable] at hrun
  rw [hself.map_eq hp] at hA
  exact ⟨s', hrun, hA, hframe⟩

/-- The pages of a block are mapped to themselves, even if they wrap. -/
theorem Holds.ptmMapAddr_pages (h : Holds A s tables) (hself : A.SelfMapped) {page : UInt32}
    (hpage : page.toNat % 4096 = 0) (pageCount : UInt32) :
    ∃ s', timesM pageCount.toNat (fun offset => JurasOS.ptmMapAddr (page + UInt32.ofNat offset * 4096)
        (page + UInt32.ofNat offset * 4096) true true) s = .ok ⟨⟩ s' ∧
      Holds (A.selfMap (frames page pageCount)) s' tables ∧ MapFrame tables s s' := by
  refine timesM_inv (P := fun n t =>
    Holds (A.selfMap {f | ∃ i < n, f = (page.toNat / 4096 + i) % 2 ^ 20}) t tables ∧ MapFrame tables s t)
    ⟨?_, MapFrame.refl tables s⟩ ?_
  · have hnone : {f | ∃ i < 0, f = (page.toNat / 4096 + i) % 2 ^ 20} = ∅ := by simp
    rw [hnone, AddressSpace.selfMap_empty]
    exact h
  · rintro offset - t ⟨ht, hst⟩
    have haligned : (page + UInt32.ofNat offset * 4096).toNat % 4096 = 0 := by
      have := toNat_page_aligned offset
      rw [UInt32.toNat_add]
      omega
    obtain ⟨u, hu, hA, htu⟩ := ht.ptmMapAddr_self (hself.selfMap _) haligned
    rw [frame_add, AddressSpace.selfMap_selfMap] at hA
    refine ⟨u, hu, ?_, hst.trans htu⟩
    convert hA using 2
    ext f
    simp only [Set.mem_ofPred_eq, Set.mem_union, Set.mem_singleton_iff, Nat.lt_succ_iff_lt_or_eq,
      or_and_right, exists_or, exists_eq_left]

/-- The processor translates the pages of `F` to themselves, the others as before. -/
theorem Holds.translate_selfMap (h : Holds A s tables) {F : Set ℕ}
    (h' : Holds (A.selfMap F) s' tables) (v : UInt32) :
    (v.toNat / 4096 ∈ F → JurasOS.translate s'.mem (s'.pd + 4096) v = some ⟨v, true, false⟩) ∧
      (v.toNat / 4096 ∉ F →
        JurasOS.translate s'.mem (s'.pd + 4096) v = JurasOS.translate s.mem (s.pd + 4096) v) := by
  rw [h.translate, h'.translate]
  refine ⟨fun hv => ?_, fun hv => ?_⟩
  · obtain ⟨p, hp, -, hwritable, hphys⟩ := identity_phys (page_lt v)
    rw [AddressSpace.selfMap_of_mem hv, hp, Option.map_some, hphys, hwritable]
  · rw [AddressSpace.selfMap_of_notMem hv]

/-- The pages that a request maps. -/
def PfaRequest.maps : PfaRequest → UInt32 → Set ℕ
  | .page, _ | .pages _, _ => ∅
  | .mpage, address => {address.toNat / 4096}
  | .mpages pageCount, address => frames address pageCount

/-- **A request maps its pages to themselves**, and does not halt. -/
theorem Holds.mapPages (h : Holds A s tables) (hself : A.SelfMapped) (q : PfaRequest) {page : UInt32}
    (hpage : page.toNat % 4096 = 0) :
    ∃ t, q.mapPages page s = .ok ⟨⟩ t ∧ Holds (A.selfMap (q.maps page)) t tables ∧ MapFrame tables s t := by
  cases q with
  | page | pages =>
    exact ⟨s, rfl, by rwa [PfaRequest.maps, AddressSpace.selfMap_empty], MapFrame.refl tables s⟩
  | mpage => exact h.ptmMapAddr_self hself hpage
  | mpages pageCount => exact h.ptmMapAddr_pages hself hpage pageCount

/-- Frames of the bitmap are locked and counted alike, whatever was mapped before. -/
theorem PfaReady.lock_alike (h : PfaReady s tables) (hm : MapFrame tables s t) {count : Pfa → Pfa} {F : Set ℕ}
    (hF : F ⊆ Set.Iio s.pfa.pageBitmap.length) (hs : Tallied true count F s s')
    (ht : Tallied true count F t t') : t'.pfa = s'.pfa ∧ t'.marked = s'.marked := by
  obtain ⟨hbitmap, htaken⟩ := h.taken_of_mapFrame hm
  have hpfa : t.pfa = s.pfa := by rw [hm.same]
  have hsame : {f ∈ F | t.taken f ≠ true} = {f ∈ F | s.taken f ≠ true} := by
    ext f
    exact and_congr_right fun hf => by rw [htaken f (hF hf)]
  constructor
  · rw [ht.tally, hs.tally, hsame, hpfa]
  · rw [ht.marks.marked_union, hs.marks.marked_union, h.marked_of_mapFrame hm, hbitmap]

end Holds

/-! ### Runs -/

/-- A call of the allocator, or a mapping of a page to itself. -/
inductive MapStep : Kernel → Kernel → Prop
  | call {s s' : Kernel} : PfaStep ∅ s s' → MapStep s s'
  | map {s s' : Kernel} (a : UInt32) :
      a.toNat % 4096 = 0 → ptmMapAddr a a true true s = .ok ⟨⟩ s' → MapStep s s'

/-- `pfa_request_mpages` returns the pages that `pfa_request_pages` would, and leaves the same bitmap and
counters; then they go to themselves, and the other pages where they went. -/
def MapsRequest (pageCount : UInt32) (s : Kernel) : Prop :=
  ∃ page s₁ s₂, pfaRequestPages pageCount s = .ok (some page) s₁ ∧
    pfaRequestMpages pageCount s = .ok (some page) s₂ ∧ s₂.pfa = s₁.pfa ∧ s₂.marked = s₁.marked ∧
    ∀ v : UInt32, (v.toNat / 4096 ∈ blockFrames page pageCount →
        translate s₂.mem s₂.cr3 v = some ⟨v, true, false⟩) ∧
      (v.toNat / 4096 ∉ blockFrames page pageCount →
        translate s₂.mem s₂.cr3 v = translate s.mem s.cr3 v)

/-- What is mapped is mapped to itself, in the directory that is loaded, and the page tables are clear of the
bits of all frames. -/
structure MapInv (tables : UInt32) (s : Kernel) : Prop where
  holds : ∃ A : AddressSpace, A.SelfMapped ∧ Holds A s tables
  apart : Disjoint (tableSpace s.pd tables) (span s.pfa.pageBitmap.buffer (2 ^ 17))
  small : s.pfa.pageBitmap.size.toNat * 8 ≤ 2 ^ 20
  cr3 : s.cr3 = s.pd + 4096

section MapInv

variable {s s' t : Kernel} {tables : UInt32}

theorem MapInv.ready (h : MapInv tables s) : PfaReady s tables := by
  obtain ⟨A, -, hA⟩ := h.holds
  have hsmall := h.small
  exact ⟨hA.inPlace, h.apart.mono_right (span_mono (by omega)), hsmall⟩

/-- Marking pages, wherever they are, leaves what the tables hold. -/
theorem MapInv.holds_marks (h : MapInv tables s) {A : AddressSpace} (hA : Holds A s tables) {value : Bool}
    {address pageCount : UInt32} (hm : Marks value (frames address pageCount) s s') : Holds A s' tables := by
  have hpd : s'.pd = s.pd := by rw [hm.same]
  have hspace : Set.EqOn s'.mem s.mem (tableSpace s.pd tables) :=
    hm.mem.mono fun a ha hbyte => Set.disjoint_left.mp h.apart ha (bytes_frames_subset _ _ _ hbyte)
  refine ⟨hpd ▸ hA.inPlace.of_eqOn (hspace.mono Set.subset_union_left), fun q hq => ?_⟩
  rw [← hA.entry q hq]
  exact Mem.load32_congr (hspace.mono ((hA.inPlace.pteAddr_subset hq).trans Set.subset_union_right))

theorem MapInv.marks (h : MapInv tables s) {value : Bool} {address pageCount : UInt32}
    (hm : Marks value (frames address pageCount) s s') : MapInv tables s' := by
  obtain ⟨A, hself, hA⟩ := h.holds
  have hpd : s'.pd = s.pd := by rw [hm.same]
  refine ⟨⟨A, hself, h.holds_marks hA hm⟩, ?_, ?_, ?_⟩
  · rw [hpd, hm.bitmap]
    exact h.apart
  · rw [hm.bitmap]
    exact h.small
  · rw [hm.same]
    exact h.cr3

theorem MapInv.mapFrame (h : MapInv tables s) (hm : MapFrame tables s s') {A : AddressSpace}
    (hself : A.SelfMapped) (hA : Holds A s' tables) : MapInv tables s' := by
  refine ⟨⟨A, hself, hA⟩, ?_, ?_, ?_⟩
  · rw [hm.same]
    exact h.apart
  · rw [hm.same]
    exact h.small
  · rw [hm.same]
    exact h.cr3

/-- A request, also one that takes frames past the end of the bitmap, keeps the invariant. -/
theorem MapInv.request (h : MapInv tables s) {q : PfaRequest} {r : Option UInt32}
    (hrun : q.run s = .ok r s') :
    MapInv tables s' := by
  cases r with
  | none => rwa [PfaRequest.eq_of_null hrun]
  | some page =>
    obtain ⟨A, hself, hA⟩ := h.holds
    obtain ⟨index, -, hpage, hgrant⟩ := PfaRequest.of_run_some hrun
    obtain ⟨t, ht, hAt, hframe⟩ := hA.mapPages hself q (hpage ▸ toNat_page_aligned index)
    rw [PfaRequest.grant_of_mapPages ht] at hgrant
    cases hgrant
    exact (h.mapFrame hframe (hself.selfMap _) hAt).marks (pfaLockPages_marks page q.count t)

/-- **Every step keeps the invariant.** -/
theorem MapInv.step (h : MapInv tables s) (hstep : MapStep s s') : MapInv tables s' := by
  cases hstep with
  | call hcall =>
    cases hcall with
    | request q hrun => exact h.request hrun
    | freePage address _ =>
      have hone : pfaFreePages address 1 s = pfaFreePage address s :=
        congrFun (pfaEachPage_one pfaFreePage address) s
      exact h.marks (hone ▸ pfaFreePages_marks address 1 s)
    | freePages address pageCount _ => exact h.marks (pfaFreePages_marks address pageCount s)
  | map a ha hrun =>
    obtain ⟨A, hself, hA⟩ := h.holds
    obtain ⟨t, ht, hA', hframe⟩ := hA.ptmMapAddr_self hself ha
    rw [hrun] at ht
    cases ht
    exact h.mapFrame hframe (hself.selfMap _) hA'

/-- So does a run of steps. -/
theorem MapInv.of_steps (h : MapInv tables s) (hrun : ReflTransGen MapStep s t) : MapInv tables t := by
  induction hrun with
  | refl => exact h
  | tail _ hstep ih => exact ih.step hstep

/-- `ptm_initialize` maps pages to themselves, clear of the bits of all frames when these lie below the
kernel's end. -/
theorem Initialized.mapInv {s₁ : Kernel} (h : Initialized s s₁) (hfit : kernelTop s < 2 ^ 32)
    (hbelow : s.pfa.pageBitmap.buffer.toNat + 2 ^ 17 ≤ s.kernelEnd.toNat)
    (hsmall : s.pfa.pageBitmap.size.toNat * 8 ≤ 2 ^ 20) : MapInv (s₁.pd + 12288) s₁ := by
  obtain ⟨-, hle, hspace, -⟩ := h.toNat_pd hfit
  have hlt := s₁.kernelEnd.toNat_lt
  refine ⟨⟨_, identity_selfMapped (by omega), h.holds⟩, ?_, by rwa [h.bitmap], h.cr3⟩
  rw [h.bitmap]
  exact h.tableSpace_above hfit hbelow

/-- **With room for the pages, `pfa_request_mpages` does what `pfa_request_pages` does**, and maps them. -/
theorem MapInv.requestMpages (h : MapInv tables s) {pageCount : UInt32} (hcount : 0 < pageCount.toNat)
    (hroom : ∃ j, Room s.taken s.pfa.pageBitmap.length pageCount.toNat j) : MapsRequest pageCount s := by
  have hsmall := h.ready.length_le
  obtain ⟨A, hself, hA⟩ := h.holds
  obtain ⟨j, hj⟩ := hroom
  obtain ⟨index, hsearch, -, ⟨hin, -⟩, -⟩ := findRun_of_room hcount hj
  obtain ⟨page, hpage⟩ : ∃ page : UInt32, page = UInt32.ofNat index * 4096 := ⟨_, rfl⟩
  have hindex : page.toNat / 4096 = index := by rw [hpage, toNat_frame (by omega)]
  have hframes : frames page pageCount = blockFrames page pageCount := frames_eq (by omega)
  have hF : frames page pageCount ⊆ Set.Iio s.pfa.pageBitmap.length := by
    rw [hframes]
    exact fun f hf => lt_of_lt_of_le hf.2 (by omega)
  obtain ⟨t, ht, hAt, hst⟩ := hA.mapPages hself (.mpages pageCount) (hpage ▸ toNat_page_aligned index)
  have hlock := PageOp.lock.pages_tallied page pageCount t
  obtain ⟨hpfa, hmarked⟩ := h.ready.lock_alike hst hF (PageOp.lock.pages_tallied page pageCount s) hlock
  have hmapped := h.mapFrame hst (hself.selfMap _) hAt
  have hcr3 : (pfaLockPages page pageCount t).cr3 = (pfaLockPages page pageCount t).pd + 4096 :=
    (hmapped.marks hlock.marks).cr3
  refine ⟨page, pfaLockPages page pageCount s, pfaLockPages page pageCount t, ?_, ?_, hpfa, hmarked,
    fun v => ?_⟩
  · rw [hpage, pfaRequestPages, pfaRequest_of_some hsearch]
    rfl
  · have hrun := PfaRequest.run_of_some (q := .mpages pageCount) hsearch
    rw [← hpage, bind_of_ok (PfaRequest.grant_of_mapPages ht)] at hrun
    exact hrun
  · rw [← hframes, h.cr3, hcr3]
    exact hA.translate_selfMap (hmapped.holds_marks hAt hlock.marks) v

end MapInv

end JurasOS
