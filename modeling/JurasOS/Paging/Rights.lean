import JurasOS.Paging.Layout

/-!
# The rights of a page

The processor grants what both the directory and the table grant. `ptm_initialize`
makes every entry of the directory for the kernel only, and nothing changes them
later, so a page is never for the user, whatever `ptm_map_addr` writes into the table.
The writable flag of the directory is set, so that one is decided by the table.
-/

namespace JurasOS

open Machine

/-- What happens after `ptm_initialize`: pages are mapped, and anything off the page tables is changed. -/
inductive MapRun (s₁ : Kernel) : Kernel → Prop
  | start : MapRun s₁ s₁
  | map {s s' : Kernel} {addr physAddr : UInt32} {isKernel isWritable : Bool} :
      MapRun s₁ s → ptmMapAddr addr physAddr isKernel isWritable s = .ok ⟨⟩ s' → MapRun s₁ s'
  | other {s s' : Kernel} : MapRun s₁ s → s'.pd = s.pd → s'.cr3 = s.cr3 →
      Set.EqOn s'.mem s.mem (tableSpace s.pd (s.pd + 12288)) → MapRun s₁ s'

/-- The directory and the tables are in place and loaded, and every entry is zero or present. -/
structure TablesLoaded (s : Kernel) : Prop where
  inPlace : PageTables s.mem s.pd (s.pd + 12288)
  cr3 : s.cr3 = s.pd + 4096
  present : ∀ q < 2 ^ 20, s.mem.load32 (pteAddr (s.pd + 12288) q) = 0 ∨
    s.mem.load32 (pteAddr (s.pd + 12288) q) &&& 1 ≠ 0

section TablesLoaded

variable {s s₁ s' : Kernel} {v p : UInt32} {isKernel isWritable : Bool}

/-- Every entry that `ptm_map_addr` makes is present, be its address aligned or not. -/
theorem pteOf_present (physAddr : UInt32) (isKernel isWritable : Bool) :
    pteOf physAddr isKernel isWritable &&& 1 ≠ 0 := by
  have hone : (pteOf physAddr isKernel isWritable).toNat.testBit 0 = true := by
    simp only [pteOf, UInt32.toNat_or, Nat.testBit_or]
    simp
  intro hzero
  have hbit : ((pteOf physAddr isKernel isWritable) &&& 1).toNat.testBit 0 = true := by
    rw [UInt32.toNat_and, Nat.testBit_and, hone]
    rfl
  rw [hzero] at hbit
  exact absurd hbit (by decide)

theorem Initialized.tablesLoaded (h : Initialized s s₁) : TablesLoaded s₁ := by
  refine ⟨h.holds.inPlace, h.cr3, fun q hq => ?_⟩
  rw [h.holds.entry q hq]
  cases hA : identity (s₁.kernelEnd.toNat / 4096) q with
  | none => exact Or.inl rfl
  | some p =>
    right
    rw [← pteOf_eq_entryOf]
    exact pteOf_present _ _ _

/-- Mapping a page keeps the tables. -/
theorem TablesLoaded.map (h : TablesLoaded s) {addr physAddr : UInt32}
    (hrun : ptmMapAddr addr physAddr isKernel isWritable s = .ok ⟨⟩ s') : TablesLoaded s' := by
  obtain ⟨t, ht, hin, hframe, hload⟩ := h.inPlace.ptmMapAddr_ok addr physAddr isKernel isWritable
  rw [ht] at hrun
  cases hrun
  have hpd : s'.pd = s.pd := hframe.pd_eq
  have hcr3 : s'.cr3 = s.cr3 := by rw [hframe.same]
  refine ⟨by rwa [hpd] at hin ⊢, by rw [hcr3, hpd, h.cr3], fun q hq => ?_⟩
  rw [hpd, hload q hq]
  split
  · exact Or.inr (pteOf_present _ _ _)
  · exact h.present q hq

/-- So does anything that is written off them. -/
theorem TablesLoaded.other (h : TablesLoaded s) (hpd : s'.pd = s.pd) (hcr3 : s'.cr3 = s.cr3)
    (hmem : Set.EqOn s'.mem s.mem (tableSpace s.pd (s.pd + 12288))) : TablesLoaded s' := by
  refine ⟨?_, by rw [hcr3, hpd, h.cr3], fun q hq => ?_⟩
  · rw [hpd]
    exact h.inPlace.of_eqOn (hmem.mono Set.subset_union_left)
  · have hentry : s'.mem.load32 (pteAddr (s.pd + 12288) q) = s.mem.load32 (pteAddr (s.pd + 12288) q) :=
      Mem.load32_congr (hmem.mono ((h.inPlace.pteAddr_subset hq).trans Set.subset_union_right))
    rw [hpd, hentry]
    exact h.present q hq

/-- They are in place in every state after `ptm_initialize`. -/
theorem TablesLoaded.of_run (h : TablesLoaded s₁) (hrun : MapRun s₁ s) : TablesLoaded s := by
  induction hrun with
  | start => exact h
  | map _ hcall ih => exact ih.map hcall
  | other _ hpd hcr3 hmem ih => exact ih.other hpd hcr3 hmem

/-- A page that is not mapped has the entry zero. -/
theorem TablesLoaded.unmapped_iff (h : TablesLoaded s) :
    translate s.mem s.cr3 v = none ↔ s.mem.load32 (pteAddr (s.pd + 12288) (v.toNat / 4096)) = 0 := by
  simp only [translate, h.cr3, h.inPlace.walkEntry]
  rcases h.present _ (page_lt v) with hzero | hpresent
  · rw [hzero]
    exact iff_of_true rfl rfl
  · rw [if_neg hpresent]
    refine iff_of_false (fun hnone => by cases hnone) fun hzero => ?_
    rw [hzero] at hpresent
    exact hpresent rfl

/-- Mapping a page maps that page, and no other. -/
theorem TablesLoaded.mapped_map (h : TablesLoaded s) (addr physAddr : UInt32) (isKernel isWritable : Bool) :
    ∃ s', ptmMapAddr addr physAddr isKernel isWritable s = .ok ⟨⟩ s' ∧ TablesLoaded s' ∧
      MapFrame (s.pd + 12288) s s' ∧ ∀ v, translate s'.mem s'.cr3 v ≠ none ↔
        v.toNat / 4096 = addr.toNat / 4096 ∨ translate s.mem s.cr3 v ≠ none := by
  obtain ⟨s', hrun, -, hframe, hload⟩ := h.inPlace.ptmMapAddr_ok addr physAddr isKernel isWritable
  have h' := h.map hrun
  refine ⟨s', hrun, h', hframe, fun v => ?_⟩
  rw [Ne, Ne, h'.unmapped_iff, h.unmapped_iff, hframe.pd_eq, hload _ (page_lt v)]
  by_cases hpage : v.toNat / 4096 = addr.toNat / 4096
  · refine iff_of_true ?_ (Or.inl hpage)
    rw [hpage]
    split
    · rename_i hzero
      exact fun hpte => pteOf_present physAddr isKernel isWritable (by rw [hpte]; rfl)
    · rename_i hpresent
      exact fun hzero => hpresent ⟨rfl, hzero⟩
  · rw [if_neg fun hboth => hpage hboth.1, or_iff_right hpage]

/-- **A page that was not mapped** gets the frame and the writable flag of its mapping, and is not
for the user. -/
theorem TablesLoaded.translate_map (h : TablesLoaded s) (hv : translate s.mem s.cr3 v = none)
    (hp : p.toNat % 4096 = 0) (isKernel isWritable : Bool) :
    ∃ s', ptmMapAddr v p isKernel isWritable s = .ok ⟨⟩ s' ∧
      translate s'.mem s'.cr3 v = some ⟨p + (v &&& 0xFFF), isWritable, false⟩ := by
  have hzero := h.unmapped_iff.mp hv
  obtain ⟨s', hrun, hin, hframe, hload⟩ := h.inPlace.ptmMapAddr_ok v p isKernel isWritable
  have hpd : s'.pd = s.pd := hframe.pd_eq
  have hcr3 : s'.cr3 = s.cr3 := by rw [hframe.same]
  have hentry := hload _ (page_lt v)
  rw [if_pos ⟨rfl, hzero⟩] at hentry
  refine ⟨s', hrun, ?_⟩
  rw [hcr3, h.cr3, ← hpd]
  exact hin.translate_entry ⟨p, isKernel, isWritable, hp⟩ (hentry.trans (pteOf_eq_entryOf ⟨p, _, _, hp⟩))

/-- **The rights of a page that is mapped are those that `ptm_map_addr` was called with exactly when** it was
called for the kernel: in every state after `ptm_initialize`, for every page that is not mapped yet. -/
theorem ptmMapAddr_rights_iff (hfit : kernelTop s ≤ 2 ^ 32) (hlock : LockClear s)
    (hinit : ptmInitialize s = .ok ⟨⟩ s₁) (hrun : MapRun s₁ s') (hv : translate s'.mem s'.cr3 v = none)
    (hp : p.toNat % 4096 = 0) (isKernel isWritable : Bool) :
    (∃ t, ptmMapAddr v p isKernel isWritable s' = .ok ⟨⟩ t ∧ ∃ a, translate t.mem t.cr3 v = some a ∧
      a.phys = p + (v &&& 0xFFF) ∧ (a.writable = true ↔ isWritable = true) ∧
      (a.user = true ↔ ¬ isKernel = true)) ↔ isKernel = true := by
  obtain ⟨s₂, hs₂, hinitialized⟩ := ptmInitialize_ok hfit hlock
  rw [hinit] at hs₂
  cases hs₂
  obtain ⟨t, ht, htranslate⟩ :=
    (hinitialized.tablesLoaded.of_run hrun).translate_map hv hp isKernel isWritable
  constructor
  · rintro ⟨t', ht', a, ha, -, -, huser⟩
    rw [ht] at ht'
    cases ht'
    rw [htranslate] at ha
    cases ha
    by_contra hkernel
    exact absurd (huser.mpr hkernel) Bool.false_ne_true
  · intro hkernel
    exact ⟨t, ht, _, htranslate, rfl, Iff.rfl, iff_of_false Bool.false_ne_true (not_not.mpr hkernel)⟩

/-- The page tables of a kernel of 2 MiB map nothing from 1 GiB on. -/
theorem smallKernel_tables : ∃ s₁, ptmInitialize smallKernel = .ok ⟨⟩ s₁ ∧ TablesLoaded s₁ ∧
    s₁.pd = 0x200000 ∧
    ∀ v : UInt32, 0x40000000 ≤ v.toNat → translate s₁.mem s₁.cr3 v = none := by
  obtain ⟨s₁, hinit, hinitialized⟩ :=
    ptmInitialize_ok (s := smallKernel) (by decide) (lockClear_of_buffer (by decide) (by decide))
  refine ⟨s₁, hinit, hinitialized.tablesLoaded, hinitialized.pd.trans (by decide), fun v hv => ?_⟩
  have hend : s₁.kernelEnd.toNat = kernelTop smallKernel := hinitialized.toNat_kernelEnd (by decide)
  have htop : kernelTop smallKernel = 0x603000 := by decide
  rw [hinitialized.translate (by decide), if_neg]
  rw [UInt32.lt_iff_toNat_lt]
  omega

/-- A page of the new page tables is mapped for the kernel, read-only. -/
theorem ptmMapAddr_rights_smallKernel : ∃ s₁ t, ptmInitialize smallKernel = .ok ⟨⟩ s₁ ∧
    ptmMapAddr 0x40000000 0x5000 true false s₁ = .ok ⟨⟩ t ∧ ∃ a, translate t.mem t.cr3 0x40000000 = some a ∧
      ¬ a.writable = true ∧ ¬ a.user = true := by
  obtain ⟨s₁, hinit, -, -, hunmapped⟩ := smallKernel_tables
  obtain ⟨t, ht, a, ha, -, hwritable, huser⟩ := (ptmMapAddr_rights_iff (by decide)
    (lockClear_of_buffer (by decide) (by decide)) hinit .start (hunmapped 0x40000000 (by decide))
    (p := 0x5000)
    (by decide) true false).mpr rfl
  exact ⟨s₁, t, hinit, ht, a, ha, mt hwritable.mp Bool.false_ne_true, mt huser.mp (not_not.mpr rfl)⟩

/-- The same page, mapped for the user and writable, is writable but not for the user. -/
theorem ptmMapAddr_not_user : ∃ s₁ t, ptmInitialize smallKernel = .ok ⟨⟩ s₁ ∧
    translate s₁.mem s₁.cr3 0x40000000 = none ∧ ptmMapAddr 0x40000000 0x5000 false true s₁ = .ok ⟨⟩ t ∧
    translate t.mem t.cr3 0x40000000 = some ⟨0x5000, true, false⟩ := by
  obtain ⟨s₁, hinit, htables, -, hunmapped⟩ := smallKernel_tables
  have hfree := hunmapped 0x40000000 (by decide)
  obtain ⟨t, ht, htranslate⟩ := htables.translate_map hfree (p := 0x5000) (by decide) false true
  exact ⟨s₁, t, hinit, hfree, ht, htranslate⟩

end TablesLoaded

end JurasOS
