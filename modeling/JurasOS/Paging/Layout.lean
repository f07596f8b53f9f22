import JurasOS.Paging.Initialize

/-!
# What `ptm_initialize` leaves

`Initialized` collects what is true after `ptm_initialize`, when the bits that it
sets to lock the kernel lie clear of the page tables it makes (`LockClear`), as they
do when the bitmap lies below the kernel's end. From it: the page tables refine an address space through
any run of `ptm_map_addr`, and the directory and the tables lie apart from each
other in the space that the kernel has grown by, mapping it and all below it.
-/

namespace JurasOS

open Machine

/-- Where the kernel ends after `ptm_initialize`, if that is an address. -/
def kernelTop (s : Kernel) : ℕ := roundUp s.kernelEnd.toNat + 1027 * 4096

/-- The frames that `ptm_initialize` locks. -/
def lockedFrames (s : Kernel) : Set ℕ :=
  frames s.kernelStart (numPages (pageUp s.kernelEnd + 1027 * 4096 - s.kernelStart))

/-- The bits of the frames that `ptm_initialize` locks lie clear of the directory and the tables. -/
def LockClear (s : Kernel) : Prop :=
  ∀ f ∈ lockedFrames s, s.pfa.pageBitmap.byteAddr (UInt32.ofNat f) ∉ span (pageUp s.kernelEnd) (1027 * 4096)

/-- What `ptm_initialize` has done. -/
structure Initialized (s s₁ : Kernel) : Prop where
  kernelStart : s₁.kernelStart = s.kernelStart
  pd : s₁.pd = pageUp s.kernelEnd
  kernelEnd : s₁.kernelEnd = s₁.pd + 1027 * 4096
  /-- The directory is loaded. -/
  cr3 : s₁.cr3 = s₁.pd + 4096
  /-- The pages below the kernel's end are mapped to themselves. -/
  holds : Holds (identity (s₁.kernelEnd.toNat / 4096)) s₁ (s₁.pd + 12288)
  trace : ∃ es es', s₁.trace = es' ++ .directory s₁.pd :: (es ++ s.trace) ∧ (∀ e ∈ es, Clears s₁.pd e) ∧
    ∀ e ∈ es', MapEvent s₁.pd (s₁.pd + 12288) e
  bitmap : s₁.pfa.pageBitmap = s.pfa.pageBitmap
  /-- The frames of the kernel are locked. -/
  taken : ∀ f < 2 ^ 32, s.pfa.pageBitmap.byteAddr (UInt32.ofNat f) ∉ span (pageUp s.kernelEnd) (1027 * 4096) →
    (s₁.taken f = true ↔ f ∈ lockedFrames s ∨ s.taken f = true)

/-- A kernel of 2 MiB whose bitmap of 128 MiB ends below its end. -/
def smallKernel : Kernel :=
  { Kernel.loaded with kernelEnd := 0x200000, pfa := ⟨⟨4096, 0x180000⟩, 0, 0, 0, true⟩ }

theorem le_roundUp (n : ℕ) : n ≤ roundUp n := by
  rw [roundUp]
  omega

section Initialized

variable {s s₁ t : Kernel}

theorem toNat_pageUp_of_fit (hfit : kernelTop s ≤ 2 ^ 32) :
    (pageUp s.kernelEnd).toNat = roundUp s.kernelEnd.toNat := by
  rw [kernelTop] at hfit
  exact toNat_pageUp (by omega)

/-- What lies below the kernel's end is clear of the space of the page tables. -/
theorem notMem_space (hfit : kernelTop s ≤ 2 ^ 32) {a : UInt32} (ha : a.toNat < s.kernelEnd.toNat) :
    a ∉ span (pageUp s.kernelEnd) (1027 * 4096) := by
  have hup := toNat_pageUp_of_fit hfit
  have hle := le_roundUp s.kernelEnd.toNat
  rw [kernelTop] at hfit
  intro hmem
  rw [mem_span_iff (by omega)] at hmem
  omega

theorem Built.lock_marks (h : Built s t) : Marks true (lockedFrames s) t (ptmLockKernel t) := by
  have hstart : t.kernelStart = s.kernelStart := by rw [h.same]
  rw [lockedFrames, ← hstart, ← h.pd, ← h.kernelEnd]
  exact pfaLockPages_marks _ _ _

/-- Locking below the space of the page tables leaves what they hold. -/
theorem Built.lock_holds (h : Built s t) (hfit : kernelTop s ≤ 2 ^ 32) (hlock : LockClear s) :
    Holds (identity (t.kernelEnd.toNat / 4096)) (ptmLockKernel t) (t.pd + 12288) := by
  have hup := toNat_pageUp_of_fit hfit
  have hpd : (ptmLockKernel t).pd = t.pd := by rw [h.lock_marks.same]
  have hpfa : t.pfa = s.pfa := by rw [h.same]
  have hspace : Set.EqOn (ptmLockKernel t).mem t.mem (span t.pd (1027 * 4096)) := by
    refine h.lock_marks.mem.mono fun a ha => ?_
    rintro ⟨f, hf, rfl⟩
    rw [hpfa, h.pd] at ha
    exact hlock f hf ha
  rw [kernelTop, ← hup, ← h.pd] at hfit
  have htables := toNat_tables hfit
  have hdir : span t.pd 8196 ⊆ span t.pd (1027 * 4096) := span_mono (by omega)
  have hspan : span (t.pd + 12288) (4 * 2 ^ 20) ⊆ span t.pd (1027 * 4096) :=
    span_subset_span hfit (by omega) (by omega)
  refine ⟨?_, fun q hq => ?_⟩
  · rw [hpd]
    exact h.holds.inPlace.of_eqOn (hspace.mono hdir)
  · rw [← h.holds.entry q hq]
    exact Mem.load32_congr (hspace.mono ((h.holds.inPlace.pteAddr_subset hq).trans hspan))

/-- **`ptm_initialize` does not abort**, and does what it is for. -/
theorem ptmInitialize_ok (hfit : kernelTop s ≤ 2 ^ 32) (hlock : LockClear s) :
    ∃ s₁, ptmInitialize s = .ok ⟨⟩ s₁ ∧ Initialized s s₁ := by
  obtain ⟨t, ht, hrun⟩ := ptmInitialize_eq s hfit
  have hmarks := ht.lock_marks
  have hholds := ht.lock_holds hfit hlock
  generalize ptmLockKernel t = u at hrun hmarks hholds
  have hpd : u.pd = t.pd := by rw [hmarks.same]
  have hend : u.kernelEnd = t.kernelEnd := by rw [hmarks.same]
  have htrace : u.trace = t.trace := by rw [hmarks.same]
  have hpfa : t.pfa = s.pfa := by rw [ht.same]
  refine ⟨ptmLoad u, hrun, ?_, ?_, ?_, ?_, ?_, ?_, ?_, ?_⟩
  · rw [ptmLoad_kernelStart, hmarks.same, ht.same]
  · rw [ptmLoad_pd, hpd, ht.pd]
  · rw [ptmLoad_kernelEnd, ptmLoad_pd, hend, hpd, ht.kernelEnd]
  · rw [ptmLoad_cr3, ptmLoad_pd]
  · rw [ptmLoad_kernelEnd, ptmLoad_pd, hend, hpd]
    exact hholds.congr (ptmLoad_mem u) (ptmLoad_pd u)
  · rw [ptmLoad_trace, ptmLoad_pd, htrace, hpd]
    exact ht.trace
  · rw [ptmLoad_pfa, hmarks.bitmap, hpfa]
  · intro f hf hclear
    rw [Kernel.taken, ptmLoad_pfa, ptmLoad_mem, ← Kernel.taken]
    have hsame : t.taken f = s.taken f := by
      rw [Kernel.taken, Kernel.taken, hpfa]
      refine Bitmap.bits_congr (ht.mem ?_)
      rw [ht.pd]
      exact hclear
    by_cases hmem : f ∈ lockedFrames s
    · simp [hmarks.inside f hmem hf, hmem]
    · simp [hmarks.outside f hmem hf, hmem, hsame]

theorem Initialized.toNat_kernelEnd (h : Initialized s s₁) (hfit : kernelTop s ≤ 2 ^ 32) :
    s₁.kernelEnd.toNat = kernelTop s % 2 ^ 32 := by
  rw [h.kernelEnd, UInt32.toNat_add, toNat_space, h.pd, toNat_pageUp_of_fit hfit, kernelTop]

/-! ### Where the locked frames are -/

/-- The bits of all frames lie in the `2 ^ 17` bytes from the bitmap on, so it is enough that these do. -/
theorem lockClear_of_buffer (hfit : kernelTop s ≤ 2 ^ 32)
    (h : s.pfa.pageBitmap.buffer.toNat + 2 ^ 17 ≤ s.kernelEnd.toNat) : LockClear s := by
  intro f hf
  have hend := s.kernelEnd.toNat_lt
  have hbyte := bytes_frames_subset s.pfa.pageBitmap _ _ ⟨f, hf, rfl⟩
  rw [mem_span_iff (by omega)] at hbyte
  exact notMem_space hfit (by omega)

/-- `ptm_initialize` locks as many frames as `NUM_PAGES` counts, from the kernel's first one on. -/
theorem lockedFrames_eq (hfit : kernelTop s < 2 ^ 32) (hstart : s.kernelStart ≤ s.kernelEnd) :
    lockedFrames s = Set.Ico (s.kernelStart.toNat / 4096)
      (s.kernelStart.toNat / 4096 + ((kernelTop s - s.kernelStart.toNat) / 4098 + 1)) := by
  have hup := toNat_pageUp_of_fit (Nat.le_of_lt hfit)
  have hle := le_roundUp s.kernelEnd.toNat
  rw [UInt32.le_iff_toNat_le] at hstart
  have htop : (pageUp s.kernelEnd + 1027 * 4096).toNat = kernelTop s := by
    rw [toNat_add_of_lt (by rwa [toNat_space, hup]), toNat_space, hup]
    rfl
  rw [kernelTop] at *
  have hsize : (pageUp s.kernelEnd + 1027 * 4096 - s.kernelStart).toNat =
      roundUp s.kernelEnd.toNat + 1027 * 4096 - s.kernelStart.toNat := by
    rw [UInt32.toNat_sub_of_le _ _ (by rw [UInt32.le_iff_toNat_le]; omega), htop]
  have hpages : (numPages (pageUp s.kernelEnd + 1027 * 4096 - s.kernelStart)).toNat =
      (roundUp s.kernelEnd.toNat + 1027 * 4096 - s.kernelStart.toNat) / 4098 + 1 := by
    rw [numPages, UInt32.toNat_add, UInt32.toNat_div, hsize]
    exact Nat.mod_eq_of_lt (by show _ / 4098 + 1 < _; omega)
  rw [lockedFrames, frames_eq (by omega), hpages]

/-- `NUM_PAGES` never counts a frame past the kernel's end, which is a multiple of 4096 and more
than a page past its start. -/
theorem lockedFrames_lt (hfit : kernelTop s < 2 ^ 32) (hstart : s.kernelStart ≤ s.kernelEnd) {f : ℕ}
    (hf : f ∈ lockedFrames s) : f < kernelTop s / 4096 := by
  have hle := le_roundUp s.kernelEnd.toNat
  rw [lockedFrames_eq hfit hstart, Set.mem_Ico] at hf
  rw [UInt32.le_iff_toNat_le] at hstart
  have htop : kernelTop s % 4096 = 0 ∧ s.kernelStart.toNat + 1027 * 4096 ≤ kernelTop s := by
    rw [kernelTop, roundUp] at *
    omega
  omega

/-- The bits of a bitmap below the kernel's end are clear of the page tables. -/
theorem bit_clear (hfit : kernelTop s < 2 ^ 32)
    (hbelow : s.pfa.pageBitmap.buffer.toNat + s.pfa.pageBitmap.size.toNat ≤ s.kernelEnd.toNat) {f : ℕ}
    (hf : f < s.pfa.pageBitmap.length) :
    s.pfa.pageBitmap.byteAddr (UInt32.ofNat f) ∉ span (pageUp s.kernelEnd) (1027 * 4096) := by
  have hend := s.kernelEnd.toNat_lt
  have hmem := Bitmap.byteAddr_mem_span hf
  rw [mem_span_iff (by omega)] at hmem
  exact notMem_space (Nat.le_of_lt hfit) (by omega)

/-- With the bitmap below the kernel's end, and long enough, the bits of the locked frames are there too. -/
theorem lockClear_of_covers (hfit : kernelTop s < 2 ^ 32) (hstart : s.kernelStart ≤ s.kernelEnd)
    (hcover : kernelTop s / 4096 ≤ s.pfa.pageBitmap.length)
    (hbelow : s.pfa.pageBitmap.buffer.toNat + s.pfa.pageBitmap.size.toNat ≤ s.kernelEnd.toNat) :
    LockClear s := by
  intro f hf
  have hlt := lockedFrames_lt hfit hstart hf
  exact bit_clear hfit hbelow (lt_of_lt_of_le hlt hcover)

/-! ### Refinement -/

/-- A run of `ptm_map_addr` after it is a run of maps from the identity on. -/
theorem Initialized.ptmMapAll (h : Initialized s s₁) (calls : List (UInt32 × Mapping)) :
    ∃ s₂, ptmMapAll calls s₁ = .ok ⟨⟩ s₂ ∧
      Holds ((identity (s₁.kernelEnd.toNat / 4096)).mapAll calls) s₂ (s₁.pd + 12288) ∧
      s₂.cr3 = s₂.pd + 4096 := by
  obtain ⟨s₂, hcalls, hA, hframe⟩ := h.holds.ptmMapAll calls
  refine ⟨s₂, hcalls, hA, ?_⟩
  rw [hframe.same]
  exact h.cr3

/-- **The page tables refine a partial map in which the first mapping of a page wins**: after
`ptm_initialize` and any run of `ptm_map_addr`, which never aborts, the walk of the loaded directory finds
the entry of the address's page, and another call changes the entry of no other page. -/
theorem ptmInitialize_refines (s : Kernel) (hfit : kernelTop s ≤ 2 ^ 32) (hlock : LockClear s) :
    ∃ s₁, ptmInitialize s = .ok ⟨⟩ s₁ ∧ s₁.kernelEnd.toNat = kernelTop s % 2 ^ 32 ∧
    ∀ calls : List (UInt32 × Mapping), ∃ s₂, ptmMapAll calls s₁ = .ok ⟨⟩ s₂ ∧
      (∀ v, walkEntry s₂.mem s₂.cr3 v =
        some (entryOf ((identity (s₁.kernelEnd.toNat / 4096)).mapAll calls (v.toNat / 4096)))) ∧
      ∀ (addr : UInt32) (p : Mapping), ∃ s₃, ptmMapAddr addr p.phys p.isKernel p.isWritable s₂ = .ok ⟨⟩ s₃ ∧
        ∀ v, v.toNat / 4096 ≠ addr.toNat / 4096 → walkEntry s₃.mem s₃.cr3 v = walkEntry s₂.mem s₂.cr3 v := by
  obtain ⟨s₁, hrun, hinit⟩ := ptmInitialize_ok hfit hlock
  refine ⟨s₁, hrun, hinit.toNat_kernelEnd hfit, fun calls => ?_⟩
  obtain ⟨s₂, hcalls, hA, hcr3⟩ := hinit.ptmMapAll calls
  refine ⟨s₂, hcalls, hA.walkEntry hcr3, fun addr p => ?_⟩
  obtain ⟨s₃, hcall, hA', hframe⟩ := hA.ptmMapAddr addr p
  have hcr3' : s₃.cr3 = s₃.pd + 4096 := by
    rw [hframe.same]
    exact hcr3
  refine ⟨s₃, hcall, fun v hv => ?_⟩
  rw [hA'.walkEntry hcr3', hA.walkEntry hcr3, AddressSpace.map_of_ne hv]

theorem ptmInitialize_refines_smallKernel : ∃ s₁, ptmInitialize smallKernel = .ok ⟨⟩ s₁ ∧
    ∃ s₂, ptmMapAll [(0x40000000, ⟨0x5000, false, true, rfl⟩), (0x40000fff, ⟨0x6000, true, true, rfl⟩)]
    s₁ = .ok ⟨⟩ s₂ ∧
      walkEntry s₂.mem s₂.cr3 0x40000123 = some 0x5007 := by
  obtain ⟨s₁, hrun, hend, h⟩ := ptmInitialize_refines smallKernel (by decide)
    (lockClear_of_buffer (by decide) (by decide))
  obtain ⟨s₂, hcalls, hwalk, -⟩ :=
    h [(0x40000000, ⟨0x5000, false, true, rfl⟩), (0x40000fff, ⟨0x6000, true, true, rfl⟩)]
  refine ⟨s₁, hrun, s₂, hcalls, ?_⟩
  rw [hwalk, hend]
  decide

/-! ### Layout -/

/-- The table that the entry `i` of the directory names. -/
def tableOf (m : Mem) (pd : UInt32) (i : ℕ) : UInt32 := (m.load32 (pd + 4 * UInt32.ofNat i) >>> 12) <<< 12

/-- The bytes that a `memset`, or `ptm_map_addr` making an entry, wrote. -/
def Event.writes : Event → Set UInt32
  | .memset p n => span p n.toNat
  | .pteWrite a => span a 4
  | _ => ∅

/-- The directory and the 1024 tables lie apart from each other, on pages between the old and the
new end of the kernel. -/
structure Laid (s s₁ : Kernel) : Prop where
  pd_aligned : s₁.pd.toNat % 4096 = 0
  table_aligned : ∀ i < 1024, (tableOf s₁.mem s₁.pd i).toNat % 4096 = 0
  pd_between : s.kernelEnd.toNat ≤ s₁.pd.toNat ∧ s₁.pd.toNat + 8196 ≤ s₁.kernelEnd.toNat
  table_between : ∀ i < 1024, s.kernelEnd.toNat ≤ (tableOf s₁.mem s₁.pd i).toNat ∧
    (tableOf s₁.mem s₁.pd i).toNat + 4096 ≤ s₁.kernelEnd.toNat
  pd_apart : ∀ i < 1024, Disjoint (span s₁.pd 8196) (span (tableOf s₁.mem s₁.pd i) 4096)
  tables_apart : ∀ i < 1024, ∀ j < i,
    Disjoint (span (tableOf s₁.mem s₁.pd i) 4096) (span (tableOf s₁.mem s₁.pd j) 4096)

theorem Initialized.toNat_pd (h : Initialized s s₁) (hfit : kernelTop s < 2 ^ 32) :
    s₁.pd.toNat % 4096 = 0 ∧ s.kernelEnd.toNat ≤ s₁.pd.toNat ∧
    s₁.pd.toNat + 1027 * 4096 = s₁.kernelEnd.toNat ∧
      s₁.kernelEnd.toNat = kernelTop s := by
  have hend := h.toNat_kernelEnd (Nat.le_of_lt hfit)
  have hle := le_roundUp s.kernelEnd.toNat
  rw [Nat.mod_eq_of_lt hfit] at hend
  rw [hend, h.pd, toNat_pageUp_of_fit (Nat.le_of_lt hfit), kernelTop]
  refine ⟨?_, hle, rfl, rfl⟩
  rw [roundUp]
  omega

theorem Initialized.toNat_tableOf (h : Initialized s s₁) (hfit : kernelTop s < 2 ^ 32) {i : ℕ}
    (hi : i < 1024) :
    (tableOf s₁.mem s₁.pd i).toNat = s₁.pd.toNat + 12288 + i * 4096 := by
  obtain ⟨-, -, hspace, -⟩ := h.toNat_pd hfit
  have hlt := s₁.kernelEnd.toNat_lt
  have htables : (s₁.pd + 12288).toNat = s₁.pd.toNat + 12288 := toNat_tables (by omega)
  rw [tableOf, h.holds.inPlace.entries i hi, h.holds.inPlace.page_entry hi, toNat_tableAt (by omega) hi,
    htables]

theorem Initialized.laid (h : Initialized s s₁) (hfit : kernelTop s < 2 ^ 32) : Laid s s₁ := by
  obtain ⟨haligned, hle, hspace, -⟩ := h.toNat_pd hfit
  have hlt := s₁.kernelEnd.toNat_lt
  have htable := fun i (hi : i < 1024) => h.toNat_tableOf hfit hi
  refine ⟨haligned, fun i hi => ?_, by omega, fun i hi => ?_, fun i hi => ?_, fun i hi j hj => ?_⟩
  · rw [htable i hi]
    omega
  · rw [htable i hi]
    omega
  · have := htable i hi
    exact disjoint_span (by omega) (by omega) (Or.inl (by omega))
  · have := htable i hi
    have := htable j (by omega)
    exact disjoint_span (by omega) (by omega) (Or.inr (by omega))

/-- The `memset`s and the entries of `ptm_initialize` stay in the space the kernel grows by. -/
theorem Initialized.writes_between (h : Initialized s s₁) (hfit : kernelTop s < 2 ^ 32) :
    ∃ es, s₁.trace = es ++ s.trace ∧
      ∀ e ∈ es, e.writes ⊆ {a | s.kernelEnd.toNat ≤ a.toNat ∧ a.toNat < s₁.kernelEnd.toNat} := by
  obtain ⟨-, hle, hspace, -⟩ := h.toNat_pd hfit
  have hlt := s₁.kernelEnd.toNat_lt
  have hbetween :
    span s₁.pd (1027 * 4096) ⊆ {a | s.kernelEnd.toNat ≤ a.toNat ∧ a.toNat < s₁.kernelEnd.toNat} := by
    intro a ha
    rw [mem_span_iff (by omega)] at ha
    exact ⟨by omega, by omega⟩
  have htables : (s₁.pd + 12288).toNat = s₁.pd.toNat + 12288 := toNat_tables (by omega)
  obtain ⟨es, es', htrace, hes, hes'⟩ := h.trace
  refine ⟨es' ++ .directory s₁.pd :: es, by rw [htrace, List.append_assoc, List.cons_append], fun e he => ?_⟩
  rw [List.mem_append, List.mem_cons] at he
  rcases he with he | rfl | he
  · have hevent := hes' e he
    cases e with
    | pteWrite a =>
      obtain ⟨q, hq, rfl⟩ := hevent
      refine ((h.holds.inPlace.pteAddr_subset hq).trans ?_).trans hbetween
      exact span_subset_span (by omega) (by omega) (by omega)
    | memset p n => exact absurd hevent id
    | _ => exact Set.empty_subset _
  · exact Set.empty_subset _
  · obtain ⟨p, n, rfl, hsub⟩ := hes e he
    exact hsub.trans hbetween

/-- The processor maps what lies below the kernel's end to itself, and nothing else. -/
theorem Initialized.translate (h : Initialized s s₁) (hfit : kernelTop s < 2 ^ 32) (v : UInt32) :
    translate s₁.mem s₁.cr3 v = if v < s₁.kernelEnd then some ⟨v, true, false⟩ else none := by
  obtain ⟨haligned, -, hspace, -⟩ := h.toNat_pd hfit
  have hpage : v.toNat / 4096 < s₁.kernelEnd.toNat / 4096 ↔ v < s₁.kernelEnd := by
    rw [UInt32.lt_iff_toNat_lt]
    omega
  rw [h.cr3, h.holds.translate]
  by_cases hv : v < s₁.kernelEnd
  · obtain ⟨p, hp, -, hwritable, hphys⟩ := identity_phys (hpage.mpr hv)
    rw [if_pos hv, hp, Option.map_some, hphys, hwritable]
  · rw [if_neg hv, identity, if_neg (by rwa [hpage])]
    rfl

/-- The entry of a page that the kernel grew over is its frame, present and writable, and for the
kernel only. -/
theorem Initialized.walkEntry (h : Initialized s s₁) (hfit : kernelTop s < 2 ^ 32) {v : UInt32}
    (hv : v < s₁.kernelEnd) : walkEntry s₁.mem s₁.cr3 v = some (((v >>> 12) <<< 12) + 3) := by
  obtain ⟨haligned, -, hspace, -⟩ := h.toNat_pd hfit
  rw [UInt32.lt_iff_toNat_lt] at hv
  have hlt := v.toNat_lt
  rw [h.holds.walkEntry h.cr3, identity, if_pos (by omega)]
  have hphys : UInt32.ofNat (v.toNat / 4096 * 4096) = (v >>> 12) <<< 12 := by
    rw [← UInt32.toNat_inj, toNat_page, UInt32.toNat_ofNat']
    omega
  rw [← hphys]
  rfl

/-- **`ptm_initialize` lays out the page tables** on pages of their own between the old and the new end
of the kernel, writes there what it clears and maps, and maps to itself, writable and for the kernel
only, what lies below the new end, and nothing else. -/
theorem ptmInitialize_layout (s : Kernel) (hfit : kernelTop s < 2 ^ 32 - 4096)
    (hstart : s.kernelStart ≤ s.kernelEnd) (hcover : kernelTop s / 4096 ≤ s.pfa.pageBitmap.length)
    (hbelow : s.pfa.pageBitmap.buffer.toNat + s.pfa.pageBitmap.size.toNat ≤ s.kernelEnd.toNat) :
    ∃ s₁, ptmInitialize s = .ok ⟨⟩ s₁ ∧ s₁.kernelEnd.toNat = kernelTop s ∧ Laid s s₁ ∧
      (∃ es, s₁.trace = es ++ s.trace ∧
        ∀ e ∈ es, e.writes ⊆ {a | s.kernelEnd.toNat ≤ a.toNat ∧ a.toNat < s₁.kernelEnd.toNat}) ∧
      (∀ v, v < s₁.kernelEnd → JurasOS.walkEntry s₁.mem s₁.cr3 v = some (((v >>> 12) <<< 12) + 3)) ∧
      ∀ v, JurasOS.translate s₁.mem s₁.cr3 v = if v < s₁.kernelEnd then some ⟨v, true, false⟩ else none := by
  have hlt : kernelTop s < 2 ^ 32 := by omega
  obtain ⟨s₁, hrun, hinit⟩ :=
    ptmInitialize_ok (Nat.le_of_lt hlt) (lockClear_of_covers hlt hstart hcover hbelow)
  exact ⟨s₁, hrun, (hinit.toNat_pd hlt).2.2.2, hinit.laid hlt, hinit.writes_between hlt,
    fun v hv => hinit.walkEntry hlt hv, hinit.translate hlt⟩

theorem ptmInitialize_layout_smallKernel : ∃ s₁, ptmInitialize smallKernel = .ok ⟨⟩ s₁ ∧ Laid smallKernel s₁ ∧
    translate s₁.mem s₁.cr3 0x601234 = some ⟨0x601234, true, false⟩ ∧
    translate s₁.mem s₁.cr3 0x603000 = none := by
  obtain ⟨s₁, hrun, hend, hlaid, -, -, htranslate⟩ :=
    ptmInitialize_layout smallKernel (by decide) (by decide) (by decide)
    (by decide)
  refine ⟨s₁, hrun, hlaid, ?_, ?_⟩
  · rw [htranslate, if_pos (by rw [UInt32.lt_iff_toNat_lt, hend]; decide)]
  · rw [htranslate, if_neg (by rw [UInt32.lt_iff_toNat_lt, hend]; decide)]

end Initialized

end JurasOS
