import JurasOS.Libc.String
import JurasOS.Paging.AddressSpace

/-!
# `page_table_manager.c`: `ptm_initialize`

The directory is laid out at the kernel's end, rounded up to a page, and 1024
tables after it, each where the kernel then ends; the pages below the new end
are mapped to themselves, the kernel's pages are locked and the directory is
loaded. `Built` says what the state is before the kernel is locked, and
`ptmInitialize_eq` that `ptm_initialize` comes that far and then locks and loads.
-/

namespace JurasOS

open Machine

/-- The rounding of `KERNEL_END`. -/
def pageUp (kernelEnd : UInt32) : UInt32 :=
  if kernelEnd % 4096 ≠ 0 then kernelEnd + (4096 - kernelEnd % 4096) else kernelEnd

/-- `ptm_initialize`, up to the loop that makes the tables. -/
def ptmDirectory (s : Kernel) : Kernel :=
  let s := { s with kernelEnd := pageUp s.kernelEnd }
  let pdPages := numPages 8196
  let s := { s with pd := s.kernelEnd, kernelEnd := s.kernelEnd + pdPages * 4096 }
  let s := s.memset s.pd 0 (pdPages * 4096)
  { s with mem := s.mem.store32 (s.pd + 8192) s.pd }

/-- The body of the loop that makes the tables. -/
def ptmTable (index : ℕ) (s : Kernel) : Kernel :=
  let entry := s.pd + 4 * UInt32.ofNat index
  if s.mem.load32 entry = 0 then
    let pageTablePages := numPages 4096
    let pageTable := s.kernelEnd
    let s := { s with kernelEnd := s.kernelEnd + pageTablePages * 4096 }
    let s := s.memset pageTable 0 (pageTablePages * 4096)
    let pde := pageTable ||| 0x01 ||| 0x03 ||| 0x0
    { s with mem := (s.mem.store32 entry pde).store32 (s.pd + 4096 + 4 * UInt32.ofNat index) pde }
  else s

/-- The loop that maps the pages below `KERNEL_END` to themselves: `KERNEL_END` is at most
`2 ^ 32 - 4096` when it is a multiple of 4096, so `addr` does not wrap. -/
def ptmIdentity : KernelM PUnit := do
  let s ← get
  timesM ((s.kernelEnd.toNat + 4095) / 4096) fun i =>
    ptmMapAddr (UInt32.ofNat i * 4096) (UInt32.ofNat i * 4096) true true

/-- The end of `ptm_initialize`: the pages from `KERNEL_START` to `KERNEL_END` are locked. -/
def ptmLockKernel (s : Kernel) : Kernel :=
  let kernelSize := s.kernelEnd - s.kernelStart
  let kernelPages := numPages kernelSize
  pfaLockPages s.kernelStart kernelPages s

/-- `ptm_load(pd)`. -/
def ptmLoad (s : Kernel) : Kernel := { s with cr3 := s.pd + 4096, paging := true }

/-- `ptm_initialize`. -/
def ptmInitialize : KernelM PUnit := do
  modify ptmDirectory
  modify (times 1024 ptmTable)
  modify fun s => s.emit (.directory s.pd)
  ptmIdentity
  modify ptmLockKernel
  modify ptmLoad

@[simp] theorem ptmLoad_mem (s : Kernel) : (ptmLoad s).mem = s.mem := by rw [ptmLoad]
@[simp] theorem ptmLoad_cr3 (s : Kernel) : (ptmLoad s).cr3 = s.pd + 4096 := by rw [ptmLoad]
@[simp] theorem ptmLoad_pd (s : Kernel) : (ptmLoad s).pd = s.pd := by rw [ptmLoad]
@[simp] theorem ptmLoad_kernelStart (s : Kernel) : (ptmLoad s).kernelStart = s.kernelStart := by rw [ptmLoad]
@[simp] theorem ptmLoad_kernelEnd (s : Kernel) : (ptmLoad s).kernelEnd = s.kernelEnd := by rw [ptmLoad]
@[simp] theorem ptmLoad_trace (s : Kernel) : (ptmLoad s).trace = s.trace := by rw [ptmLoad]
@[simp] theorem ptmLoad_pfa (s : Kernel) : (ptmLoad s).pfa = s.pfa := by rw [ptmLoad]

/-! ### The directory and the tables -/

/-- `n` rounded up to a page. -/
def roundUp (n : ℕ) : ℕ := (n + 4095) / 4096 * 4096

theorem toNat_pageUp {a : UInt32} (h : roundUp a.toNat < 2 ^ 32) : (pageUp a).toNat = roundUp a.toNat := by
  have hmod : (a % 4096).toNat = a.toNat % 4096 := UInt32.toNat_mod ..
  have hlow : a.toNat % 4096 ≤ (4096 : UInt32).toNat := Nat.le_of_lt (Nat.mod_lt _ (by decide))
  rw [roundUp] at h ⊢
  rw [pageUp]
  by_cases h0 : a % 4096 = 0
  · have : a.toNat % 4096 = 0 := by rw [← hmod, h0]; rfl
    rw [if_neg (not_not.mpr h0)]
    omega
  · have : a.toNat % 4096 ≠ 0 := fun h => h0 (by rw [← UInt32.toNat_inj, hmod, h]; rfl)
    rw [if_pos h0, UInt32.toNat_add, UInt32.toNat_sub_of_le _ _ (by rwa [UInt32.le_iff_toNat_le, hmod]), hmod,
      show (4096 : UInt32).toNat = 4096 from rfl]
    omega

/-- A `memset` inside the space that `ptm_initialize` lays out from `pd` on. -/
def Clears (pd : UInt32) (e : Event) : Prop := ∃ p n, e = .memset p n ∧ span p n.toNat ⊆ span pd (1027 * 4096)

/-- The first `i` tables are made, from a state `s` with an empty directory. -/
structure TablesMade (s t : Kernel) (i : ℕ) : Prop where
  same : t = { s with mem := t.mem, kernelEnd := t.kernelEnd, trace := t.trace }
  kernelEnd : t.kernelEnd = tableAt (s.pd + 12288) i
  entries : ∀ j < 1024,
    t.mem.load32 (s.pd + 4 * UInt32.ofNat j) = if j < i then tableAt (s.pd + 12288) j + 3 else 0
  physEntries : ∀ j < i, t.mem.load32 (s.pd + 4096 + 4 * UInt32.ofNat j) = tableAt (s.pd + 12288) j + 3
  zero : ∀ q < 1024 * i, t.mem.load32 (pteAddr (s.pd + 12288) q) = 0
  mem : Set.EqOn t.mem s.mem (span s.pd (1027 * 4096))ᶜ
  trace : ∃ es, t.trace = es ++ s.trace ∧ ∀ e ∈ es, Clears s.pd e

/-- The second copy of the directory follows the first. -/
theorem physEntry_eq (pd : UInt32) (j : ℕ) :
    pd + 4096 + 4 * UInt32.ofNat j = pd + 4 * UInt32.ofNat (1024 + j) := by
  rw [UInt32.ofNat_add, UInt32.mul_add, ← UInt32.add_assoc]
  rfl

theorem tableAt_succ (tables : UInt32) (i : ℕ) : tableAt tables (i + 1) = tableAt tables i + 4096 := by
  rw [tableAt, tableAt, UInt32.ofNat_add, UInt32.add_mul, ← UInt32.add_assoc]
  rfl

/-- The entry of a table: the table, present and writable. -/
theorem pde_eq {pageTable : UInt32} (h : pageTable.toNat % 4096 = 0) :
    pageTable ||| 0x01 ||| 0x03 ||| 0x0 = pageTable + 3 := by
  rw [UInt32.or_assoc, UInt32.or_assoc]
  exact or_low h (by decide)

theorem numPages_directory : numPages 8196 * 4096 = 12288 := by decide

theorem numPages_table : numPages 4096 * 4096 = 4096 := by decide

/-- Both copies of an entry of the directory. -/
def enter (pd : UInt32) (i : ℕ) (pde : UInt32) (m : Mem) : Mem :=
  (m.store32 (pd + 4 * UInt32.ofNat i) pde).store32 (pd + 4 * UInt32.ofNat (1024 + i)) pde

section enter

variable {pd pde : UInt32} {i : ℕ} {m : Mem}

theorem load_enter (hi : i < 1024) (hfit : pd.toNat + 8196 ≤ 2 ^ 32) {w : ℕ} (hw : w < 2049) :
    (enter pd i pde m).load32 (pd + 4 * UInt32.ofNat w) =
      if w = i ∨ w = 1024 + i then pde else m.load32 (pd + 4 * UInt32.ofNat w) := by
  rw [enter, Mem.load32_store32_word (n := 2049) (by omega) (by omega) hw,
    Mem.load32_store32_word (n := 2049) (by omega) (by omega) hw]
  by_cases h : w = 1024 + i
  · simp [h]
  · simp [h]

theorem eqOn_enter (hi : i < 1024) (hfit : pd.toNat + 8196 ≤ 2 ^ 32) :
    Set.EqOn (enter pd i pde m) m (span pd 8196)ᶜ := by
  intro a ha
  have hsub : ∀ w < 2049, a ∉ span (pd + 4 * UInt32.ofNat w) 4 :=
    fun w hw hmem => ha (span_word_subset (n := 2049) (by omega) hw hmem)
  rw [enter, Mem.eqOn_store32 _ _ _ (hsub _ (by omega)), Mem.eqOn_store32 _ _ _ (hsub _ (by omega))]

end enter

section Space

variable {pd : UInt32} (h : pd.toNat + 1027 * 4096 ≤ 2 ^ 32)

include h

/-- The word for `cr3` comes after the two directories. -/
theorem toNat_physical : (pd + 8192).toNat = pd.toNat + 8192 := toNat_add_of_lt (by show _ + 8192 < _; omega)

/-- The page tables come a page after that. -/
theorem toNat_tables : (pd + 12288).toNat = pd.toNat + 12288 := toNat_add_of_lt (by show _ + 12288 < _; omega)

end Space

section TablesMade

variable {s t : Kernel} {i : ℕ}

theorem TablesMade.toNat_kernelEnd (h : TablesMade s t i) (hi : i < 1024)
    (hfit : s.pd.toNat + 1027 * 4096 ≤ 2 ^ 32) :
    t.kernelEnd.toNat = s.pd.toNat + 12288 + i * 4096 := by
  have hT : (s.pd + 12288).toNat = s.pd.toNat + 12288 := toNat_tables (by omega)
  rw [h.kernelEnd, toNat_tableAt (by omega) hi, hT]

/-- What making a table comes to: the entry is empty, so the table is made. -/
theorem TablesMade.ptmTable_eq (h : TablesMade s t i) (hi : i < 1024) (hpd : s.pd.toNat % 4096 = 0)
    (hfit : s.pd.toNat + 1027 * 4096 ≤ 2 ^ 32) :
    ptmTable i t = { t with
      mem := enter s.pd i (t.kernelEnd + 3) (memset t.kernelEnd 0 4096 t.mem)
      kernelEnd := t.kernelEnd + 4096
      trace := .memset t.kernelEnd 4096 :: t.trace } := by
  have hend := h.toNat_kernelEnd hi hfit
  have hpdt : t.pd = s.pd := by rw [h.same]
  have hload : t.mem.load32 (t.pd + 4 * UInt32.ofNat i) = 0 := by rw [hpdt, h.entries i hi, if_neg (by omega)]
  simp only [ptmTable, hload, if_true, numPages_table, physEntry_eq, ← hpdt, Kernel.memset, Kernel.emit,
    enter, pde_eq (by omega : t.kernelEnd.toNat % 4096 = 0)]

/-- The words of the directory, when table `i` is made. -/
theorem TablesMade.load_word (h : TablesMade s t i) (hi : i < 1024)
    (hfit : s.pd.toNat + 1027 * 4096 ≤ 2 ^ 32) {w : ℕ} (hw : w < 2049) :
    (enter s.pd i (t.kernelEnd + 3) (memset t.kernelEnd 0 4096 t.mem)).load32 (s.pd + 4 * UInt32.ofNat w) =
      if w = i ∨ w = 1024 + i then t.kernelEnd + 3 else t.mem.load32 (s.pd + 4 * UInt32.ofNat w) := by
  have hend := h.toNat_kernelEnd hi hfit
  have haddr := toNat_word (a := s.pd) (i := w) (by omega)
  rw [load_enter hi (by omega) hw]
  refine if_congr Iff.rfl rfl (Mem.load32_congr ((eqOn_memset _ _ _ _).mono fun a ha => ?_))
  exact Set.disjoint_left.mp (disjoint_span (by omega) (by show _ + 4096 ≤ _; omega) (Or.inl (by omega))) ha

/-- The words of the tables so far, when table `i` is made. -/
theorem TablesMade.load_pte (h : TablesMade s t i) (hi : i < 1024)
    (hfit : s.pd.toNat + 1027 * 4096 ≤ 2 ^ 32) {q : ℕ} (hq : q < 1024 * (i + 1)) :
    (enter s.pd i (t.kernelEnd + 3) (memset t.kernelEnd 0 4096 t.mem)).load32 (pteAddr (s.pd + 12288) q) =
    0 := by
  have hend := h.toNat_kernelEnd hi hfit
  have hT : (s.pd + 12288).toNat = s.pd.toNat + 12288 := toNat_tables (by omega)
  have haddr : (pteAddr (s.pd + 12288) q).toNat = s.pd.toNat + 12288 + 4 * q := by
    rw [pteAddr, toNat_word (by omega), hT]
  have hdir : Set.EqOn (enter s.pd i (t.kernelEnd + 3) (memset t.kernelEnd 0 4096 t.mem))
      (memset t.kernelEnd 0 4096 t.mem) (span (pteAddr (s.pd + 12288) q) 4) := by
    refine (eqOn_enter hi (by omega)).mono fun a ha => ?_
    exact Set.disjoint_left.mp (disjoint_span (by omega) (by omega) (Or.inr (by omega))) ha
  rw [Mem.load32_congr hdir]
  by_cases hlt : q < 1024 * i
  · rw [← h.zero q hlt]
    refine Mem.load32_congr ((eqOn_memset _ _ _ _).mono fun a ha => ?_)
    exact Set.disjoint_left.mp (disjoint_span (by omega) (by show _ + 4096 ≤ _; omega) (Or.inl (by omega))) ha
  · refine Mem.load32_eq_zero fun b hb => memset_of_mem (span_subset_span ?_ (by omega) ?_ hb) 0 t.mem
    · show _ + 4096 ≤ _
      omega
    · show _ ≤ _ + 4096
      omega

/-- Making a table writes to it and to the directory. -/
theorem TablesMade.eqOn_mem (h : TablesMade s t i) (hi : i < 1024)
    (hfit : s.pd.toNat + 1027 * 4096 ≤ 2 ^ 32) :
    Set.EqOn (enter s.pd i (t.kernelEnd + 3) (memset t.kernelEnd 0 4096 t.mem)) s.mem
    (span s.pd (1027 * 4096))ᶜ := by
  have hend := h.toNat_kernelEnd hi hfit
  intro a ha
  rw [eqOn_enter hi (by omega) fun hmem => ha (span_mono (by omega) hmem), eqOn_memset _ _ _ _ fun hmem =>
    ha ?_, h.mem ha]
  exact span_subset_span hfit (by omega) (by show _ + 4096 ≤ _; omega) hmem

/-- **Making a table.** -/
theorem TablesMade.step (h : TablesMade s t i) (hi : i < 1024) (hpd : s.pd.toNat % 4096 = 0)
    (hfit : s.pd.toNat + 1027 * 4096 ≤ 2 ^ 32) : TablesMade s (ptmTable i t) (i + 1) := by
  have hend := h.toNat_kernelEnd hi hfit
  rw [h.ptmTable_eq hi hpd hfit]
  refine ⟨by rw [h.same], by rw [tableAt_succ, ← h.kernelEnd], fun j hj => ?_, fun j hj => ?_,
    fun q hq => h.load_pte hi hfit hq, h.eqOn_mem hi hfit, ?_⟩
  · rw [h.load_word hi hfit (by omega), h.entries j hj, h.kernelEnd]
    by_cases hji : j = i
    · simp [hji]
    · rw [if_neg (by omega)]
      exact if_congr (by omega) rfl rfl
  · rw [physEntry_eq, h.load_word hi hfit (by omega), h.kernelEnd]
    by_cases hji : j = i
    · simp [hji]
    · rw [if_neg (by omega), ← physEntry_eq]
      exact h.physEntries j (by omega)
  · obtain ⟨es, hes, hall⟩ := h.trace
    refine ⟨.memset t.kernelEnd 4096 :: es, by simp [hes], fun e he => ?_⟩
    rcases List.mem_cons.mp he with rfl | he
    · exact ⟨_, _, rfl, span_subset_span hfit (by omega) (by show _ + 4096 ≤ _; omega)⟩
    · exact hall e he

end TablesMade

/-- What `ptm_initialize` has done when it is about to lock the kernel. -/
structure Built (s t : Kernel) : Prop where
  same : t = { s with mem := t.mem, kernelEnd := t.kernelEnd, pd := t.pd, trace := t.trace }
  pd : t.pd = pageUp s.kernelEnd
  kernelEnd : t.kernelEnd = t.pd + 1027 * 4096
  /-- The pages below the kernel's end are mapped to themselves. -/
  holds : Holds (identity (t.kernelEnd.toNat / 4096)) t (t.pd + 12288)
  mem : Set.EqOn t.mem s.mem (span t.pd (1027 * 4096))ᶜ
  /-- The space was cleared, then the directory was complete, then pages were mapped. -/
  trace : ∃ es es', t.trace = es' ++ .directory t.pd :: (es ++ s.trace) ∧ (∀ e ∈ es, Clears t.pd e) ∧
    ∀ e ∈ es', MapEvent t.pd (t.pd + 12288) e

section Built

variable {s t : Kernel}

theorem ptmDirectory_eq (s : Kernel) : ptmDirectory s = { s with
    mem := (memset (pageUp s.kernelEnd) 0 12288 s.mem).store32 (pageUp s.kernelEnd + 8192)
      (pageUp s.kernelEnd)
    pd := pageUp s.kernelEnd
    kernelEnd := pageUp s.kernelEnd + 12288
    trace := .memset (pageUp s.kernelEnd) 12288 :: s.trace } := by
  simp only [ptmDirectory, numPages_directory, Kernel.memset, Kernel.emit]

/-- `ptm_initialize` lays the directory out empty. -/
theorem tablesMade_zero (hfit : (pageUp s.kernelEnd).toNat + 1027 * 4096 ≤ 2 ^ 32) :
    TablesMade (ptmDirectory s) (ptmDirectory s) 0 := by
  have hpd : (ptmDirectory s).pd = pageUp s.kernelEnd := by rw [ptmDirectory_eq]
  refine ⟨rfl, ?_, fun j hj => ?_, fun j hj => by omega, fun q hq => by omega, fun _ _ => rfl,
    [], rfl, fun e he => absurd he List.not_mem_nil⟩
  · rw [ptmDirectory_eq, tableAt]
    simp
  · have haddr := toNat_word (a := pageUp s.kernelEnd) (i := j) (by omega)
    have hphys : (pageUp s.kernelEnd + 8192).toNat = (pageUp s.kernelEnd).toNat + 8192 :=
      toNat_physical (by omega)
    rw [if_neg (by omega), hpd, ptmDirectory_eq,
      Mem.load32_store32_of_disjoint (disjoint_span (by omega) (by omega) (Or.inl (by omega)))]
    refine Mem.load32_eq_zero fun b hb => memset_of_mem (span_subset_span ?_ (by omega) ?_ hb) 0 s.mem
    · show _ + 12288 ≤ _
      omega
    · show _ ≤ _ + 12288
      omega

theorem eqOn_ptmDirectory (hfit : (pageUp s.kernelEnd).toNat + 1027 * 4096 ≤ 2 ^ 32) :
    Set.EqOn (ptmDirectory s).mem s.mem (span (pageUp s.kernelEnd) (1027 * 4096))ᶜ := by
  have hphys : (pageUp s.kernelEnd + 8192).toNat = (pageUp s.kernelEnd).toNat + 8192 :=
    toNat_physical (by omega)
  intro a ha
  have hstore : a ∉ span (pageUp s.kernelEnd + 8192) 4 :=
    fun h => ha (span_subset_span hfit (by omega) (by omega) h)
  have hclear : a ∉ span (pageUp s.kernelEnd) (12288 : UInt32).toNat := fun h => ha (span_mono (by decide) h)
  simp only [ptmDirectory_eq]
  rw [Mem.eqOn_store32 _ _ _ hstore, eqOn_memset _ _ _ _ hclear]

/-- The loop makes the tables. -/
theorem tablesMade (hpd : s.pd.toNat % 4096 = 0) (hfit : s.pd.toNat + 1027 * 4096 ≤ 2 ^ 32)
    (h : TablesMade s s 0) :
    TablesMade s (times 1024 ptmTable s) 1024 :=
  times_inv (P := fun i t => TablesMade s t i) h fun _ hi _ ht => ht.step hi hpd hfit

theorem toNat_space : (1027 * 4096 : UInt32).toNat = 1027 * 4096 := by decide

theorem TablesMade.kernelEnd_eq (h : TablesMade s t 1024) : t.kernelEnd = s.pd + 1027 * 4096 := by
  rw [h.kernelEnd, tableAt, UInt32.add_assoc]
  rfl

/-- With all tables made, they hold the address space in which nothing is mapped. -/
theorem TablesMade.holds (h : TablesMade s t 1024) (hpd : s.pd.toNat % 4096 = 0)
    (hfit : s.pd.toNat + 1027 * 4096 ≤ 2 ^ 32) : Holds (identity 0) t (t.pd + 12288) := by
  have hpdt : t.pd = s.pd := by rw [h.same]
  have hT : (s.pd + 12288).toNat = s.pd.toNat + 12288 := toNat_tables (by omega)
  refine ⟨?_, fun q hq => ?_⟩
  · rw [hpdt]
    refine ⟨hpd, by omega, by omega, by omega, fun i hi => ?_, fun i hi => h.physEntries i hi⟩
    rw [h.entries i hi, if_pos hi]
  · rw [hpdt]
    exact h.zero q hq

/-- The identity grows by a page. -/
theorem identity_succ {i : ℕ} (hi : i < 2 ^ 20) : ∃ p : Mapping, p.phys = UInt32.ofNat i * 4096 ∧
    p.isKernel = true ∧
    p.isWritable = true ∧ (identity i).map i p = identity (i + 1) := by
  have hphys : UInt32.ofNat i * 4096 = UInt32.ofNat (i * 4096) := by rw [UInt32.ofNat_mul]; rfl
  refine ⟨⟨UInt32.ofNat i * 4096, true, true, ?_⟩, rfl, rfl, rfl, funext fun q => ?_⟩
  · rw [hphys, UInt32.toNat_ofNat']
    omega
  · by_cases hq : q = i
    · subst hq
      rw [AddressSpace.map_self, identity, if_neg (Nat.lt_irrefl q), identity, if_pos (Nat.lt_succ_self q)]
      simp only [hphys]
      rfl
    · rw [AddressSpace.map_of_ne hq, identity, identity]
      by_cases hlt : q < i
      · rw [if_pos hlt, if_pos (by omega)]
      · rw [if_neg hlt, if_neg (by omega)]

/-- The loop that maps the kernel's pages to themselves. -/
theorem Holds.ptmIdentity {tables : UInt32} (h : Holds (identity 0) s tables) :
    ∃ t, ptmIdentity s = .ok ⟨⟩ t ∧ Holds (identity ((s.kernelEnd.toNat + 4095) / 4096)) t tables ∧
    MapFrame tables s t := by
  have hlt := s.kernelEnd.toNat_lt
  refine timesM_inv (P := fun i t => Holds (identity i) t tables ∧
    MapFrame tables s t) ⟨h, MapFrame.refl tables s⟩ ?_
  rintro i hi t ⟨ht, hst⟩
  obtain ⟨p, hphys, hkernel, hwritable, hmap⟩ := identity_succ (i := i) (by omega)
  obtain ⟨u, hu, hA, htu⟩ := ht.ptmMapAddr (UInt32.ofNat i * 4096) p
  rw [hphys, hkernel, hwritable] at hu
  rw [toNat_frame (by omega), hmap] at hA
  exact ⟨u, hu, hA, hst.trans htu⟩

/-- Mapping does not move the space. -/
theorem TablesMade.built_of_mapFrame {s t u : Kernel} (h : TablesMade (ptmDirectory s) t 1024)
    (hfit : (pageUp s.kernelEnd).toNat + 1027 * 4096 ≤ 2 ^ 32)
    (hmap : MapFrame (t.pd + 12288) (t.emit (.directory t.pd)) u)
    (hu : Holds (identity (u.kernelEnd.toNat / 4096)) u (t.pd + 12288)) : Built s u := by
  have hpd : t.pd = pageUp s.kernelEnd := by rw [h.same, ptmDirectory_eq]
  have hdir : (ptmDirectory s).pd = pageUp s.kernelEnd := by rw [ptmDirectory_eq]
  have hupd : u.pd = t.pd := hmap.pd_eq
  have htables : (pageUp s.kernelEnd + 12288).toNat = (pageUp s.kernelEnd).toNat + 12288 :=
    toNat_tables (by omega)
  refine ⟨?_, hupd.trans hpd, ?_, hupd ▸ hu, fun a ha => ?_, ?_⟩
  · rw [hmap.same, h.same, ptmDirectory_eq]
    rfl
  · have : u.kernelEnd = t.kernelEnd := by rw [hmap.same]; rfl
    rw [this, h.kernelEnd_eq, hupd, hpd, hdir]
  · rw [hupd, hpd] at ha
    have hoff : a ∉ span (pageUp s.kernelEnd + 12288) (4 * 2 ^ 20) :=
      fun hmem => ha (span_subset_span hfit (by omega) (by omega) hmem)
    have hmade : a ∈ (span (ptmDirectory s).pd (1027 * 4096))ᶜ := hdir ▸ ha
    rw [← hpd] at hoff
    rw [hmap.mem hoff, Kernel.emit_mem, h.mem hmade, eqOn_ptmDirectory hfit ha]
  · obtain ⟨es, hes, hall⟩ := h.trace
    obtain ⟨es', hes', hall'⟩ := hmap.trace
    rw [hdir] at hall
    rw [hupd]
    refine ⟨es ++ [.memset (pageUp s.kernelEnd) 12288], es', ?_, ?_, hall'⟩
    · rw [hes', Kernel.emit_trace, hes, ptmDirectory_eq, List.append_assoc, List.singleton_append]
    · intro e he
      rw [hpd]
      rcases List.mem_append.mp he with he | he
      · exact hall e he
      · rw [List.mem_singleton.mp he]
        exact ⟨_, _, rfl, span_mono (by decide)⟩

/-- **`ptm_initialize` builds the page tables, then locks the kernel and loads them.** -/
theorem ptmInitialize_eq (s : Kernel) (hfit : roundUp s.kernelEnd.toNat + 1027 * 4096 ≤ 2 ^ 32) :
    ∃ t, Built s t ∧ ptmInitialize s = .ok ⟨⟩ (ptmLoad (ptmLockKernel t)) := by
  have hup := toNat_pageUp (a := s.kernelEnd) (by omega)
  have hdir : (ptmDirectory s).pd = pageUp s.kernelEnd := by rw [ptmDirectory_eq]
  have haligned : (pageUp s.kernelEnd).toNat % 4096 = 0 := by
    rw [hup, roundUp]
    omega
  rw [← hup] at hfit
  obtain ⟨t, ht⟩ : ∃ t, t = times 1024 ptmTable (ptmDirectory s) := ⟨_, rfl⟩
  have hmade : TablesMade (ptmDirectory s) t 1024 := by
    rw [ht]
    exact tablesMade (by rwa [hdir]) (by rwa [hdir]) (tablesMade_zero hfit)
  have hempty : Holds (identity 0) (t.emit (.directory t.pd)) (t.pd + 12288) := by
    obtain ⟨hin, hentry⟩ := hmade.holds (by rwa [hdir]) (by rwa [hdir])
    exact ⟨hin, hentry⟩
  obtain ⟨u, hu, hholds, hmap⟩ := hempty.ptmIdentity
  have hend : u.kernelEnd = t.kernelEnd := by rw [hmap.same]; rfl
  have hpage : (t.kernelEnd.toNat + 4095) / 4096 = t.kernelEnd.toNat / 4096 := by
    have : t.kernelEnd.toNat % 4096 = 0 := by
      rw [hmade.kernelEnd_eq, hdir, UInt32.toNat_add, toNat_space]
      omega
    omega
  refine ⟨u, hmade.built_of_mapFrame hfit hmap ?_, ?_⟩
  · rw [hend, ← hpage]
    exact hholds
  · rw [ptmInitialize, bind_of_ok (modify_apply ..), bind_of_ok (modify_apply ..), ← ht,
      bind_of_ok (modify_apply ..), bind_of_ok hu, bind_of_ok (modify_apply ..), modify_apply]

end Built

/-! ### Whatever the state -/

/-- From `s` to `t` pages were mapped in the directory of `s` only. -/
def MapsIn (s t : Kernel) : Prop :=
  t.pd = s.pd ∧ Emits (fun e => ∀ pd addr, e = .mapAddr pd addr → pd = s.pd) s t

instance : Std.Refl MapsIn := ⟨fun s => ⟨rfl, Emits.refl s⟩⟩

instance : IsTrans Kernel MapsIn := ⟨fun _ _ _ ⟨hpd, h⟩ ⟨hpd', h'⟩ => ⟨hpd'.trans hpd, h.trans (hpd ▸ h')⟩⟩

theorem mapsIn_of_same {s t : Kernel} (hpd : t.pd = s.pd) (htrace : t.trace = s.trace) : MapsIn s t :=
  ⟨hpd, Emits.of_trace htrace⟩

theorem ptmMapAddr_mapsIn (addr physAddr : UInt32) (isKernel isWritable : Bool) :
    Along MapsIn (ptmMapAddr addr physAddr isKernel isWritable) := by
  intro s
  have hcall : MapsIn s (s.emit (.mapAddr s.pd addr)) := by
    refine ⟨rfl, emits_emit ?_ s⟩
    rintro pd addr' ⟨⟩
    rfl
  simp only [ptmMapAddr]
  split
  · exact hcall
  · refine IsTrans.trans _ _ _ hcall ?_
    simp only [stop, ptmWriteEntry]
    split
    · refine ⟨rfl, emits_emit ?_ _⟩
      rintro pd addr' ⟨⟩
    · exact Std.Refl.refl _

theorem Marks.mapsIn {value : Bool} {F : Set ℕ} {s t : Kernel} (h : Marks value F s t) : MapsIn s t :=
  mapsIn_of_same (by rw [h.same]) (by rw [h.same])

theorem ptmTable_quiet (index : ℕ) (s : Kernel) : Emits Event.Quiet s (ptmTable index s) := by
  simp only [ptmTable]
  split
  · exact emits_emit (e := .memset s.kernelEnd (numPages 4096 * 4096)) trivial s
  · exact Emits.refl s

/-- **`ptm_initialize` maps pages only after it has filled the directory**, and only in it, also
when it aborts. -/
theorem ptmInitialize_along (s : Kernel) : ∃ t, Emits Event.Quiet s t ∧
    MapsIn (t.emit (.directory t.pd)) (stop (ptmInitialize s)) := by
  have hdir : Emits Event.Quiet s (ptmDirectory s) := by
    rw [ptmDirectory_eq]
    exact emits_emit (e := .memset (pageUp s.kernelEnd) 12288) trivial s
  have htables : Emits Event.Quiet s (times 1024 ptmTable (ptmDirectory s)) :=
    times_inv (P := fun _ t => Emits Event.Quiet s t) hdir fun i _ t ht => ht.trans (ptmTable_quiet i t)
  obtain ⟨t, ht⟩ : ∃ t, t = times 1024 ptmTable (ptmDirectory s) := ⟨_, rfl⟩
  refine ⟨t, ht ▸ htables, ?_⟩
  rw [ptmInitialize, bind_of_ok (modify_apply ..), bind_of_ok (modify_apply ..), ← ht,
    bind_of_ok (modify_apply ..)]
  have hidentity : Along MapsIn ptmIdentity := Along.get.bind fun _ => Along.timesM fun _ =>
    ptmMapAddr_mapsIn _ _ _ _
  have hlock : Along MapsIn (modify ptmLockKernel : KernelM PUnit) :=
    Along.modify fun u => (pfaLockPages_marks _ _ u).mapsIn
  have hload : Along MapsIn (modify ptmLoad : KernelM PUnit) :=
    Along.modify fun u => mapsIn_of_same (ptmLoad_pd u) (ptmLoad_trace u)
  exact (hidentity.bind fun _ => hlock.bind fun _ => hload) _

end JurasOS
