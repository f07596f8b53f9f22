import JurasOS.Drivers.Pci

/-!
# `acpi.c`

`acpi_init` looks for the MCFG among the tables of the RSDT and has the buses of its
records scanned. When there is none, `acpi_find_table` returns 0, and the records are
looked for there.
-/

namespace JurasOS

open Machine

/-- The number of table pointers of the RSDT. -/
def rsdtEntries (m : Mem) (rsdt : UInt32) : ℕ := ((m.load32 (rsdt + 4) - 36) / 4).toNat

/-- The address of the table pointer `i`. -/
def rsdtPointer (rsdt : UInt32) (i : ℕ) : UInt32 := rsdt + 36 + UInt32.ofNat i * 4

/-- `!strncmp(table->signature, signature, 4)`. -/
def hasSignature (m : Mem) (signature : List UInt8) (table : UInt32) : Bool :=
  strncmp (fun i => m (table + UInt32.ofNat i)) (fun i => signature.getD i 0) 4 = 0

/-- An iteration of the loop of `acpi_find_table`. -/
def findTableStep (stdHeader : UInt32) (signature : List UInt8) (entries i : ℕ) : KernelM (ℕ ⊕ UInt32) := do
  if i < entries then
    modify (Kernel.emit (.rsdtPointer (rsdtPointer stdHeader i)))
    let newSdtHeader ← load32 (rsdtPointer stdHeader i)
    modify (Kernel.emit (.sdtHeader newSdtHeader))
    let s ← get
    if hasSignature s.mem signature newSdtHeader then pure (.inr newSdtHeader) else pure (.inl (i + 1))
  else pure (.inr 0)

/-- `acpi_find_table`. -/
def acpiFindTable (stdHeader : UInt32) (signature : List UInt8) : KernelM UInt32 := do
  modify (Kernel.emit (.sdtHeader stdHeader))
  let s ← get
  let entries := rsdtEntries s.mem stdHeader
  loopM .running (findTableStep stdHeader signature entries) (entries + 1) 0

/-- `"MCFG"`. -/
def mcfgSignature : List UInt8 := [0x4D, 0x43, 0x46, 0x47]

/-- `((acpi_rsdp_t *)(tags->acpi_old->rsdp))->rsdt_address`. -/
def Kernel.rsdt (s : Kernel) : UInt32 := s.mem.load32 (s.tags.acpiOld + 24)

/-- `acpi_init`. -/
def acpiInit (fuel : ℕ) : KernelM PUnit := do
  let s ← get
  if s.tags.acpiOld = 0 then throw .panic
  else
    let mcfg ← acpiFindTable s.rsdt mcfgSignature
    pciEnumerate fuel mcfg

/-! ### What it finds -/

/-- The first table with a signature, or 0. -/
def acpiTable (m : Mem) (rsdt : UInt32) (signature : List UInt8) : UInt32 :=
  match (List.range (rsdtEntries m rsdt)).find? fun i =>
    hasSignature m signature (m.load32 (rsdtPointer rsdt i)) with
  | some i => m.load32 (rsdtPointer rsdt i)
  | none => 0

/-- The MCFG that `acpi_init` will find has a bus to scan. -/
def FindsBus (s : Kernel) : Prop := s.tags.acpiOld ≠ 0 ∧ HasBus s.mem (acpiTable s.mem s.rsdt mcfgSignature)

section acpiInit

variable {s t : Kernel} {rsdt : UInt32} {signature : List UInt8} {entries i : ℕ}

/-- A signature is four bytes. -/
theorem hasSignature_congr {m m' : Mem} {table : UInt32} (h : Set.EqOn m m' (span table 4)) :
    hasSignature m signature table = hasSignature m' signature table := by
  have hbytes : ∀ i < 4, m (table + UInt32.ofNat i) = m' (table + UInt32.ofNat i) :=
    fun i hi => h (add_ofNat_mem_span hi (by omega))
  rw [hasSignature, hasSignature, strncmp_congr hbytes]

/-- The only table is found, if it has the signature. -/
theorem acpiTable_of_one {m : Mem} {table : UInt32} (hentries : rsdtEntries m rsdt = 1)
    (hpointer : m.load32 (rsdtPointer rsdt 0) = table) (hsignature : hasSignature m signature table = true) :
    acpiTable m rsdt signature = table := by
  rw [acpiTable, hentries, show List.range 1 = [0] from rfl,
    List.find?_cons_of_pos (by rw [hpointer, hsignature])]
  exact hpointer

/-- An iteration reads a pointer, and the header that it points at. -/
theorem findTableStep_of_lt (rsdt : UInt32) (signature : List UInt8) (hi : i < entries) (s : Kernel) :
    findTableStep rsdt signature entries i s =
      .ok (if hasSignature s.mem signature (s.mem.load32 (rsdtPointer rsdt i)) then
          .inr (s.mem.load32 (rsdtPointer rsdt i))
        else .inl (i + 1))
        ((s.emit (.rsdtPointer (rsdtPointer rsdt i))).emit
          (.sdtHeader (s.mem.load32 (rsdtPointer rsdt i)))) := by
  rw [findTableStep, if_pos hi, bind_of_ok (modify_apply ..), bind_of_ok (load32_apply ..),
    bind_of_ok (modify_apply ..), bind_of_ok (get_apply _), Kernel.emit_mem, Kernel.emit_mem]
  split <;> rfl

/-- It only looks at the memory. -/
theorem looks_findTableStep (rsdt : UInt32) (i : ℕ) (s : Kernel) : Looks s
    ((s.emit (.rsdtPointer (rsdtPointer rsdt i))).emit (.sdtHeader (s.mem.load32 (rsdtPointer rsdt i)))) :=
  (looks_emit (by trivial) s).trans (looks_emit (by trivial) _)

theorem findTableStep_of_not_lt (hi : ¬ i < entries) (s : Kernel) :
    findTableStep rsdt signature entries i s = .ok (.inr 0) s := by
  rw [findTableStep, if_neg hi, pure_apply]

/-- Where the loop over the table pointers ends: before that there is no match, and it ends with the table. -/
theorem exists_findTable_end (rsdt : UInt32) (signature : List UInt8) (s : Kernel) :
    ∃ k ≤ rsdtEntries s.mem rsdt,
      (∀ i < k, i < rsdtEntries s.mem rsdt ∧
        ¬ hasSignature s.mem signature (s.mem.load32 (rsdtPointer rsdt i))) ∧
      ∀ t, Looks s t → ∃ u, findTableStep rsdt signature (rsdtEntries s.mem rsdt) k t =
        .ok (.inr (acpiTable s.mem rsdt signature)) u ∧ Looks s u := by
  rw [acpiTable]
  cases hfind : (List.range (rsdtEntries s.mem rsdt)).find?
      fun i => hasSignature s.mem signature (s.mem.load32 (rsdtPointer rsdt i)) with
  | some k =>
    obtain ⟨hmatch, hk, hbefore⟩ := List.find?_range_eq_some.mp hfind
    rw [List.mem_range] at hk
    refine ⟨k, hk.le, fun i hi => ⟨lt_trans hi hk, by simpa using hbefore i hi⟩, fun t ht => ?_⟩
    have hstep := findTableStep_of_lt rsdt signature hk t
    have hlooks := looks_findTableStep rsdt k t
    rw [ht.mem] at hstep hlooks
    rw [if_pos hmatch] at hstep
    exact ⟨_, hstep, ht.trans hlooks⟩
  | none =>
    have hnone := List.find?_range_eq_none.mp hfind
    exact ⟨_, le_rfl, fun i hi => ⟨hi, by simpa using hnone i hi⟩, fun t ht =>
      ⟨t, findTableStep_of_not_lt (lt_irrefl _) t, ht⟩⟩

/-- `acpi_find_table` returns the first table with the signature. -/
theorem acpiFindTable_ok (rsdt : UInt32) (signature : List UInt8) (s : Kernel) :
    ∃ t, acpiFindTable rsdt signature s = .ok (acpiTable s.mem rsdt signature) t ∧ Looks s t := by
  have hstart : Looks s (s.emit (.sdtHeader rsdt)) := looks_emit (by trivial) s
  rw [acpiFindTable, bind_of_ok (modify_apply ..), bind_of_ok (get_apply _), Kernel.emit_mem]
  obtain ⟨k, hk, hgo, hend⟩ := exists_findTable_end rsdt signature s
  have hbody : ∀ i < k, ∀ a t, a = i ∧ Looks s t →
    ∃ a' t', findTableStep rsdt signature (rsdtEntries s.mem rsdt) a t =
      .ok (.inl a') t' ∧ a' = i + 1 ∧ Looks s t' := by
    rintro _ hi i t ⟨rfl, ht⟩
    obtain ⟨hlt, hnot⟩ := hgo i hi
    have hstep := findTableStep_of_lt rsdt signature hlt t
    have hlooks := looks_findTableStep rsdt i t
    rw [ht.mem] at hstep hlooks
    rw [if_neg hnot] at hstep
    exact ⟨i + 1, _, hstep, rfl, ht.trans hlooks⟩
  obtain ⟨b, t, hrun, rfl, ht⟩ := loopM_inv (P := fun i a t => a = i ∧ Looks s t)
    (Q := fun b t => b = acpiTable s.mem rsdt signature ∧ Looks s t) hbody
    (fun a t ⟨ha, ht⟩ => by
      obtain ⟨u, hstep, hu⟩ := hend t ht
      exact ⟨_, u, ha ▸ hstep, rfl, hu⟩)
    0 (rsdtEntries s.mem rsdt + 1) (Nat.zero_le k) (by omega) ⟨rfl, hstart⟩
  exact ⟨t, hrun, ht⟩

/-- With an RSDP and no bus to scan, `acpi_init` comes to its end, and only looks. -/
theorem acpiInit_ok (fuel : ℕ) (hold : s.tags.acpiOld ≠ 0) (h : ¬ FindsBus s) :
    ∃ t, acpiInit fuel s = .ok ⟨⟩ t ∧ Looks s t := by
  obtain ⟨t, hfind, ht⟩ := acpiFindTable_ok s.rsdt mcfgSignature s
  have hbus : ¬ HasBus t.mem (acpiTable s.mem s.rsdt mcfgSignature) := fun hbus => h ⟨hold, ht.mem ▸ hbus⟩
  obtain ⟨u, hscan, hu⟩ := pciEnumerate_of_not_hasBus fuel hbus
  refine ⟨u, ?_, ht.trans hu⟩
  rw [acpiInit, bind_of_ok (get_apply s), if_neg hold, bind_of_ok hfind, hscan]

/-- Without a bus to scan, `acpi_init` maps nothing. -/
theorem acpiInit_of_not_findsBus (fuel : ℕ) (h : ¬ FindsBus s) : Looks s (stop (acpiInit fuel s)) := by
  by_cases hold : s.tags.acpiOld = 0
  · rw [acpiInit, bind_of_ok (get_apply s), if_pos hold]
    exact Std.Refl.refl s
  · obtain ⟨t, hrun, ht⟩ := acpiInit_ok fuel hold h
    rw [hrun]
    exact ht

/-- With a bus to scan, `acpi_init` calls `ptm_map_addr` before it has done more than looking. -/
theorem acpiInit_of_findsBus (fuel : ℕ) (h : FindsBus s) :
    ∃ t addr, Looks s t ∧ GoesOn (t.emit (.mapAddr t.pd addr)) (stop (acpiInit fuel s)) := by
  obtain ⟨hold, hbus⟩ := h
  obtain ⟨t, hfind, ht⟩ := acpiFindTable_ok s.rsdt mcfgSignature s
  rw [← ht.mem] at hbus
  obtain ⟨u, addr, hu, hmap⟩ := pciEnumerate_of_hasBus fuel hbus
  refine ⟨u, addr, ht.trans hu, ?_⟩
  rwa [acpiInit, bind_of_ok (get_apply s), if_neg hold, bind_of_ok hfind, ← ht.mem]

end acpiInit

/-- What the drivers do step by step, `acpi_init` does. -/
theorem ScanSteps.acpiInit {R : Kernel → Kernel → Prop} [Std.Refl R] [IsTrans Kernel R] (h : ScanSteps R)
    (fuel : ℕ) : Along R (acpiInit fuel) := by
  have hstep : ∀ stdHeader signature entries i, Along R (findTableStep stdHeader signature entries i) :=
    fun stdHeader signature entries i => Along.ite
      ((Along.modify (h.table (by trivial))).bind fun _ => (load32_along _).bind fun _ =>
        (Along.modify (h.table (by trivial))).bind fun _ => Along.get.bind fun _ =>
          (Along.pure _).ite (Along.pure _))
      (Along.pure _)
  have hfind : ∀ stdHeader signature, Along R (acpiFindTable stdHeader signature) :=
    fun stdHeader signature =>
    (Along.modify (h.table (by trivial))).bind fun _ => Along.get.bind fun _ =>
      Along.loopM (hstep stdHeader signature _) _ _
  exact Along.get.bind fun s => (Along.throw _).ite
    ((hfind _ _).bind fun mcfg => h.pciEnumerate fuel mcfg)

end JurasOS
