import JurasOS.Boot.Acpi
import JurasOS.Machine.Output

/-!
# Walks over the firmware tables

`acpi_find_table` and `pci_enumerate` go over the entries of a table that begins with a
header and has its length in it. The number of entries is the length less the
header's, divided by the size of an entry, as unsigned numbers: it is right for every
length that has room for the header, and goes past the table for the others.
-/

namespace JurasOS

open Machine

/-- The address of a table pointer that was read. -/
def Event.pointerRead : Event → Option UInt32
  | .rsdtPointer a => some a
  | _ => none

/-- The address of an allocation record that was read. -/
def Event.recordRead : Event → Option UInt32
  | .mcfgRecord a => some a
  | _ => none

/-- The addresses of what was read, the latest first. -/
def Kernel.reads (read : Event → Option UInt32) (s : Kernel) : List UInt32 := s.trace.filterMap read

/-- The length of a table. -/
def tableLength (m : Mem) (table : UInt32) : UInt32 := m.load32 (table + 4)

/-- From `s` to `t` the entries that were read, of `size` bytes, lie in the table, and are no more
than fit. -/
def ReadsInside (read : Event → Option UInt32) (table length : UInt32) (size : ℕ) (s t : Kernel) : Prop :=
  ∃ l, t.reads read = l ++ s.reads read ∧ (∀ a ∈ l, span a size ⊆ span table length.toNat) ∧
    l.length ≤ length.toNat / size

/-- From `s` to `t` the first `k` entries of the table were read. -/
def ReadsEntries (read : Event → Option UInt32) (entry : ℕ → UInt32) (k : ℕ) (s t : Kernel) : Prop :=
  t.reads read = ((List.range k).map entry).reverse ++ s.reads read

section ReadsEntries

variable {read : Event → Option UInt32} {s t : Kernel} {table length : UInt32} {entry : ℕ → UInt32}
  {header size k : ℕ}

/-- The first entries of a table are inside it exactly when it has room for its header, if they are
the entries that the unsigned numbers come to, and the first one is among them. -/
theorem ReadsEntries.inside_iff (h : ReadsEntries read entry k s t) (hsize : 0 < size)
    (hheader : header + size < 2 ^ 32) (hentry : ∀ i, entry i = table + UInt32.ofNat (header + i * size))
    (hle : k ≤ ((length - UInt32.ofNat header) / UInt32.ofNat size).toNat)
    (hfirst : 0 < ((length - UInt32.ofNat header) / UInt32.ofNat size).toNat → 0 < k) :
    ReadsInside read table length size s t ↔ header ≤ length.toNat := by
  have hlt := length.toNat_lt
  have hdiv : ((length - UInt32.ofNat header) / UInt32.ofNat size).toNat =
      (2 ^ 32 - header + length.toNat) % 2 ^ 32 / size := by
    rw [UInt32.toNat_div, UInt32.toNat_sub, UInt32.toNat_ofNat', UInt32.toNat_ofNat',
      Nat.mod_eq_of_lt (by omega : header < 2 ^ 32), Nat.mod_eq_of_lt (by omega : size < 2 ^ 32)]
  rw [hdiv] at hle hfirst
  constructor
  · rintro ⟨l, hl, hinside, -⟩
    by_contra hshort
    -- The length wraps, and the first entry begins after the table.
    have hpos : 0 < (2 ^ 32 - header + length.toNat) % 2 ^ 32 / size := Nat.div_pos (by omega) hsize
    have hmem : entry 0 ∈ l := by
      rw [h] at hl
      rw [← List.append_cancel_right hl, List.mem_reverse, List.mem_map]
      exact ⟨0, List.mem_range.mpr (hfirst hpos), rfl⟩
    have hbyte := hinside _ hmem (add_ofNat_mem_span (i := 0) hsize (by omega))
    rw [hentry, mem_span] at hbyte
    simp only [Nat.zero_mul, Nat.add_zero] at hbyte
    rw [UInt32.add_assoc, UInt32.add_comm, UInt32.add_sub_cancel, ← UInt32.ofNat_add, Nat.add_zero,
      UInt32.toNat_ofNat', Nat.mod_eq_of_lt (by omega)] at hbyte
    omega
  · intro hroom
    have hcount : (2 ^ 32 - header + length.toNat) % 2 ^ 32 = length.toNat - header := by omega
    rw [hcount] at hle
    refine ⟨_, h, fun a ha => ?_, ?_⟩
    · obtain ⟨i, hi, rfl⟩ := List.mem_map.mp (List.mem_reverse.mp ha)
      rw [List.mem_range] at hi
      have hend := (Nat.le_div_iff_mul_le hsize).mp (le_trans (Nat.succ_le_of_lt hi) hle)
      rw [Nat.succ_mul] at hend
      rw [hentry]
      refine span_offset_subset ?_
      rw [UInt32.toNat_ofNat', Nat.mod_eq_of_lt (by omega)]
      omega
    · rw [List.length_reverse, List.length_map, List.length_range]
      exact hle.trans (Nat.div_le_div_right (Nat.sub_le _ _))

end ReadsEntries

/-! ### The table pointers -/

section acpiFindTable

variable {m : Mem} {rsdt : UInt32} {signature : List UInt8} {entries i : ℕ}

theorem rsdtPointer_eq (rsdt : UInt32) (i : ℕ) : rsdtPointer rsdt i = rsdt + UInt32.ofNat (36 + i * 4) := by
  rw [rsdtPointer, UInt32.ofNat_add, UInt32.ofNat_mul, ← UInt32.add_assoc]
  rfl

/-- An iteration reads the pointer of its number. -/
theorem findTableStep_outputs (m : Mem) (rsdt : UInt32) (signature : List UInt8) (hi : i < entries)
    (before : List UInt32) :
    Outputs (fun _ s => s.mem = m) (Kernel.reads Event.pointerRead) before
      (findTableStep rsdt signature entries i)
      (if hasSignature m signature (m.load32 (rsdtPointer rsdt i)) then
        .inr (m.load32 (rsdtPointer rsdt i)) else .inl (i + 1)) [rsdtPointer rsdt i] := by
  rintro s rfl
  exact ⟨_, findTableStep_of_lt rsdt signature hi s, rfl, rfl⟩

theorem findTableStep_end_outputs (hi : ¬ i < entries) (before : List UInt32) :
    Outputs (fun _ s => s.mem = m) (Kernel.reads Event.pointerRead) before
      (findTableStep rsdt signature entries i) (.inr 0) [] := by
  intro s hs
  exact ⟨s, findTableStep_of_not_lt hi s, hs, rfl⟩

/-- The loop reads the first pointers of the table: up to one whose header has the signature, or all. -/
theorem findTableLoop_outputs (m : Mem) (rsdt : UInt32) (signature : List UInt8) (entries : ℕ) :
    ∃ table k, k ≤ entries ∧ (0 < entries → 0 < k) ∧
      Outputs (fun _ s => s.mem = m) (Kernel.reads Event.pointerRead) []
        (loopM .running (findTableStep rsdt signature entries) (entries + 1) 0) table
        ((List.range k).map (rsdtPointer rsdt)) := by
  cases hfind : (List.range entries).find? fun i =>
    hasSignature m signature (m.load32 (rsdtPointer rsdt i)) with
  | some k =>
    obtain ⟨hmatch, hk, hbefore⟩ := List.find?_range_eq_some.mp hfind
    rw [List.mem_range] at hk
    refine ⟨m.load32 (rsdtPointer rsdt k), k + 1, hk, fun _ => Nat.succ_pos k, ?_⟩
    rw [List.range_succ, List.map_append, List.map_eq_flatMap]
    refine Outputs.loopM_last (a := fun i => i) (fun i hi => ?_) ?_ (by omega)
    · have hstep := findTableStep_outputs m rsdt signature (lt_trans hi hk)
        ([] ++ (List.range i).flatMap fun i => [rsdtPointer rsdt i])
      rwa [if_neg (by simpa using hbefore i hi)] at hstep
    · have hstep := findTableStep_outputs m rsdt signature hk
        ([] ++ (List.range k).flatMap fun i => [rsdtPointer rsdt i])
      rwa [if_pos hmatch] at hstep
  | none =>
    have hnone := List.find?_range_eq_none.mp hfind
    refine ⟨0, entries, le_rfl, id, ?_⟩
    rw [List.map_eq_flatMap]
    refine Outputs.loopM (a := fun i => i) (fun i hi => ?_) (findTableStep_end_outputs (lt_irrefl _) _)
      (Nat.lt_succ_self _)
    have hstep := findTableStep_outputs m rsdt signature hi
      ([] ++ (List.range i).flatMap fun i => [rsdtPointer rsdt i])
    rwa [if_neg (by simpa using hnone i hi)] at hstep

/-- **`acpi_find_table` comes to its end**, and has read the first pointers of the table. -/
theorem acpiFindTable_reads (rsdt : UInt32) (signature : List UInt8) (s : Kernel) :
    ∃ table t k, acpiFindTable rsdt signature s = .ok table t ∧ k ≤ rsdtEntries s.mem rsdt ∧
      (0 < rsdtEntries s.mem rsdt → 0 < k) ∧
      ReadsEntries Event.pointerRead (rsdtPointer rsdt) k s t := by
  obtain ⟨table, k, hk, hpos, hloop⟩ := findTableLoop_outputs s.mem rsdt signature (rsdtEntries s.mem rsdt)
  obtain ⟨t, hrun, -, hout⟩ := hloop (s.emit (.sdtHeader rsdt)) rfl
  refine ⟨table, t, k, ?_, hk, hpos, hout⟩
  rw [acpiFindTable, bind_of_ok (modify_apply ..), bind_of_ok (get_apply _), Kernel.emit_mem, hrun]

/-- It reads pointers inside the RSDT exactly when that has room for its header. -/
theorem acpiFindTable_inside_iff (rsdt : UInt32) (signature : List UInt8) (s : Kernel) :
    (∃ table t, acpiFindTable rsdt signature s = .ok table t ∧
      ReadsInside Event.pointerRead rsdt (tableLength s.mem rsdt) 4 s t) ↔
      36 ≤ (tableLength s.mem rsdt).toNat := by
  obtain ⟨table, t, k, hrun, hk, hpos, hreads⟩ := acpiFindTable_reads rsdt signature s
  have hiff : ReadsInside Event.pointerRead rsdt (tableLength s.mem rsdt) 4 s t ↔
      36 ≤ (tableLength s.mem rsdt).toNat :=
    hreads.inside_iff (by decide) (by decide) (rsdtPointer_eq rsdt) hk hpos
  rw [← hiff]
  constructor
  · rintro ⟨table', t', hrun', hinside⟩
    rw [hrun] at hrun'
    cases hrun'
    exact hinside
  · exact fun hinside => ⟨table, t, hrun, hinside⟩

end acpiFindTable

/-! ### The allocation records -/

section pciEnumerate

variable {s t : Kernel}

theorem mcfgRecord_eq (mcfg : UInt32) (i : ℕ) : mcfgRecord mcfg i = mcfg + UInt32.ofNat (44 + i * 16) := by
  rw [mcfgRecord, UInt32.ofNat_add, UInt32.ofNat_mul, UInt32.mul_comm, ← UInt32.add_assoc]
  rfl

/-- What the scan of the buses of a record does reads no record. -/
theorem busSteps_sameRecords :
    BusSteps fun s t : Kernel => t.reads Event.recordRead = s.reads Event.recordRead where
  emit {e} he s := by
    cases e with
    | mcfgRecord a => exact he.elim
    | _ => rfl
  change _ _ _ _ _ := rfl
  ahciInit _ _ := rfl

/-- An iteration reads the record of its number, once. -/
theorem pciEnumerateRecord_reads (fuel : ℕ) (record : UInt32) (s : Kernel) :
    (stop (pciEnumerateRecord fuel record s)).reads Event.recordRead =
    record :: s.reads Event.recordRead := by
  have hrefl : Std.Refl fun s t : Kernel => t.reads Event.recordRead = s.reads Event.recordRead :=
    ⟨fun _ => rfl⟩
  have htrans : IsTrans Kernel fun s t => t.reads Event.recordRead = s.reads Event.recordRead :=
    ⟨fun _ _ _ h h' => h'.trans h⟩
  rw [pciEnumerateRecord, bind_of_ok (modify_apply ..), bind_of_ok (get_apply _)]
  exact Along.loopM (busSteps_sameRecords.busStep fuel record) 256 _ (s.emit (.mcfgRecord record))

/-- `pci_enumerate` has read the first records of the table, wherever it stops. -/
theorem pciEnumerate_reads (fuel : ℕ) (mcfg : UInt32) (s : Kernel) :
    ∃ k ≤ mcfgEntries s.mem mcfg, (0 < mcfgEntries s.mem mcfg → 0 < k) ∧
      ReadsEntries Event.recordRead (mcfgRecord mcfg) k s (stop (pciEnumerate fuel mcfg s)) := by
  obtain ⟨k, hk, hpos, -, hout⟩ := stop_timesM_out (n := mcfgEntries s.mem mcfg) (mcfgRecord mcfg)
    (fun i t => pciEnumerateRecord_reads fuel (mcfgRecord mcfg i) t) (s.emit (.sdtHeader mcfg))
  rw [← pciEnumerate_eq] at hout
  exact ⟨k, hk, hpos, hout⟩

/-- It reads records inside the MCFG exactly when that has room for its header. -/
theorem pciEnumerate_inside_iff (fuel : ℕ) (mcfg : UInt32) (s : Kernel) :
    ReadsInside Event.recordRead mcfg (tableLength s.mem mcfg) 16 s (stop (pciEnumerate fuel mcfg s)) ↔
      44 ≤ (tableLength s.mem mcfg).toNat := by
  obtain ⟨k, hk, hpos, hreads⟩ := pciEnumerate_reads fuel mcfg s
  exact hreads.inside_iff (by decide) (by decide) (mcfgRecord_eq mcfg) hk hpos

end pciEnumerate

/-- **The walks stay inside the tables, and end after as many iterations as there is room for entries, exactly
when** the lengths of the tables are at least those of their headers, whatever the tables hold. -/
theorem tableWalks_inside_iff (fuel : ℕ) (rsdt mcfg : UInt32) (signature : List UInt8) (s : Kernel) :
    ((∃ table t, acpiFindTable rsdt signature s = .ok table t ∧
        ReadsInside Event.pointerRead rsdt (tableLength s.mem rsdt) 4 s t) ∧
      ReadsInside Event.recordRead mcfg (tableLength s.mem mcfg) 16 s (stop (pciEnumerate fuel mcfg s))) ↔
      36 ≤ (tableLength s.mem rsdt).toNat ∧ 44 ≤ (tableLength s.mem mcfg).toNat :=
  and_congr (acpiFindTable_inside_iff rsdt signature s) (pciEnumerate_inside_iff fuel mcfg s)

/-- Tables of length 0 count 1073741815 pointers, or 268435453 records, and the first one is after
the table. -/
theorem tableWalks_past_end :
    tableLength Kernel.loaded.mem 0x1000 = 0 ∧ rsdtEntries Kernel.loaded.mem 0x1000 = 1073741815 ∧
      mcfgEntries Kernel.loaded.mem 0x1000 = 268435453 ∧
      (¬ ∃ table t, acpiFindTable 0x1000 mcfgSignature Kernel.loaded = .ok table t ∧
        ReadsInside Event.pointerRead 0x1000 (tableLength Kernel.loaded.mem 0x1000) 4 Kernel.loaded t) ∧
      ¬ ReadsInside Event.recordRead 0x1000 (tableLength Kernel.loaded.mem 0x1000) 16 Kernel.loaded
        (stop (pciEnumerate 1 0x1000 Kernel.loaded)) := by
  have hlength : tableLength Kernel.loaded.mem 0x1000 = 0 := Mem.load32_eq_zero fun _ _ => rfl
  refine ⟨hlength, ?_, ?_, ?_, ?_⟩
  · rw [rsdtEntries, ← tableLength, hlength]
    rfl
  · rw [mcfgEntries, ← tableLength, hlength]
    rfl
  · rw [acpiFindTable_inside_iff, hlength]
    decide
  · rw [pciEnumerate_inside_iff, hlength]
    decide

end JurasOS
