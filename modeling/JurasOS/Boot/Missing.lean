import JurasOS.Boot.Acpi
import JurasOS.Boot.MemoryMap
import JurasOS.Boot.TagList

/-!
# Missing tables

What the boot code does when the boot information has no memory map, and when the
RSDT has no MCFG. `pfa_read_multiboot_memory_map` checks the type of the map after it
has gone over its entries, and `acpi_init` does not check what `acpi_find_table`
returned: both read through a null pointer. Only a missing RSDP is reported first.
-/

namespace JurasOS

open Machine

/-- An event that reads no table at address 0, and nothing that only a table leads to: no entry of a memory
map, and no PCI device. -/
def Event.OffNull : Event → Prop
  | .mmapTag a | .sdtHeader a => a ≠ 0
  | .mmapEntry _ | .pciHeader _ => False
  | _ => True

/-- `pfa_read_multiboot_memory_map` comes to `PANIC`, without having read the map or counted anything. -/
def ReportsMissingMap (fuel : ℕ) (s : Kernel) : Prop :=
  ∃ t, pfaReadMultibootMemoryMap fuel s = .error .panic t ∧ t.pfa.freeMemory = s.pfa.freeMemory ∧
    Emits Event.OffNull s t

/-- No table of the RSDT has the signature of the MCFG. -/
def McfgMissing (s : Kernel) : Prop :=
  ∀ i < rsdtEntries s.mem s.rsdt, ¬ hasSignature s.mem mcfgSignature (s.mem.load32 (rsdtPointer s.rsdt i))

/-- `acpi_init` returns or panics, without having read a table at address 0 or a PCI device. -/
def SkipsMissingMcfg (fuel : ℕ) (s : Kernel) : Prop :=
  (acpiInit fuel s = .ok ⟨⟩ (stop (acpiInit fuel s)) ∨
    acpiInit fuel s = .error .panic (stop (acpiInit fuel s))) ∧
    Emits Event.OffNull s (stop (acpiInit fuel s))

section Missing

variable {s t : Kernel} {fuel : ℕ} {tags : List MultibootTag} {a : ℕ}

theorem not_emits_of_goesOn {P : Event → Prop} {e : Event} (he : ¬ P e) (h : GoesOn (s.emit e) t) :
    ¬ Emits P s t :=
  fun hall => he (Emits.of_first rfl h hall).1

/-! ### The memory map -/

/-- Without a tag of a type, what was there before is left. -/
theorem lastTag_of_missing {type : UInt32} (h : ∀ tag ∈ tags, tag.type ≠ type) (a : ℕ) (before : UInt32) :
    lastTag type before (placed a tags) = before := by
  induction tags generalizing a with
  | nil => rfl
  | cons tag tags ih =>
    rw [placed, lastTag_cons, if_neg (h tag List.mem_cons_self)]
    exact ih (fun tag' htag' => h tag' (List.mem_cons_of_mem _ htag')) _

/-- `load_tags` leaves the memory, and points at the last map and the last RSDP. -/
theorem LaidOut.loadTags_ok {addr : UInt32} (h : LaidOut s.mem (addr.toNat + 8) tags)
    (hfuel : tags.length < fuel) :
    ∃ t, loadTags fuel addr s = .ok ⟨⟩ t ∧ t.mem = s.mem ∧
      t.tags.memoryMap = lastTag 6 0 (placed (addr.toNat + 8) tags) ∧
      t.tags.acpiOld = lastTag 14 0 (placed (addr.toNat + 8) tags) := by
  obtain ⟨t, hrun, hinfo, -⟩ := h.loopM_tagStep (s := { s with tags := ⟨0, 0, 0, 0, 0, 0, 0⟩ }) hfuel
  rw [← loadTags_eq_loopM] at hrun
  exact ⟨t, hrun, by rw [loadTags_same hrun], by rw [hinfo], by rw [hinfo]⟩

/-- The map is read, through a null pointer, before it could be reported. -/
theorem not_reportsMissingMap (hmap : s.tags.memoryMap = 0) (fuel : ℕ) : ¬ ReportsMissingMap fuel s := by
  rintro ⟨t, hrun, -, hoff⟩
  cases hinit : s.pfa.initialized with
  | true =>
    rw [pfaReadMultibootMemoryMap, bind_of_ok (get_apply s), if_pos hinit] at hrun
    cases hrun
  | false =>
    have hfrom := pfaReadMultibootMemoryMap_from hinit fuel
    rw [hrun, hmap] at hfrom
    exact not_emits_of_goesOn (fun h => h rfl) (hfrom.mono fun _ _ => trivial) hoff

/-! ### The MCFG -/

theorem McfgMissing.acpiTable_eq (h : McfgMissing s) : acpiTable s.mem s.rsdt mcfgSignature = 0 := by
  have hnone : (List.range (rsdtEntries s.mem s.rsdt)).find? (fun i =>
      hasSignature s.mem mcfgSignature (s.mem.load32 (rsdtPointer s.rsdt i))) = none :=
    List.find?_range_eq_none.mpr fun i hi => by simpa using h i hi
  rw [acpiTable, hnone]

/-- When there is no MCFG, it is skipped exactly when there is no RSDP either. -/
theorem McfgMissing.skips_iff (h : McfgMissing s) (fuel : ℕ) : SkipsMissingMcfg fuel s ↔
    s.tags.acpiOld = 0 := by
  constructor
  · rintro ⟨-, hoff⟩
    by_contra hold
    obtain ⟨t, hfind, ht⟩ := acpiFindTable_ok s.rsdt mcfgSignature s
    rw [h.acpiTable_eq] at hfind
    rw [acpiInit, bind_of_ok (get_apply s), if_neg hold, bind_of_ok hfind] at hoff
    have hlook : GoesOn s t := ht.2.mono fun _ _ => trivial
    have hheader : GoesOn t (t.emit (.sdtHeader 0)) := emits_emit trivial t
    have hscan : GoesOn (t.emit (.sdtHeader 0)) (stop (pciEnumerate fuel 0 t)) := by
      rw [pciEnumerate_eq]
      exact Along.timesM (fun i => scanSteps_goesOn.pciEnumerateRecord fuel (mcfgRecord 0 i)) _
    exact not_emits_of_goesOn (fun h => h rfl) hscan (Emits.split hlook (hheader.trans hscan) hoff).2
  · intro hold
    rw [SkipsMissingMcfg, acpiInit, bind_of_ok (get_apply s), if_pos hold]
    exact ⟨Or.inr rfl, Emits.refl s⟩

end Missing

/-- **A missing table is reported or skipped exactly when** it is the RSDP, or the MCFG of a boot without an
RSDP: a boot information without a memory map is not reported, and an RSDT without an MCFG is not skipped. -/
theorem missingTables_iff {s : Kernel} {addr : UInt32} {tags : List MultibootTag}
    (h : LaidOut s.mem (addr.toNat + 8) tags) {loops : ℕ} (hloops : tags.length < loops) (fuel : ℕ)
    (u : Kernel) :
    ((∃ t, loadTags loops addr s = .ok ⟨⟩ t ∧ ((∀ tag ∈ tags, tag.type ≠ 6) → ReportsMissingMap fuel t)) ∧
        (McfgMissing u → SkipsMissingMcfg fuel u)) ↔
      (∃ tag ∈ tags, tag.type = 6) ∧ (McfgMissing u → u.tags.acpiOld = 0) := by
  obtain ⟨t, hload, -, hmap, -⟩ := h.loadTags_ok hloops
  refine and_congr ⟨?_, ?_⟩ (forall_congr' fun hmissing => hmissing.skips_iff fuel)
  · rintro ⟨t', hload', hreports⟩
    rw [hload] at hload'
    cases hload'
    by_contra hmissing
    have hnone : ∀ tag ∈ tags, tag.type ≠ 6 := fun tag htag htype => hmissing ⟨tag, htag, htype⟩
    rw [lastTag_of_missing hnone] at hmap
    exact not_reportsMissingMap hmap fuel (hreports hnone)
  · rintro ⟨tag, htag, htype⟩
    exact ⟨t, hload, fun hnone => absurd htype (hnone tag htag)⟩

/-- A block at `0x1000` with one tag of 28 bytes, and a table of no entries after it. As an RSDP the tag has
the address of the table. -/
def oneTagKernel (type : UInt8) : Kernel :=
  { Kernel.loaded with
    mem := fun a =>
      ([48, 0, 0, 0, 0, 0, 0, 0, type, 0, 0, 0, 28, 0, 0, 0, 0, 0, 0, 0, 0, 0, 0, 0, 0, 0, 0, 0, 0,
      0, 0, 0, 0x30, 0x10, 0, 0, 0, 0, 0, 0, 0, 0, 0, 0, 8, 0, 0, 0, 82, 83, 68, 84, 36] : List UInt8).getD
      (a - 0x1000).toNat 0 }

/-- With a map, and a kernel that has no RSDP, no missing table is left out. -/
theorem missingTables_iff_oneTagKernel :
    (∃ t, loadTags 2 0x1000 (oneTagKernel 6) = .ok ⟨⟩ t ∧
        ((∀ tag ∈ [(⟨6, 28⟩ : MultibootTag)], tag.type ≠ 6) → ReportsMissingMap 1 t)) ∧
      (McfgMissing Kernel.loaded → SkipsMissingMcfg 1 Kernel.loaded) := by
  have hlist : LaidOut (oneTagKernel 6).mem ((0x1000 : UInt32).toNat + 8) [⟨6, 28⟩] := by
    refine ⟨?_, ?_, ?_, ?_, ?_, ?_⟩ <;> decide
  exact (missingTables_iff hlist (by decide) 1 Kernel.loaded).mpr
    ⟨⟨_, List.mem_singleton_self _, rfl⟩, fun _ => rfl⟩

/-- With an RSDP only, neither the missing map is reported nor the missing MCFG skipped. -/
theorem missingTables_unnoticed :
    ∃ t, loadTags 2 0x1000 (oneTagKernel 14) = .ok ⟨⟩ t ∧ McfgMissing t ∧
      ∀ fuel, ¬ ReportsMissingMap fuel t ∧ ¬ SkipsMissingMcfg fuel t := by
  have hlist : LaidOut (oneTagKernel 14).mem ((0x1000 : UInt32).toNat + 8) [⟨14, 28⟩] := by
    refine ⟨?_, ?_, ?_, ?_, ?_, ?_⟩ <;> decide
  obtain ⟨t, hload, hmem, hmap, hold⟩ := hlist.loadTags_ok (by decide : 1 < 2)
  have hmissing : McfgMissing t := by
    have hrsdt : t.rsdt = 0x1030 := by
      rw [Kernel.rsdt, hmem, hold]
      decide
    have hentries : rsdtEntries t.mem t.rsdt = 0 := by
      rw [hrsdt, hmem]
      decide
    intro i hi
    omega
  refine ⟨t, hload, hmissing, fun fuel => ⟨not_reportsMissingMap (hmap.trans (by decide)) fuel, ?_⟩⟩
  rw [hmissing.skips_iff fuel, hold]
  decide

end JurasOS
