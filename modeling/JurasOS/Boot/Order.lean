import JurasOS.Boot.Main

/-!
# The devices come before the page tables

`kernel_main` calls `acpi_init` before `ptm_initialize`. With a bus to scan, the scan
maps pages while `pd` points at no directory. The trace of the boot shows it: what
comes before the scan, whatever the memory holds, fills no directory.
-/

namespace JurasOS

open Machine

/-! ### Traces -/

/-- Every call of `ptm_map_addr` comes after `ptm_initialize` has filled the directory that `pd` points at.
The latest event is the first. -/
def MapsAfterDirectory : List Event → Prop
  | [] => True
  | e :: earlier => (∀ pd addr, e = .mapAddr pd addr → .directory pd ∈ earlier) ∧ MapsAfterDirectory earlier

section MapsAfterDirectory

variable {P : Event → Prop} {s t : Kernel} {earlier es : List Event}

theorem MapsAfterDirectory.of_append (h : MapsAfterDirectory (es ++ earlier)) :
    MapsAfterDirectory earlier := by
  induction es with
  | nil => exact h
  | cons e es ih => exact ih h.2

/-- A run goes on well if it maps pages in directories that were filled before. -/
theorem MapsAfterDirectory.emits (h : MapsAfterDirectory s.trace) (hrun : Emits P s t)
    (hmaps : ∀ pd addr, P (.mapAddr pd addr) → .directory pd ∈ s.trace) : MapsAfterDirectory t.trace := by
  obtain ⟨es, htrace, hes⟩ := hrun
  rw [htrace]
  clear htrace
  induction es with
  | nil => exact h
  | cons e es ih =>
    refine ⟨fun pd addr he => ?_, ih fun e he => hes e (List.mem_cons_of_mem _ he)⟩
    exact List.mem_append_right es (hmaps pd addr (he ▸ hes e List.mem_cons_self))

theorem MapsAfterDirectory.quiet (h : MapsAfterDirectory s.trace) (hrun : Emits Event.Quiet s t) :
    MapsAfterDirectory t.trace :=
  h.emits hrun fun _ _ hquiet => hquiet.elim

/-- A run without a directory does not go on from a mapped page. -/
theorem not_mapsAfterDirectory {pd addr : UInt32} (hnone : .directory pd ∉ s.trace)
    (hrun : GoesOn (s.emit (.mapAddr pd addr)) t) : ¬ MapsAfterDirectory t.trace := by
  obtain ⟨es, htrace, -⟩ := hrun
  rw [htrace]
  intro h
  exact hnone (h.of_append.1 pd addr rfl)

theorem directory_notMem (h : Emits Event.Quiet s t) (hnone : s.trace = []) (pd : UInt32) :
    .directory pd ∉ t.trace := by
  obtain ⟨es, htrace, hes⟩ := h
  rw [htrace, hnone, List.append_nil]
  exact fun hmem => hes _ hmem

end MapsAfterDirectory

/-! ### The boot -/

theorem kernelTags_quiet (fuel : ℕ) (info : BootInfo) : Along (Emits Event.Quiet) (kernelTags fuel info) := by
  have htags : Along (Emits Event.Quiet) (loadTags fuel info.mbiAddr) := by
    refine fun s => (loadTags_emits s).mono ?_
    rintro _ ⟨tag, rfl⟩
    trivial
  refine Along.bind emits_modify fun _ => (emits_modify (terminalInitialize_trace 0)).bind fun _ => ?_
  exact (Along.throw _).ite ((Along.throw _).ite htags)

theorem kernelHeap_quiet (s : Kernel) : Emits Event.Quiet s (kernelHeap s) :=
  emits_emit (e := .memset s.kernelEnd (kheapMemorySizeOf 0x80000 4)) trivial s

theorem kernelSetup_quiet (fuel : ℕ) (info : BootInfo) : Along (Emits Event.Quiet) (kernelSetup fuel info) :=
  (kernelTags_quiet fuel info).bind fun _ => (pfaReadMultibootMemoryMap_quiet fuel).bind fun _ =>
    Along.modify kernelHeap_quiet

theorem ptmInitialize_goesOn : Along GoesOn ptmInitialize := by
  intro s
  obtain ⟨t, hquiet, -, hmaps⟩ := ptmInitialize_along s
  have hdirectory : GoesOn t (t.emit (.directory t.pd)) := emits_emit trivial t
  exact (hquiet.mono fun _ _ => trivial).trans (hdirectory.trans (hmaps.mono fun _ _ => trivial))

/-- `ptm_initialize` fills the directory before it maps a page in it. -/
theorem MapsAfterDirectory.ptmInitialize {s : Kernel} (h : MapsAfterDirectory s.trace) :
    MapsAfterDirectory (stop (ptmInitialize s)).trace := by
  obtain ⟨t, hquiet, -, hmaps⟩ := ptmInitialize_along s
  have hdirectory : MapsAfterDirectory (t.emit (.directory t.pd)).trace := by
    refine ⟨?_, h.quiet hquiet⟩
    rintro pd addr ⟨⟩
  refine hdirectory.emits hmaps fun pd addr hpd => ?_
  rw [hpd pd addr rfl]
  exact List.mem_cons_self

section kernelMain

variable {fuel : ℕ} {info : BootInfo} {m : Mem} {s : Kernel}

/-- With a bus to scan, a page is mapped before there is a directory. -/
theorem not_mapsAfterDirectory_of_findsBus (hrun : kernelSetup fuel info (Kernel.boot m) = .ok ⟨⟩ s)
    (hbus : FindsBus s) :
    ¬ MapsAfterDirectory (stop (kernelMain fuel info (Kernel.boot m))).trace := by
  have hsetup := (kernelSetup_quiet fuel info).of_ok hrun
  obtain ⟨t, addr, hlooks, hscan⟩ := acpiInit_of_findsBus fuel hbus
  rw [kernelMain, bind_of_ok hrun]
  have hnone := directory_notMem (hsetup.trans hlooks.2) rfl t.pd
  exact not_mapsAfterDirectory hnone (hscan.trans (Along.stop_bind _ (fun _ => ptmInitialize_goesOn) s))

/-- Without one, `acpi_init` maps no page. -/
theorem mapsAfterDirectory_of_not_findsBus (hrun : kernelSetup fuel info (Kernel.boot m) = .ok ⟨⟩ s)
    (hnone : ¬ FindsBus s) :
    MapsAfterDirectory (stop (kernelMain fuel info (Kernel.boot m))).trace := by
  have hsetup := (kernelSetup_quiet fuel info).of_ok hrun
  have hlooks := acpiInit_of_not_findsBus fuel hnone
  have hacpi : MapsAfterDirectory (stop (acpiInit fuel s)).trace :=
    MapsAfterDirectory.quiet (s := Kernel.boot m) trivial (hsetup.trans hlooks.2)
  rw [kernelMain, bind_of_ok hrun]
  cases hrun' : acpiInit fuel s with
  | ok _ t =>
    rw [hrun'] at hacpi
    rw [bind_of_ok hrun']
    exact MapsAfterDirectory.ptmInitialize hacpi
  | error e t =>
    rw [hrun'] at hacpi
    rwa [bind_of_error hrun']

/-- **The boot maps pages only in a filled directory exactly when** it comes to no bus to scan in
`acpi_init`, which runs before `ptm_initialize`. -/
theorem kernelMain_mapsAfterDirectory_iff (fuel : ℕ) (info : BootInfo) (m : Mem) :
    MapsAfterDirectory (stop (kernelMain fuel info (Kernel.boot m))).trace ↔
      ∀ s, kernelSetup fuel info (Kernel.boot m) = .ok ⟨⟩ s → ¬ FindsBus s := by
  constructor
  · intro hmaps s hrun hbus
    exact not_mapsAfterDirectory_of_findsBus hrun hbus hmaps
  · intro hnone
    cases hrun : kernelSetup fuel info (Kernel.boot m) with
    | ok _ s => exact mapsAfterDirectory_of_not_findsBus hrun (hnone s hrun)
    | error e s =>
      have hsetup := kernelSetup_quiet fuel info (Kernel.boot m)
      rw [hrun] at hsetup
      rw [kernelMain, bind_of_error hrun]
      exact MapsAfterDirectory.quiet (s := Kernel.boot m) trivial hsetup

/-- The machine with an MCFG scans its bus, so it maps a page before there is a directory. -/
theorem kernelMain_maps_before_directory :
    ¬ MapsAfterDirectory (stop (kernelMain 4 bootInfo (Kernel.boot (bootMem 0x1000)))).trace := by
  obtain ⟨s, t, -, htags, -, hrun, hsetUp, hmem⟩ := kernelSetup_bootMem (Or.inl rfl)
  have hacpi : t.tags.acpiOld = 0x10048 := by rw [hsetUp.same, htags]
  exact not_mapsAfterDirectory_of_findsBus hrun (hmem.findsBus hacpi)

end kernelMain

end JurasOS
