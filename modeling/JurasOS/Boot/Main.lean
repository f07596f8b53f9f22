import JurasOS.Boot.Acpi
import JurasOS.Boot.Reserve
import JurasOS.Boot.Tags
import JurasOS.Tty.Cursor

/-!
# `kernel.c`

`kernelMain` is the boot: the tags, the memory map, the heap, the devices and then
the page tables. `SetUp` says what the first three come to, from the state in
which the tags are found, and `bootMem` is a memory to boot from.

What `printf` prints, the descriptor tables and the interrupts are left out.
-/

namespace JurasOS

open Machine

/-- What the linker and the bootloader give to `kernel_main`. -/
structure BootInfo where
  /-- `&_kernel_start`. -/
  kernelStart : UInt32
  /-- `&_kernel_end`. -/
  kernelEnd : UInt32
  magic : UInt32
  mbiAddr : UInt32

/-- The kernel as it is loaded, with the memory as the bootloader leaves it. -/
def Kernel.boot (m : Mem) : Kernel := { Kernel.loaded with mem := m }

/-- `kernel_main`, up to the tags. -/
def kernelTags (fuel : ℕ) (info : BootInfo) : KernelM PUnit := do
  modify fun s => { s with kernelStart := info.kernelStart, kernelEnd := info.kernelEnd }
  modify (terminalInitialize 0)
  if info.magic ≠ 0x36d76289 then throw .panic
  else if info.mbiAddr &&& 7 ≠ 0 then throw .panic
  else loadTags fuel info.mbiAddr

/-- `kernel_main`: the heap, of half a megabyte. -/
def kernelHeap (s : Kernel) : Kernel :=
  let kheapAddr := s.kernelEnd
  let kheapSize := 0x80000
  let kheapGranularity := 4
  let s := kheapAdd kheapAddr kheapSize kheapGranularity s
  { s with kernelEnd := s.kernelEnd + kheapMemorySizeOf kheapSize kheapGranularity }

/-- `kernel_main`, from the tags to the devices. -/
def kernelMemory (fuel : ℕ) : KernelM PUnit := do
  pfaReadMultibootMemoryMap fuel
  modify kernelHeap

/-- `kernel_main`, up to the devices. -/
def kernelSetup (fuel : ℕ) (info : BootInfo) : KernelM PUnit := do
  kernelTags fuel info
  kernelMemory fuel

/-- `kernel_main`. -/
def kernelMain (fuel : ℕ) (info : BootInfo) : KernelM PUnit := do
  kernelSetup fuel info
  acpiInit fuel
  ptmInitialize

/-! ### Up to the devices -/

/-- What `kernel_main` has done up to the tags: the screen is blank, and tags are found. -/
structure Tagged (info : BootInfo) (m : Mem) (s : Kernel) : Prop where
  same : s = { Kernel.boot m with
    kernelStart := info.kernelStart, kernelEnd := info.kernelEnd, mem := s.mem, terminal := s.terminal,
      tags := s.tags
    trace := s.trace }
  mem : Set.EqOn s.mem m screenᶜ

/-- What `kernel_main` has done from the tags to the devices. -/
structure SetUp (s t : Kernel) (entrySize : UInt32) (entries : List MmapEntry) : Prop where
  same : t = { s with
    mem := t.mem, kernelEnd := t.kernelEnd, pfa := t.pfa, kheap := t.kheap, trace := t.trace }
  kernelEnd : t.kernelEnd.toNat = s.kernelEnd.toNat + (mapBitmapSize entries).toNat + 540700
  bitmap : t.pfa.pageBitmap = ⟨mapBitmapSize entries, s.kernelEnd⟩
  marked : t.marked =
    mapFrames s.kernelEnd s.tags.memoryMap entrySize entries ∩ Set.Iio t.pfa.pageBitmap.length
  /-- Nothing was written below the kernel's end, if there is room above it for the bits of all frames. -/
  mem_below : s.kernelEnd.toNat + 2 ^ 17 ≤ 2 ^ 32 → ∀ a : UInt32, a.toNat < s.kernelEnd.toNat →
    t.mem a = s.mem a

section SetUp

variable {fuel : ℕ} {info : BootInfo} {m : Mem} {s t : Kernel} {entrySize : UInt32} {entries : List MmapEntry}

theorem kernelTags_ok (h : kernelTags fuel info (Kernel.boot m) = .ok ⟨⟩ s) : Tagged info m s := by
  rw [kernelTags, bind_of_ok (modify_apply ..), bind_of_ok (modify_apply ..)] at h
  have hdraws := terminalInitialize_draws 0 { Kernel.boot m with
    kernelStart := info.kernelStart, kernelEnd := info.kernelEnd }
  have hblank := terminalInitialize_same 0 { Kernel.boot m with
    kernelStart := info.kernelStart, kernelEnd := info.kernelEnd }
  obtain ⟨t, ht⟩ : ∃ t, t = terminalInitialize 0 { Kernel.boot m with
    kernelStart := info.kernelStart, kernelEnd := info.kernelEnd } := ⟨_, rfl⟩
  rw [← ht] at h hdraws hblank
  split at h
  · cases h
  split at h
  · cases h
  have htags := loadTags_same h
  rw [TagsChanged] at htags
  refine ⟨?_, fun a ha => ?_⟩
  · rw [htags, hblank]
  · rw [htags]
    exact hdraws.mem ha

/-- The heap takes 540700 bytes. -/
theorem kernelHeap_eq (s : Kernel) : kernelHeap s = { kheapAdd s.kernelEnd 0x80000 4 s with
    kernelEnd := s.kernelEnd + 540700 } := by
  have hsize : kheapMemorySizeOf 0x80000 4 = 540700 := by decide
  rw [kernelHeap, hsize]
  rfl

theorem kernelHeap_same (s : Kernel) : kernelHeap s = { s with
    mem := (kernelHeap s).mem, kernelEnd := s.kernelEnd + 540700, kheap := (kernelHeap s).kheap
    trace := (kernelHeap s).trace } := by
  rw [kernelHeap_eq, kheapAdd_same]

/-- It is written to only. -/
theorem eqOn_kernelHeap (s : Kernel) : Set.EqOn (kernelHeap s).mem s.mem (span s.kernelEnd 540700)ᶜ := by
  have hsize : kheapMemorySizeOf 0x80000 4 = 540700 := by decide
  have hheap := @eqOn_kheapAdd s.kernelEnd _ _ (by rw [hsize]; decide) s
  rw [hsize] at hheap
  rwa [kernelHeap_eq]

/-- **The boot comes to the devices**, from the tags on. -/
theorem kernelMemory_ok (hfirst : s.pfa.initialized = false) (hstored : MapStored s entrySize entries)
    (hfuel : entries.length < fuel)
    (hfit : s.kernelEnd.toNat + (mapBitmapSize entries).toNat + 540700 < 2 ^ 32) :
    ∃ t, kernelMemory fuel s = .ok ⟨⟩ t ∧ SetUp s t entrySize entries := by
  obtain ⟨u, hread, h⟩ := pfaReadMultibootMemoryMap_ok hfirst hstored hfuel
  have hend : u.kernelEnd.toNat = s.kernelEnd.toNat + (mapBitmapSize entries).toNat := by
    rw [h.kernelEnd]
    exact toNat_add_of_lt (by omega)
  refine ⟨kernelHeap u, by rw [kernelMemory, bind_of_ok hread, modify_apply], ?_⟩
  have hsame := kernelHeap_same u
  have hheap := eqOn_kernelHeap u
  generalize kernelHeap u = v at hsame hheap
  have hbelow : ∀ a : UInt32, a.toNat < u.kernelEnd.toNat → v.mem a = u.mem a := by
    intro a ha
    refine hheap fun hmem => ?_
    rw [mem_span_iff (by omega)] at hmem
    omega
  have hpfa : v.pfa = u.pfa := by rw [hsame]
  refine ⟨?_, ?_, ?_, ?_, fun habove a ha => ?_⟩
  · rw [hsame, h.same]
  · rw [hsame, ← hend]
    exact toNat_add_of_lt (by show _ + 540700 < _; omega)
  · rw [hpfa, h.bitmap]
  · rw [Kernel.marked, hpfa, ← h.marked]
    refine Bitmap.marked_congr fun a ha => hbelow a ?_
    rw [h.bitmap, mem_span_iff (by show s.kernelEnd.toNat + (mapBitmapSize entries).toNat ≤ _; omega)] at ha
    rw [hend]
    exact ha.2
  · rw [hbelow a (by omega), h.mem_below habove ha]

end SetUp

/-! ### A machine to boot -/

/-- A kernel of 64 KiB, at a mebibyte, with the boot information at `0x10000`. -/
def bootInfo : BootInfo := ⟨0x100000, 0x110000, 0x36d76289, 0x10000⟩

section image

variable {m image : Mem} {s : Kernel} {entries : List MmapEntry}

/-- A word of the 256 bytes from `0x10000` on. -/
theorem load32_of_image (h : Set.EqOn m image (span 0x10000 256)) {a : UInt32} (hlo : 0x10000 ≤ a.toNat)
    (hhi : a.toNat + 4 ≤ 0x10100) : m.load32 a = image.load32 a :=
  Mem.load32_congr (h.mono (span_subset_span (b := 0x10000) (by decide) hlo hhi))

/-- The tags of a memory map and of an RSDP are found, if no tag comes after them. -/
theorem tagsFrom_two {acpiOld a : UInt32} (hmap : m.load32 0x10008 = 6)
    (hnext : nextTag 0x10008 (m.load32 (0x10008 + 4)) = acpiOld) (hacpi : m.load32 acpiOld = 14)
    (hnext' : nextTag acpiOld (m.load32 (acpiOld + 4)) = a) (hlast : m.load32 a = 0) :
    tagsFrom m 4 0x10008 ⟨0, 0, 0, 0, 0, 0, 0⟩ = some ⟨0, 0, 0, 0, 0x10008, acpiOld, 0⟩ := by
  rw [tagsFrom, hmap, if_neg (by decide), hnext, tagsFrom, hacpi, if_neg (by decide), hnext', tagsFrom,
    if_pos hlast]
  rfl

/-- A machine comes to its tags, with the 256 bytes from `0x10000` on as they were, if the tags are
in them. -/
theorem kernelTags_of_image {acpiOld : UInt32}
    (htags : ∀ m, Set.EqOn m image (span 0x10000 256) →
      tagsFrom m 4 0x10008 ⟨0, 0, 0, 0, 0, 0, 0⟩ = some ⟨0, 0, 0, 0, 0x10008, acpiOld, 0⟩) :
    ∃ s, kernelTags 4 bootInfo (Kernel.boot image) = .ok ⟨⟩ s ∧
      s.tags = ⟨0, 0, 0, 0, 0x10008, acpiOld, 0⟩ ∧ Set.EqOn s.mem image (span 0x10000 256) := by
  have hscreen : span 0x10000 256 ⊆ screenᶜ :=
    Set.disjoint_left.mp (disjoint_span (by decide) (by decide) (Or.inl (by decide)))
  have hdraws := terminalInitialize_draws 0 { Kernel.boot image with
    kernelStart := bootInfo.kernelStart, kernelEnd := bootInfo.kernelEnd }
  obtain ⟨s, hs, hfound⟩ := loadTags_ok 0x10000 (htags _ (hdraws.mem.mono hscreen))
  have hrun : kernelTags 4 bootInfo (Kernel.boot image) = .ok ⟨⟩ s := by
    rw [kernelTags, bind_of_ok (modify_apply ..), bind_of_ok (modify_apply ..), if_neg (by decide),
      if_neg (by decide)]
    exact hs
  exact ⟨s, hrun, hfound, (kernelTags_ok hrun).mem.mono hscreen⟩

/-- **A machine comes to the devices**, with the 256 bytes from `0x10000` on as they were, if its tags and its
memory map are in them. -/
theorem kernelSetup_of_image {acpiOld : UInt32}
    (htags : ∀ m, Set.EqOn m image (span 0x10000 256) →
      tagsFrom m 4 0x10008 ⟨0, 0, 0, 0, 0, 0, 0⟩ = some ⟨0, 0, 0, 0, 0x10008, acpiOld, 0⟩)
    (hmap : MmapTag image 0x10008 24 entries) (hlength : entries.length < 4) :
    ∃ s t, kernelTags 4 bootInfo (Kernel.boot image) = .ok ⟨⟩ s ∧
      s.tags = ⟨0, 0, 0, 0, 0x10008, acpiOld, 0⟩ ∧ MapStored s 24 entries ∧
      kernelSetup 4 bootInfo (Kernel.boot image) = .ok ⟨⟩ t ∧ SetUp s t 24 entries ∧
      Set.EqOn t.mem image (span 0x10000 256) := by
  obtain ⟨s, hrun, hfound, hs⟩ := kernelTags_of_image htags
  have htagged := kernelTags_ok hrun
  have hend : s.kernelEnd = 0x110000 := by rw [htagged.same]; rfl
  have hfirst : s.pfa.initialized = false := by rw [htagged.same]; rfl
  have hmemoryMap : s.tags.memoryMap = 0x10008 := by rw [hfound]
  have hbytes : tagBytes 24 entries.length ≤ 248 := by
    rw [tagBytes]
    show 16 + entries.length * 24 ≤ 248
    omega
  have hsub : span 0x10008 (tagBytes 24 entries.length) ⊆ span 0x10000 256 :=
    span_subset_span (b := 0x10000) (by decide) (by decide) (by show 0x10008 + _ ≤ 0x10000 + 256; omega)
  have hstored : MapStored s 24 entries := by
    refine mapStored_of_below (by rw [hmemoryMap]; exact hmap.of_eqOn (hs.mono hsub)) ?_ ?_
    · rw [hmemoryMap, hend]
      show 0x10008 + _ ≤ 0x110000
      omega
    · rw [hend]
      decide
  have hsize := mapBitmapSize_le entries
  obtain ⟨t, ht, hsetUp⟩ :=
    kernelMemory_ok hfirst hstored hlength (by rw [hend]; show 0x110000 + _ + _ < _; omega)
  refine ⟨s, t, hrun, hfound, hstored, by rw [kernelSetup, bind_of_ok hrun, ht], hsetUp, fun a ha => ?_⟩
  rw [mem_span_iff (by decide)] at ha
  rw [hsetUp.mem_below (by rw [hend]; decide) a (by rw [hend]; exact lt_trans ha.2 (by decide)), hs ?_]
  rwa [mem_span_iff (by decide)]

end image

/-- The boot information, and the tables of the firmware after it. The memory map has four mebibytes that are
available and `len` bytes that are not, and the MCFG has a bus. -/
def bootWords (len : UInt32) : List UInt32 :=
  [112, 0] ++
  [6, 64, 24, 0] ++ [0, 0, 0x400000, 0, 1, 0] ++ [0x400000, 0, len, 0, 2, 0] ++ -- the memory map
  [14, 28, 0, 0, 0, 0, 0x10070, 0] ++ -- the RSDP
  [0, 8] ++
  [0x54445352, 40, 0, 0, 0, 0, 0, 0, 0, 0x10098] ++ -- the RSDT
  [0x4746434D, 60, 0, 0, 0, 0, 0, 0, 0, 0, 0, 0xE0000000, 0, 0x01000000, 0] -- the MCFG

/-- A memory with these at `0x10000`. -/
def bootMem (len : UInt32) : Mem := fun a =>
  let i := (a - 0x10000).toNat
  ((bootWords len).getD (i / 4) 0 >>> UInt32.ofNat (8 * (i % 4))).toUInt8

/-- The entries of its memory map. -/
def bootMap (len : UInt32) : List MmapEntry := [⟨0, 0x400000, 1⟩, ⟨0x400000, len.toUInt64, 2⟩]

/-- The bytes of the boot information and of the tables are those of `bootMem`. -/
def HasBootMem (len : UInt32) (s : Kernel) : Prop := Set.EqOn s.mem (bootMem len) (span 0x10000 256)

section bootMem

variable {len : UInt32} {s : Kernel}

theorem HasBootMem.load32 (h : HasBootMem len s) {a : UInt32} (hlo : 0x10000 ≤ a.toNat)
    (hhi : a.toNat + 4 ≤ 0x10100) :
    s.mem.load32 a = (bootMem len).load32 a :=
  load32_of_image h hlo hhi

/-- The two tags are found. -/
theorem HasBootMem.tagsFrom (hlen : len = 0x1000 ∨ len = 0x200000) (h : HasBootMem len s) :
    tagsFrom s.mem 4 0x10008 ⟨0, 0, 0, 0, 0, 0, 0⟩ = some ⟨0, 0, 0, 0, 0x10008, 0x10048, 0⟩ := by
  refine tagsFrom_two (a := 0x10068) ?_ ?_ ?_ ?_ ?_
  all_goals
    rw [h.load32 (by decide) (by decide)]
    rcases hlen with rfl | rfl <;> decide

/-- The boot of the machine comes to the devices. -/
theorem kernelSetup_bootMem (hlen : len = 0x1000 ∨ len = 0x200000) :
    ∃ s t, kernelTags 4 bootInfo (Kernel.boot (bootMem len)) = .ok ⟨⟩ s ∧
    s.tags = ⟨0, 0, 0, 0, 0x10008, 0x10048, 0⟩ ∧
      MapStored s 24 (bootMap len) ∧ kernelSetup 4 bootInfo (Kernel.boot (bootMem len)) = .ok ⟨⟩ t ∧
      SetUp s t 24 (bootMap len) ∧ HasBootMem len t := by
  have hmap : MmapTag (bootMem len) 0x10008 24 (bootMap len) := by
    rcases hlen with rfl | rfl <;> exact ⟨by decide, by decide, by decide, by decide, by decide, by decide⟩
  have htags : ∀ m, Set.EqOn m (bootMem len) (span 0x10000 256) →
      JurasOS.tagsFrom m 4 0x10008 ⟨0, 0, 0, 0, 0, 0, 0⟩ = some ⟨0, 0, 0, 0, 0x10008, 0x10048, 0⟩ :=
    fun m h => HasBootMem.tagsFrom (s := { Kernel.loaded with mem := m }) hlen h
  exact kernelSetup_of_image htags hmap (by show 2 < 4; omega)

/-- The devices of the machine have a bus to scan. -/
theorem HasBootMem.findsBus (h : HasBootMem 0x1000 s) (htags : s.tags.acpiOld = 0x10048) : FindsBus s := by
  have hrsdt : s.rsdt = 0x10070 := by
    rw [Kernel.rsdt, htags, h.load32 (by decide) (by decide)]
    decide
  have hentries : rsdtEntries s.mem 0x10070 = 1 := by
    rw [rsdtEntries, h.load32 (by decide) (by decide)]
    decide
  have hpointer : s.mem.load32 (rsdtPointer 0x10070 0) = 0x10098 := by
    rw [h.load32 (by decide) (by decide)]
    decide
  have hsignature : hasSignature s.mem mcfgSignature 0x10098 = true := by
    rw [hasSignature_congr (h.mono (span_subset_span (b := 0x10000) (by decide) (by decide) (by decide)))]
    decide
  have htable := acpiTable_of_one hentries hpointer hsignature
  have hbyte : ∀ a ∈ span 0x10000 256, s.mem a = bootMem 0x1000 a := h
  rw [FindsBus, htags, hrsdt, htable]
  refine ⟨by decide, 0, ?_, ?_⟩
  · rw [mcfgEntries, h.load32 (by decide) (by decide)]
    decide
  · rw [startBus, endBus, hbyte _ (mem_span.mpr (by decide)), hbyte _ (mem_span.mpr (by decide))]
    decide

end bootMem

end JurasOS
