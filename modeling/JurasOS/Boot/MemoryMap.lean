import JurasOS.Libc.String
import JurasOS.Paging.Counters

/-!
# `page_frame_allocator.c`: reading the memory map

`pfaReadMultibootMemoryMap` walks the entries of the memory map tag twice: to
count the memory, and, when the bitmap is made, to reserve what is not available.
The source reserves pages from the address of the entry on, not from the address
in it. `MmapTag` says that a list of entries lies in memory; `MapRead` says what
the function does with one whose storage the bitmap leaves alone.
-/

namespace JurasOS

open Machine

/-- `multiboot_memory_map_t`. -/
structure MmapEntry where
  addr : UInt64
  len : UInt64
  type : UInt32
  deriving DecidableEq

/-- `mmap->len & 0xffffffff`, as a `uint32_t`. -/
def MmapEntry.lenLow (entry : MmapEntry) : UInt32 := (entry.len &&& 0xffffffff).toUInt32

/-- `MULTIBOOT_MEMORY_AVAILABLE`. -/
def MmapEntry.available (entry : MmapEntry) : Bool := entry.type = 1

/-- The entry at `mmap`. -/
def readEntry (m : Mem) (mmap : UInt32) : MmapEntry :=
  ⟨m.load64 mmap, m.load64 (mmap + 8), m.load32 (mmap + 16)⟩

/-- An iteration of the loops over the entries: `tag->size` and `tag->entry_size` are read each time. -/
def mmapStep {α : Type} (tag : UInt32) (body : UInt32 → α → KernelM α) : UInt32 × α → KernelM (UInt32 × α ⊕ α)
  | (mmap, a) => do
    let s ← get
    if mmap < tag + s.mem.load32 (tag + 4) then
      let a ← body mmap a
      let s ← get
      pure (.inl (mmap + s.mem.load32 (tag + 8), a))
    else pure (.inr a)

/-- A loop over the entries. -/
def mmapLoop {α : Type} (tag : UInt32) (body : UInt32 → α → KernelM α) (fuel : ℕ) (a : α) : KernelM α :=
  loopM .running (mmapStep tag body) fuel (tag + 16, a)

/-- The body of the first loop. -/
def countEntry (mmap memorySize : UInt32) : KernelM UInt32 := fun s =>
  let entry := readEntry s.mem mmap
  let s := s.emit (.mmapEntry mmap)
  .ok (memorySize + entry.lenLow)
    (if entry.available then { s with
      pfa := { s.pfa with freeMemory := s.pfa.freeMemory + entry.lenLow } } else s)

/-- The body of the second loop. -/
def reserveEntry (mmap : UInt32) (_ : PUnit) : KernelM PUnit := fun s =>
  let entry := readEntry s.mem mmap
  let s := s.emit (.mmapEntry mmap)
  .ok ⟨⟩ (if entry.available then s else pfaReservePages mmap (numPages entry.lenLow) s)

/-- `init_bitmap`. -/
def initBitmap (bitmapSize bufferAddress : UInt32) (s : Kernel) : Kernel :=
  { s with
    pfa := { s.pfa with pageBitmap := ⟨bitmapSize, bufferAddress⟩ }
    mem := times bitmapSize.toNat (fun i m => m.store8 (bufferAddress + UInt32.ofNat i) 0) s.mem }

/-- `pfa_read_multiboot_memory_map`, between the loops. -/
def pfaMakeBitmap (memorySize : UInt32) (s : Kernel) : Kernel :=
  let bitmapSize := memorySize / 4096 / 8 + 1
  let s := initBitmap bitmapSize s.kernelEnd s
  let s := pfaLockPages s.pfa.pageBitmap.buffer (numPages s.pfa.pageBitmap.size) s
  { s with kernelEnd := s.kernelEnd + bitmapSize }

/-- `pfa_read_multiboot_memory_map`. -/
def pfaReadMultibootMemoryMap (fuel : ℕ) : KernelM PUnit := do
  if (← get).pfa.initialized then pure ⟨⟩
  else
    let tag := (← get).tags.memoryMap
    modify fun s => s.emit (.mmapTag tag)
    let memorySize ← mmapLoop tag countEntry fuel 0
    if (← get).mem.load32 tag ≠ 6 then throw .panic
    else
      modify (pfaMakeBitmap memorySize)
      mmapLoop tag reserveEntry fuel ⟨⟩
      modify fun s => { s with pfa := { s.pfa with initialized := true } }

/-- Reading the map ends exactly when the memory was counted, the tag is a memory map, and the pages were
reserved. -/
theorem pfaReadMultibootMemoryMap_eq_ok {fuel : ℕ} {s s₁ : Kernel} (hfirst : s.pfa.initialized = false) :
    pfaReadMultibootMemoryMap fuel s = .ok ⟨⟩ s₁ ↔ ∃ memorySize t v,
      mmapLoop s.tags.memoryMap countEntry fuel 0 (s.emit (.mmapTag s.tags.memoryMap)) = .ok memorySize t ∧
      t.mem.load32 s.tags.memoryMap = 6 ∧
      mmapLoop s.tags.memoryMap reserveEntry fuel ⟨⟩ (pfaMakeBitmap memorySize t) = .ok ⟨⟩ v ∧
      s₁ = { v with pfa := { v.pfa with initialized := true } } := by
  rw [pfaReadMultibootMemoryMap, bind_of_ok (get_apply s), hfirst, if_neg Bool.false_ne_true,
    bind_of_ok (get_apply s), bind_of_ok (modify_apply ..), bind_eq_ok]
  refine exists_congr fun memorySize => exists_congr fun t => ?_
  rw [exists_and_left]
  refine and_congr_right fun _ => ?_
  rw [bind_of_ok (get_apply t)]
  by_cases htype : t.mem.load32 s.tags.memoryMap = 6
  · rw [if_neg (not_not.mpr htype), bind_of_ok (modify_apply ..), bind_eq_ok, exists_and_left,
      and_iff_right htype]
    constructor
    · rintro ⟨_, v, hreserve, hlast⟩
      cases hlast
      exact ⟨v, hreserve, rfl⟩
    · rintro ⟨v, hreserve, rfl⟩
      exact ⟨⟨⟩, v, hreserve, rfl⟩
  · rw [if_pos htype]
    refine iff_of_false (fun h => ?_) fun ⟨_, h, _⟩ => htype h
    cases h

/-! ### A memory map in memory -/

/-- The address of the entry `i`. -/
def entryAt (tag entrySize : UInt32) (i : ℕ) : UInt32 := tag + 16 + UInt32.ofNat i * entrySize

/-- The number of bytes of the tag. -/
def tagBytes (entrySize : UInt32) (n : ℕ) : ℕ := 16 + n * entrySize.toNat

/-- The memory map tag at `tag` has these entries. -/
structure MmapTag (m : Mem) (tag entrySize : UInt32) (entries : List MmapEntry) : Prop where
  load_type : m.load32 tag = 6
  load_size : (m.load32 (tag + 4)).toNat = tagBytes entrySize entries.length
  load_entrySize : m.load32 (tag + 8) = entrySize
  /-- An entry has the size of the fields read, or more. -/
  wide : 24 ≤ entrySize.toNat
  fits : tag.toNat + tagBytes entrySize entries.length < 2 ^ 32
  load_entry : ∀ i (h : i < entries.length), readEntry m (entryAt tag entrySize i) = entries[i]

section MmapTag

variable {m m' : Mem} {tag entrySize : UInt32} {entries : List MmapEntry}

theorem MmapTag.toNat_entryAt (h : MmapTag m tag entrySize entries) {i : ℕ} (hi : i ≤ entries.length) :
    (entryAt tag entrySize i).toNat = tag.toNat + 16 + i * entrySize.toNat := by
  have hfits := h.fits
  have hle : i * entrySize.toNat ≤ entries.length * entrySize.toNat := Nat.mul_le_mul_right _ hi
  have hwide := h.wide
  have hlen : i ≤ i * entrySize.toNat := Nat.le_mul_of_pos_right i (by omega)
  rw [tagBytes] at hfits
  have hmul : (UInt32.ofNat i * entrySize).toNat = i * entrySize.toNat := by
    rw [UInt32.toNat_mul, UInt32.toNat_ofNat', Nat.mod_eq_of_lt (by omega : i < 2 ^ 32),
      Nat.mod_eq_of_lt (by omega)]
  rw [entryAt, UInt32.toNat_add, UInt32.toNat_add, hmul]
  show ((_ + 16) % 2 ^ 32 + _) % 2 ^ 32 = _
  omega

/-- The test of the loop says whether there is another entry. -/
theorem MmapTag.entryAt_lt (h : MmapTag m tag entrySize entries) {i : ℕ} (hi : i ≤ entries.length) :
    entryAt tag entrySize i < tag + m.load32 (tag + 4) ↔ i < entries.length := by
  have hfits := h.fits
  have hwide := h.wide
  have hsize : (tag + m.load32 (tag + 4)).toNat = tag.toNat + 16 + entries.length * entrySize.toNat := by
    rw [UInt32.toNat_add, h.load_size, Nat.mod_eq_of_lt hfits, tagBytes, Nat.add_assoc]
  rw [UInt32.lt_iff_toNat_lt, h.toNat_entryAt hi, hsize, Nat.add_lt_add_iff_left]
  exact Nat.mul_lt_mul_right (by omega)

theorem entryAt_succ (tag entrySize : UInt32) (i : ℕ) :
    entryAt tag entrySize (i + 1) = entryAt tag entrySize i + entrySize := by
  rw [entryAt, entryAt, UInt32.ofNat_add, UInt32.add_mul, ← UInt32.add_assoc]
  show _ + 1 * entrySize = _
  rw [UInt32.one_mul]

theorem entryAt_zero (tag entrySize : UInt32) : entryAt tag entrySize 0 = tag + 16 := by
  simp [entryAt]

/-- The tag stays when its bytes do. -/
theorem MmapTag.of_eqOn (h : MmapTag m tag entrySize entries)
    (he : Set.EqOn m' m (span tag (tagBytes entrySize entries.length))) :
    MmapTag m' tag entrySize entries := by
  have hfits := h.fits
  have hwide := h.wide
  have hsub : ∀ (a : UInt32) (k : ℕ), tag.toNat ≤ a.toNat →
    a.toNat + k ≤ tag.toNat + tagBytes entrySize entries.length →
      Set.EqOn m' m (span a k) := fun a k hlo hhi => he.mono (span_subset_span (by omega) hlo hhi)
  have hhead : ∀ k : ℕ, k < 2 ^ 32 → k + 4 ≤ 16 →
    m'.load32 (tag + UInt32.ofNat k) = m.load32 (tag + UInt32.ofNat k) := by
    intro k hk hk'
    rw [tagBytes] at *
    have := toNat_add_ofNat (a := tag) (i := k) (by omega)
    exact Mem.load32_congr (hsub _ _ (by omega) (by omega))
  refine ⟨?_, ?_, ?_, hwide, hfits, fun i hi => ?_⟩
  · have := hhead 0 (by omega) (by omega)
    rw [show tag + UInt32.ofNat 0 = tag by simp] at this
    rw [this, h.load_type]
  · exact (congrArg UInt32.toNat (hhead 4 (by omega) (by omega))).trans h.load_size
  · exact (hhead 8 (by omega) (by omega)).trans h.load_entrySize
  · rw [← h.load_entry i hi]
    have haddr := h.toNat_entryAt (Nat.le_of_lt hi)
    have hnext : (i + 1) * entrySize.toNat ≤ entries.length * entrySize.toNat := Nat.mul_le_mul_right _ hi
    rw [Nat.add_mul, Nat.one_mul] at hnext
    rw [tagBytes] at *
    have h8 := toNat_add_ofNat (a := entryAt tag entrySize i) (i := 8) (by omega)
    have h16 := toNat_add_ofNat (a := entryAt tag entrySize i) (i := 16) (by omega)
    rw [readEntry, readEntry, Mem.load64_congr (hsub (entryAt tag entrySize i) 8 (by omega) (by omega)),
      Mem.load64_congr (hsub (entryAt tag entrySize i + 8) 8 (by show _ ≤ (_ + UInt32.ofNat 8).toNat; omega)
        (by show (_ + UInt32.ofNat 8).toNat + _ ≤ _; omega)),
      Mem.load32_congr (hsub (entryAt tag entrySize i + 16) 4 (by show _ ≤ (_ + UInt32.ofNat 16).toNat; omega)
        (by show (_ + UInt32.ofNat 16).toNat + _ ≤ _; omega))]

end MmapTag

section mmapLoop

variable {α : Type} {tag entrySize : UInt32} {entries : List MmapEntry} {body : UInt32 → α → KernelM α}
  {i : ℕ} {a a' : α}
  {s s' : Kernel}

theorem mmapStep_of_entry (h : MmapTag s.mem tag entrySize entries) (hi : i < entries.length)
    (hrun : body (entryAt tag entrySize i) a s = .ok a' s') (h' : MmapTag s'.mem tag entrySize entries) :
    mmapStep tag body (entryAt tag entrySize i, a) s = .ok (.inl (entryAt tag entrySize (i + 1), a')) s' := by
  rw [mmapStep, bind_of_ok (get_apply s), if_pos ((h.entryAt_lt (Nat.le_of_lt hi)).mpr hi), bind_of_ok hrun,
    bind_of_ok (get_apply s'), pure_apply, h'.load_entrySize, entryAt_succ]

theorem mmapStep_at_end (h : MmapTag s.mem tag entrySize entries) :
    mmapStep tag body (entryAt tag entrySize entries.length, a) s = .ok (.inr a) s := by
  rw [mmapStep, bind_of_ok (get_apply s), if_neg (by rw [h.entryAt_lt le_rfl]; omega), pure_apply]

/-- **The loop over the entries ends**, and carries what its body carries from one entry to the next. -/
theorem mmapLoop_ok {P : ℕ → α → Kernel → Prop}
    (htag : ∀ i a s, P i a s → MmapTag s.mem tag entrySize entries)
    (hbody : ∀ i < entries.length, ∀ a s, P i a s →
      ∃ a' s', body (entryAt tag entrySize i) a s = .ok a' s' ∧ P (i + 1) a' s')
    {fuel : ℕ} (hfuel : entries.length < fuel) (h0 : P 0 a s) :
    ∃ a' s', mmapLoop tag body fuel a s = .ok a' s' ∧ P entries.length a' s' := by
  refine loopM_inv (P := fun i x s => x.1 = entryAt tag entrySize i ∧ P i x.2 s)
    (k := entries.length) ?_ ?_ 0 fuel
    (Nat.zero_le _) (by omega) ⟨(entryAt_zero tag entrySize).symm, h0⟩
  · rintro i hi ⟨mmap, a⟩ s ⟨rfl, hP⟩
    obtain ⟨a', s', hrun, hP'⟩ := hbody i hi a s hP
    exact ⟨_, s', mmapStep_of_entry (htag i a s hP) hi hrun (htag _ _ _ hP'), rfl, hP'⟩
  · rintro ⟨mmap, a⟩ s ⟨rfl, hP⟩
    exact ⟨a, s, mmapStep_at_end (htag _ a s hP), hP⟩

end mmapLoop

/-! ### What reading the map does -/

/-- The bytes that the entries count up to. -/
def mapBytes (entries : List MmapEntry) : UInt32 := (entries.map MmapEntry.lenLow).sum

/-- The size of the bitmap for the entries. -/
def mapBitmapSize (entries : List MmapEntry) : UInt32 := mapBytes entries / 4096 / 8 + 1

/-- The frames that the first `n` entries have reserved: from the entry on, not from the region on. -/
def reservedFrames (tag entrySize : UInt32) (entries : List MmapEntry) (n : ℕ) : Set ℕ :=
  {f | ∃ i, ∃ h : i < entries.length, i < n ∧ entries[i].available = false ∧
    f ∈ frames (entryAt tag entrySize i) (numPages entries[i].lenLow)}

/-- The frames that reading the map marks: those of the bitmap, and those of the entries. -/
def mapFrames (kernelEnd tag entrySize : UInt32) (entries : List MmapEntry) : Set ℕ :=
  frames kernelEnd (numPages (mapBitmapSize entries)) ∪ reservedFrames tag entrySize entries entries.length

/-- The memory map of `s` is stored outside the bitmap that it will make, and outside the bytes of
the bits that it will set. -/
structure MapStored (s : Kernel) (entrySize : UInt32) (entries : List MmapEntry) : Prop where
  tag : MmapTag s.mem s.tags.memoryMap entrySize entries
  bitmap_apart : Disjoint (span s.tags.memoryMap (tagBytes entrySize entries.length))
    (span s.kernelEnd (mapBitmapSize entries).toNat)
  bits_apart : Disjoint (span s.tags.memoryMap (tagBytes entrySize entries.length))
    (Bitmap.bytes ⟨mapBitmapSize entries, s.kernelEnd⟩
      (mapFrames s.kernelEnd s.tags.memoryMap entrySize entries))

/-- What reading the map has done. -/
structure MapRead (s s₁ : Kernel) (entrySize : UInt32) (entries : List MmapEntry) : Prop where
  same : s₁ = { s with mem := s₁.mem, kernelEnd := s₁.kernelEnd, pfa := s₁.pfa, trace := s₁.trace }
  kernelEnd : s₁.kernelEnd = s.kernelEnd + mapBitmapSize entries
  bitmap : s₁.pfa.pageBitmap = ⟨mapBitmapSize entries, s.kernelEnd⟩
  marked : s₁.marked =
    mapFrames s.kernelEnd s.tags.memoryMap entrySize entries ∩ Set.Iio s₁.pfa.pageBitmap.length
  mem : Set.EqOn s₁.mem s.mem (span s.kernelEnd (mapBitmapSize entries).toNat ∪
    Bitmap.bytes ⟨mapBitmapSize entries, s.kernelEnd⟩
    (mapFrames s.kernelEnd s.tags.memoryMap entrySize entries))ᶜ

/-- The size of the bitmap for some bytes of memory. -/
theorem toNat_bitmapSize (memorySize : UInt32) :
    (memorySize / 4096 / 8 + 1).toNat = memorySize.toNat / 32768 + 1 := by
  have hlt := memorySize.toNat_lt
  rw [UInt32.toNat_add, UInt32.toNat_div, UInt32.toNat_div]
  show (_ / 4096 / 8 + 1) % 2 ^ 32 = _
  omega

/-- The size of the bitmap is at most that for 4 GiB. -/
theorem mapBitmapSize_le (entries : List MmapEntry) : (mapBitmapSize entries).toNat ≤ 2 ^ 17 := by
  have hlt := (mapBytes entries).toNat_lt
  rw [mapBitmapSize, toNat_bitmapSize]
  omega

theorem mapBitmapSize_length (entries : List MmapEntry) (buffer : UInt32) :
    Bitmap.length ⟨mapBitmapSize entries, buffer⟩ = (mapBitmapSize entries).toNat * 8 := by
  have := mapBitmapSize_le entries
  exact Bitmap.length_eq (by show (mapBitmapSize entries).toNat * 8 < _; omega)

/-- Counting changes the free memory, and the trace. -/
def Counted (s t : Kernel) : Prop :=
  t = { s with pfa := { s.pfa with freeMemory := t.pfa.freeMemory }, trace := t.trace }

theorem mapBytes_take_succ {entries : List MmapEntry} {i : ℕ} (hi : i < entries.length) :
    mapBytes (entries.take (i + 1)) = mapBytes (entries.take i) + entries[i].lenLow := by
  rw [mapBytes, mapBytes, List.take_succ_eq_append_getElem hi, List.map_append, List.sum_append]
  simp

/-- The bytes of the available entries. -/
def freeBytes (entries : List MmapEntry) : UInt32 :=
  (entries.map fun entry => if entry.available then entry.lenLow else 0).sum

theorem freeBytes_take_succ {entries : List MmapEntry} {i : ℕ} (hi : i < entries.length) :
    freeBytes (entries.take (i + 1)) =
      freeBytes (entries.take i) + if entries[i].available then entries[i].lenLow else 0 := by
  rw [freeBytes, freeBytes, List.take_succ_eq_append_getElem hi, List.map_append, List.sum_append]
  simp

section MapRead

variable {s t : Kernel} {tag entrySize : UInt32} {entries : List MmapEntry}

/-- The first loop counts the memory. -/
theorem mmapLoop_count (h : MmapTag s.mem tag entrySize entries) {fuel : ℕ} (hfuel : entries.length < fuel) :
    ∃ t, mmapLoop tag countEntry fuel 0 s = .ok (mapBytes entries) t ∧ Counted s t ∧
      t.pfa.freeMemory = s.pfa.freeMemory + freeBytes entries := by
  have htag : ∀ (i : ℕ) (a : UInt32) (t : Kernel), a = mapBytes (entries.take i) ∧ Counted s t ∧
      t.pfa.freeMemory = s.pfa.freeMemory + freeBytes (entries.take i) →
      MmapTag t.mem tag entrySize entries := by
    rintro i a t ⟨-, ht, -⟩
    rw [ht]
    exact h
  have hbody : ∀ i < entries.length, ∀ (a : UInt32) (t : Kernel), a = mapBytes (entries.take i) ∧
    Counted s t ∧
      t.pfa.freeMemory = s.pfa.freeMemory + freeBytes (entries.take i) →
      ∃ a' t', countEntry (entryAt tag entrySize i) a t = .ok a' t' ∧
        a' = mapBytes (entries.take (i + 1)) ∧ Counted s t' ∧
          t'.pfa.freeMemory = s.pfa.freeMemory + freeBytes (entries.take (i + 1)) := by
    rintro i hi a t ⟨rfl, ht, hfree⟩
    have hmem : t.mem = s.mem := by rw [ht]
    refine ⟨_, _, rfl, ?_, ?_, ?_⟩
    · rw [hmem, h.load_entry i hi, mapBytes_take_succ hi]
    · rw [Counted, ht]
      split <;> rfl
    · rw [hmem, h.load_entry i hi, freeBytes_take_succ hi, ← UInt32.add_assoc, ← hfree]
      cases entries[i].available with
      | true => rfl
      | false => exact (UInt32.add_zero _).symm
  have hstart : 0 = mapBytes (entries.take 0) ∧ Counted s s ∧
      s.pfa.freeMemory = s.pfa.freeMemory + freeBytes (entries.take 0) := ⟨rfl, rfl, (UInt32.add_zero _).symm⟩
  obtain ⟨memorySize, t, hrun, hsize, ht⟩ := mmapLoop_ok htag hbody hfuel hstart
  rw [List.take_length] at hsize ht
  exact ⟨t, hsize ▸ hrun, ht⟩

/-! ### The bitmap -/

/-- The new bitmap is empty. -/
theorem initBitmap_marked (bitmapSize bufferAddress : UInt32) (s : Kernel) :
    (initBitmap bitmapSize bufferAddress s).marked = ∅ := by
  refine Set.eq_empty_of_forall_notMem ?_
  rintro f ⟨hlt, hf⟩
  rw [Bitmap.bits_of_zero] at hf
  · cases hf
  · exact memset_of_mem (Bitmap.byteAddr_mem_span hlt) 0 s.mem

/-- The bitmap is made: at the kernel's end, with its own frames locked, and the kernel ends after it. -/
structure BitmapMade (s t : Kernel) (bitmapSize : UInt32) : Prop where
  same : t = { s with mem := t.mem, kernelEnd := t.kernelEnd, pfa := t.pfa }
  kernelEnd : t.kernelEnd = s.kernelEnd + bitmapSize
  bitmap : t.pfa.pageBitmap = ⟨bitmapSize, s.kernelEnd⟩
  marked : t.marked = frames s.kernelEnd (numPages bitmapSize) ∩ Set.Iio t.pfa.pageBitmap.length
  mem : Set.EqOn t.mem s.mem (span s.kernelEnd bitmapSize.toNat ∪
    Bitmap.bytes ⟨bitmapSize, s.kernelEnd⟩ (frames s.kernelEnd (numPages bitmapSize)))ᶜ

theorem pfaMakeBitmap_made (memorySize : UInt32) (s : Kernel) :
    BitmapMade s (pfaMakeBitmap memorySize s) (memorySize / 4096 / 8 + 1) := by
  obtain ⟨bitmapSize, hsize⟩ : ∃ bitmapSize, bitmapSize = memorySize / 4096 / 8 + 1 := ⟨_, rfl⟩
  obtain ⟨u, hu⟩ :
    ∃ u, u = pfaLockPages s.kernelEnd (numPages bitmapSize) (initBitmap bitmapSize s.kernelEnd s) := ⟨_, rfl⟩
  have heq : pfaMakeBitmap memorySize s = { u with kernelEnd := u.kernelEnd + bitmapSize } := by
    rw [hu, hsize]
    rfl
  have hmarks := pfaLockPages_marks s.kernelEnd (numPages bitmapSize) (initBitmap bitmapSize s.kernelEnd s)
  have hmarked := hmarks.marked_union
  have hinit : initBitmap bitmapSize s.kernelEnd s = { s with
    pfa := { s.pfa with pageBitmap := ⟨bitmapSize, s.kernelEnd⟩ }
    mem := memset s.kernelEnd 0 bitmapSize s.mem } := rfl
  rw [initBitmap_marked, Set.empty_union] at hmarked
  rw [← hu] at hmarks hmarked
  rw [heq, ← hsize]
  have hbitmap : u.pfa.pageBitmap = ⟨bitmapSize, s.kernelEnd⟩ := hmarks.bitmap
  have hend : u.kernelEnd = s.kernelEnd := by rw [hmarks.same, hinit]
  refine ⟨?_, by rw [hend], hbitmap, ?_, fun a ha => ?_⟩
  · rw [hmarks.same, hinit]
  · rw [hbitmap]
    exact hmarked
  · rw [Set.mem_compl_iff, Set.mem_union, not_or] at ha
    exact (hmarks.mem ha.2).trans (eqOn_memset _ _ _ _ ha.1)

/-! ### The reservations -/

/-- From `s` to `t` the frames `F` were marked, and nothing else changed but the counters and the trace. -/
structure Reserved (F : Set ℕ) (s t : Kernel) : Prop where
  same : t = { s with mem := t.mem, pfa := t.pfa, trace := t.trace }
  bitmap : t.pfa.pageBitmap = s.pfa.pageBitmap
  marked : t.marked = s.marked ∪ (F ∩ Set.Iio s.pfa.pageBitmap.length)
  mem : Set.EqOn t.mem s.mem (s.pfa.pageBitmap.bytes F)ᶜ

/-- From `s` to `t` the frames `F` were reserved and counted, and something was written down. -/
def ReserveCounted (F : Set ℕ) (s t : Kernel) : Prop :=
  ∃ u, t = { u with trace := t.trace } ∧ Tallied true (PageOp.reserve.moved 1) F s u

theorem ReserveCounted.refl (s : Kernel) : ReserveCounted ∅ s s := ⟨s, rfl, Tallied.refl _ _ s⟩

theorem ReserveCounted.emit {F : Set ℕ} (h : ReserveCounted F s t) (e : Event) :
    ReserveCounted F s (t.emit e) := by
  obtain ⟨u, ht, hu⟩ := h
  exact ⟨u, by rw [ht]; rfl, hu⟩

theorem ReserveCounted.reserved {F : Set ℕ} (h : ReserveCounted F s t) : Reserved F s t := by
  obtain ⟨u, ht, hu⟩ := h
  obtain ⟨hsame, hbitmap, -, -, -, hmem⟩ := hu.marks
  rw [ht]
  exact ⟨by rw [hsame], hbitmap, hu.marks.marked_union, hmem⟩

/-- The trace plays no part in what an operation does. -/
theorem Tallied.retrace {value : Bool} {count : Pfa → Pfa} {F : Set ℕ} (h : Tallied value count F s t)
    (es : List Event) :
    Tallied value count F { s with trace := es } { t with trace := es } := by
  obtain ⟨⟨hsame, hbitmap, hinit, hin, hout, hmem⟩, hbelow, htally⟩ := h
  exact ⟨⟨by rw [hsame], hbitmap, hinit, hin, hout, hmem⟩, hbelow, htally⟩

theorem ReserveCounted.tallied {F G : Set ℕ} {v : Kernel} (h : ReserveCounted F s t)
    (hv : Tallied true (PageOp.reserve.moved 1) G t v) : ReserveCounted (F ∪ G) s v := by
  obtain ⟨u, ht, hu⟩ := h
  have hback := hv.retrace u.trace
  rw [ht] at hback
  exact ⟨{ v with trace := u.trace }, rfl, hu.trans hback⟩

theorem Bitmap.bytes_mono {bitmap : Bitmap} {F G : Set ℕ} (h : F ⊆ G) : bitmap.bytes F ⊆ bitmap.bytes G :=
  fun _ ⟨f, hf, hfa⟩ => ⟨f, h hf, hfa⟩

theorem reservedFrames_zero (tag entrySize : UInt32) (entries : List MmapEntry) :
    reservedFrames tag entrySize entries 0 = ∅ :=
  Set.eq_empty_of_forall_notMem fun _ ⟨_, _, hlt, _⟩ => absurd hlt (Nat.not_lt_zero _)

theorem reservedFrames_mono (tag entrySize : UInt32) (entries : List MmapEntry) {n k : ℕ} (h : n ≤ k) :
    reservedFrames tag entrySize entries n ⊆ reservedFrames tag entrySize entries k :=
  fun _ ⟨i, hi, hlt, hf⟩ => ⟨i, hi, by omega, hf⟩

theorem reservedFrames_succ (tag entrySize : UInt32) {i : ℕ} (hi : i < entries.length) :
    reservedFrames tag entrySize entries (i + 1) = reservedFrames tag entrySize entries i ∪
      if entries[i].available then ∅ else frames (entryAt tag entrySize i) (numPages entries[i].lenLow) := by
  ext f
  constructor
  · rintro ⟨j, hj, hlt, havail, hf⟩
    rcases Nat.lt_or_eq_of_le (Nat.le_of_lt_succ hlt) with hji | rfl
    · exact Or.inl ⟨j, hj, hji, havail, hf⟩
    · right
      rw [havail]
      exact hf
  · rintro (hf | hf)
    · exact reservedFrames_mono _ _ _ (Nat.le_succ i) hf
    · cases havail : entries[i].available with
      | true =>
        rw [havail] at hf
        exact absurd hf (Set.notMem_empty f)
      | false =>
        rw [havail] at hf
        exact ⟨i, hi, Nat.lt_succ_self i, havail, hf⟩

/-- The second loop marks the frames from the entries on, and counts those that it marks. -/
theorem mmapLoop_reserve (h : MmapTag s.mem tag entrySize entries)
    (hapart : Disjoint (span tag (tagBytes entrySize entries.length))
      (s.pfa.pageBitmap.bytes (reservedFrames tag entrySize entries entries.length)))
    {fuel : ℕ} (hfuel : entries.length < fuel) :
    ∃ t, mmapLoop tag reserveEntry fuel ⟨⟩ s = .ok ⟨⟩ t ∧
      ReserveCounted (reservedFrames tag entrySize entries entries.length) s t := by
  have htag : ∀ (i : ℕ) (a : PUnit) (t : Kernel),
      i ≤ entries.length ∧ ReserveCounted (reservedFrames tag entrySize entries i) s t →
      MmapTag t.mem tag entrySize entries := by
    rintro i a t ⟨hi, ht⟩
    have hclear : span tag (tagBytes entrySize entries.length) ⊆
        (s.pfa.pageBitmap.bytes (reservedFrames tag entrySize entries i))ᶜ :=
      fun b hb hmem => Set.disjoint_left.mp hapart hb (Bitmap.bytes_mono (reservedFrames_mono _ _ _ hi) hmem)
    exact h.of_eqOn (ht.reserved.mem.mono hclear)
  have hbody : ∀ i < entries.length, ∀ (a : PUnit) (t : Kernel),
      i ≤ entries.length ∧ ReserveCounted (reservedFrames tag entrySize entries i) s t →
      ∃ a' t', reserveEntry (entryAt tag entrySize i) a t = .ok a' t' ∧
        i + 1 ≤ entries.length ∧ ReserveCounted (reservedFrames tag entrySize entries (i + 1)) s t' := by
    rintro i hi a t ⟨hle, ht⟩
    have hentry := (htag i a t ⟨hle, ht⟩).load_entry i hi
    have hemit := ht.emit (.mmapEntry (entryAt tag entrySize i))
    refine ⟨_, _, rfl, hi, ?_⟩
    rw [hentry, reservedFrames_succ tag entrySize hi]
    cases entries[i].available with
    | true =>
      rw [if_pos rfl, if_pos rfl, Set.union_empty]
      exact hemit
    | false =>
      rw [if_neg Bool.false_ne_true, if_neg Bool.false_ne_true]
      exact hemit.tallied (PageOp.reserve.pages_tallied _ _ _)
  have hstart : 0 ≤ entries.length ∧ ReserveCounted (reservedFrames tag entrySize entries 0) s s := by
    rw [reservedFrames_zero]
    exact ⟨Nat.zero_le _, ReserveCounted.refl s⟩
  obtain ⟨_, t, hrun, -, ht⟩ := mmapLoop_ok htag hbody hfuel hstart
  exact ⟨t, hrun, ht⟩

theorem Bitmap.bytes_union (bitmap : Bitmap) (F G : Set ℕ) :
    bitmap.bytes (F ∪ G) = bitmap.bytes F ∪ bitmap.bytes G := by
  ext a
  simp only [Bitmap.bytes, Set.mem_ofPred_eq, Set.mem_union, or_and_right, exists_or]

/-- Reading a map, step by step: the memory is counted, the bitmap is made, and pages are reserved. -/
theorem pfaReadMultibootMemoryMap_steps (hfirst : s.pfa.initialized = false)
    (h : MapStored s entrySize entries) {fuel : ℕ} (hfuel : entries.length < fuel) :
    ∃ t v, Counted s t ∧ t.pfa.freeMemory = s.pfa.freeMemory + freeBytes entries ∧
      ReserveCounted (reservedFrames s.tags.memoryMap entrySize entries entries.length)
      (pfaMakeBitmap (mapBytes entries) t) v ∧
      pfaReadMultibootMemoryMap fuel s = .ok ⟨⟩ { v with pfa := { v.pfa with initialized := true } } := by
  obtain ⟨t, hcount, ht, hfree⟩ := mmapLoop_count (s := s.emit (.mmapTag s.tags.memoryMap)) h.tag hfuel
  have hmem : t.mem = s.mem := by rw [ht]; rfl
  have hend : t.kernelEnd = s.kernelEnd := by rw [ht]; rfl
  have hmade := pfaMakeBitmap_made (mapBytes entries) t
  rw [← mapBitmapSize] at hmade
  obtain ⟨u, hu⟩ : ∃ u, u = pfaMakeBitmap (mapBytes entries) t := ⟨_, rfl⟩
  rw [← hu] at hmade
  have hbits := h.bits_apart
  rw [mapFrames, Bitmap.bytes_union, Set.disjoint_union_right] at hbits
  have humem := hmade.mem
  rw [hmem, hend] at humem
  have htag : MmapTag u.mem s.tags.memoryMap entrySize entries := by
    refine h.tag.of_eqOn (humem.mono ?_)
    exact Set.disjoint_left.mp (Set.disjoint_union_right.mpr ⟨h.bitmap_apart, hbits.1⟩)
  have hbitmap : u.pfa.pageBitmap = ⟨mapBitmapSize entries, s.kernelEnd⟩ := hend ▸ hmade.bitmap
  obtain ⟨v, hreserve, hv⟩ := mmapLoop_reserve htag (by rw [hbitmap]; exact hbits.2) hfuel
  refine ⟨t, v, ht, hfree, hu ▸ hv, ?_⟩
  rw [hu] at hreserve
  exact (pfaReadMultibootMemoryMap_eq_ok hfirst).mpr
    ⟨mapBytes entries, t, v, hcount, by rw [hmem, h.tag.load_type], hreserve, rfl⟩

/-- **Reading a map ends, and marks** the frames of the bitmap and the frames from the addresses of the
entries that are not available on. -/
theorem pfaReadMultibootMemoryMap_ok (hfirst : s.pfa.initialized = false)
    (h : MapStored s entrySize entries) {fuel : ℕ} (hfuel : entries.length < fuel) :
    ∃ s₁, pfaReadMultibootMemoryMap fuel s = .ok ⟨⟩ s₁ ∧ MapRead s s₁ entrySize entries := by
  obtain ⟨t, v, ht, -, hcounted, hrun⟩ := pfaReadMultibootMemoryMap_steps hfirst h hfuel
  have hmem : t.mem = s.mem := by rw [ht]
  have hend : t.kernelEnd = s.kernelEnd := by rw [ht]
  have hmade := pfaMakeBitmap_made (mapBytes entries) t
  rw [← mapBitmapSize] at hmade
  have hv := hcounted.reserved
  generalize pfaMakeBitmap (mapBytes entries) t = u at hmade hv
  have hbitmap : u.pfa.pageBitmap = ⟨mapBitmapSize entries, s.kernelEnd⟩ := hend ▸ hmade.bitmap
  have humem := hmade.mem
  rw [hmem, hend] at humem
  refine ⟨_, hrun, ?_, ?_, ?_, ?_, ?_⟩
  · rw [hv.same, hmade.same, ht]
  · show v.kernelEnd = _
    rw [hv.same, hmade.kernelEnd, hend]
  · exact hv.bitmap.trans hbitmap
  · show v.marked = _
    rw [hv.marked, hmade.marked, hbitmap, hend, ← Set.union_inter_distrib_right, ← mapFrames]
    show _ = _ ∩ Set.Iio v.pfa.pageBitmap.length
    rw [hv.bitmap, hbitmap]
  · intro a ha
    rw [mapFrames, Bitmap.bytes_union, Set.mem_compl_iff, ← Set.union_assoc, Set.mem_union, not_or] at ha
    have hreserved :
      a ∉ u.pfa.pageBitmap.bytes (reservedFrames s.tags.memoryMap entrySize entries entries.length) := by
      rw [hbitmap]
      exact ha.2
    exact (hv.mem hreserved).trans (humem ha.1)

end MapRead

/-! ### Whatever the memory holds -/

/-- A loop over the entries goes along a relation that its body goes along. -/
theorem mmapStep_along {R : Kernel → Kernel → Prop} [Std.Refl R] [IsTrans Kernel R] {α : Type}
    {body : UInt32 → α → KernelM α} (h : ∀ mmap a, Along R (body mmap a)) (tag : UInt32) :
    ∀ x, Along R (mmapStep tag body x) := fun ⟨mmap, a⟩ =>
  Along.get.bind fun _ =>
    ((h mmap a).bind fun _ => Along.get.bind fun _ => Along.pure _).ite (Along.pure _)

theorem mmapLoop_along {R : Kernel → Kernel → Prop} [Std.Refl R] [IsTrans Kernel R] {α : Type}
    {body : UInt32 → α → KernelM α} (h : ∀ mmap a, Along R (body mmap a)) (tag : UInt32) (fuel : ℕ) (a : α) :
    Along R (mmapLoop tag body fuel a) :=
  Along.loopM (mmapStep_along h tag) fuel _

instance : Std.Refl Counted := ⟨fun _ => rfl⟩

instance : IsTrans Kernel Counted where
  trans s t u h h' := by rw [Counted, h', h]

theorem countEntry_counted (mmap memorySize : UInt32) : Along Counted (countEntry mmap memorySize) := by
  intro s
  simp only [countEntry, stop]
  split <;> rfl

theorem countEntry_quiet (mmap memorySize : UInt32) :
    Along (Emits Event.Quiet) (countEntry mmap memorySize) := by
  intro s
  simp only [countEntry, stop]
  split <;> exact emits_emit (e := .mmapEntry mmap) trivial s

theorem reserveEntry_quiet (mmap : UInt32) (a : PUnit) : Along (Emits Event.Quiet) (reserveEntry mmap a) := by
  intro s
  have hentry : Emits Event.Quiet s (s.emit (.mmapEntry mmap)) := emits_emit (by trivial) s
  simp only [reserveEntry, stop]
  split
  · exact hentry
  · exact hentry.trans (Emits.of_trace (by rw [(pfaReservePages_marks _ _ _).same]))

/-- Reading the map begins with its tag, and then maps no page. -/
theorem pfaReadMultibootMemoryMap_from {s : Kernel} (hfirst : s.pfa.initialized = false) (fuel : ℕ) :
    Emits Event.Quiet (s.emit (.mmapTag s.tags.memoryMap)) (stop (pfaReadMultibootMemoryMap fuel s)) := by
  have hmake : ∀ memorySize, Along (Emits Event.Quiet) (modify (pfaMakeBitmap memorySize) : KernelM PUnit) :=
    fun memorySize => emits_modify fun s => by rw [(pfaMakeBitmap_made memorySize s).same]
  rw [pfaReadMultibootMemoryMap, bind_of_ok (get_apply s), hfirst, if_neg Bool.false_ne_true,
    bind_of_ok (get_apply s)]
  refine Along.stop_bind _ (fun _ => ?_) s
  refine (mmapLoop_along countEntry_quiet _ fuel 0).bind fun memorySize => Along.get.bind fun _ => ?_
  refine (Along.throw _).ite ((hmake memorySize).bind fun _ => ?_)
  exact (mmapLoop_along reserveEntry_quiet _ fuel _).bind fun _ => emits_modify

/-- Reading the map maps no page. -/
theorem pfaReadMultibootMemoryMap_quiet (fuel : ℕ) :
    Along (Emits Event.Quiet) (pfaReadMultibootMemoryMap fuel) := by
  intro s
  cases hinit : s.pfa.initialized with
  | true =>
    rw [pfaReadMultibootMemoryMap, bind_of_ok (get_apply s), if_pos hinit]
    exact Emits.refl s
  | false => exact (emits_emit (by trivial) s).trans (pfaReadMultibootMemoryMap_from hinit fuel)

end JurasOS
