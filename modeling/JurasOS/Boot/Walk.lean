import JurasOS.Boot.Info

/-!
# The walks over the memory map

`pfa_read_multiboot_memory_map` walks over the memory map twice, from the address
after the tag's header on, by the size that the tag gives for an entry, while it is
below the end that the tag gives. It checks neither: an entry size of zero keeps the
walk where it is, and one that does not fit takes it out of the tag. What the walks
need of the tag is that the addresses they come to lead past its end by way of
entries that lie in it.
-/

namespace JurasOS

open Machine

/-- The entry at `a` lies wholly in the memory map tag at `tag`. -/
def EntryInside (m : Mem) (tag a : UInt32) : Prop :=
  tag.toNat ≤ a.toNat ∧ a.toNat + 24 ≤ tag.toNat + (m.load32 (tag + 4)).toNat

/-- An entry that was read is where `In` says. -/
def EntryIn (In : UInt32 → Prop) (e : Event) : Prop := ∀ a, e = .mmapEntry a → In a

/-- A walk over the entries of the tag ends after `k` of them, each where `In` says. -/
def WalkEnds (m : Mem) (tag : UInt32) (In : UInt32 → Prop) (k : ℕ) : Prop :=
  (∀ i < k, entryAt tag (m.load32 (tag + 8)) i < tag + m.load32 (tag + 4) ∧
    In (entryAt tag (m.load32 (tag + 8)) i)) ∧
    ¬ entryAt tag (m.load32 (tag + 8)) k < tag + m.load32 (tag + 4)

/-- The size of the tag and that of its entries are those of `m`. -/
structure SizesKept (m : Mem) (tag : UInt32) (t : Kernel) : Prop where
  size : t.mem.load32 (tag + 4) = m.load32 (tag + 4)
  entrySize : t.mem.load32 (tag + 8) = m.load32 (tag + 8)

theorem SizesKept.of_eqOn {m : Mem} {tag : UInt32} {t : Kernel} (h : Set.EqOn t.mem m (span (tag + 4) 8)) :
    SizesKept m tag t := by
  have hsub : span (tag + 4 + 4) 4 ⊆ span (tag + 4) 8 := span_offset_subset (by decide)
  rw [UInt32.add_assoc] at hsub
  exact ⟨Mem.load32_congr (h.mono (span_mono (by omega))), Mem.load32_congr (h.mono hsub)⟩

/-! ### A walk with any body -/

section WalkEnds

variable {α : Type} {m : Mem} {tag : UInt32} {In : UInt32 → Prop} {body : UInt32 → α → KernelM α} {k fuel : ℕ}
  {a a' : α} {s t : Kernel}

/-- The body of a walk does not halt, reads the entry, and keeps what `P` says, as long as it gets the
entries of the tag. -/
structure WalkBody (m : Mem) (tag : UInt32) (body : UInt32 → α → KernelM α) (P : Kernel → Prop) : Prop where
  sizes : ∀ t, P t → SizesKept m tag t
  run : ∀ i a t, P t → ∃ a' t', body (entryAt tag (m.load32 (tag + 8)) i) a t = .ok a' t' ∧ P t' ∧
    t'.trace = .mmapEntry (entryAt tag (m.load32 (tag + 8)) i) :: t.trace

theorem mmapStep_of_lt {i : ℕ} {s' : Kernel} (hs : SizesKept m tag s) (hs' : SizesKept m tag s')
    (hlt : entryAt tag (m.load32 (tag + 8)) i < tag + m.load32 (tag + 4))
    (hrun : body (entryAt tag (m.load32 (tag + 8)) i) a s = .ok a' s') :
    mmapStep tag body (entryAt tag (m.load32 (tag + 8)) i, a) s =
      .ok (.inl (entryAt tag (m.load32 (tag + 8)) (i + 1), a')) s' := by
  rw [mmapStep, bind_of_ok (get_apply s), hs.size, if_pos hlt, bind_of_ok hrun, bind_of_ok (get_apply s'),
    pure_apply, hs'.entrySize, entryAt_succ]

theorem mmapStep_of_not_lt {i : ℕ} (hs : SizesKept m tag s)
    (hlt : ¬ entryAt tag (m.load32 (tag + 8)) i < tag + m.load32 (tag + 4)) :
    mmapStep tag body (entryAt tag (m.load32 (tag + 8)) i, a) s = .ok (.inr a) s := by
  rw [mmapStep, bind_of_ok (get_apply s), hs.size, if_neg hlt, pure_apply]

/-- A walk that can end ends. -/
theorem WalkEnds.mmapLoop_ok {P : Kernel → Prop} (h : WalkEnds m tag In k) (hbody : WalkBody m tag body P)
    (hfuel : k < fuel) (hs : P s) :
    ∃ a' t, mmapLoop tag body fuel a s = .ok a' t ∧ P t ∧ Emits (EntryIn In) s t := by
  refine loopM_inv (P := fun i x t => x.1 = entryAt tag (m.load32 (tag + 8)) i ∧ P t ∧ Emits (EntryIn In) s t)
    (k := k) ?_ ?_ 0 fuel (Nat.zero_le k) (by omega) ⟨(entryAt_zero tag _).symm, hs, Emits.refl s⟩
  · rintro i hi ⟨mmap, a⟩ t ⟨rfl, ht, hemits⟩
    obtain ⟨hlt, hin⟩ := h.1 i hi
    obtain ⟨a', t', hrun, ht', htrace⟩ := hbody.run i a t ht
    refine ⟨_, t', mmapStep_of_lt (hbody.sizes t ht) (hbody.sizes t' ht') hlt hrun, rfl, ht', hemits.trans ?_⟩
    exact ⟨[_], htrace, fun e he => by rw [List.mem_singleton.mp he]; rintro _ ⟨⟩; exact hin⟩
  · rintro ⟨mmap, a⟩ t ⟨rfl, ht, hemits⟩
    exact ⟨a, t, mmapStep_of_not_lt (hbody.sizes t ht) h.2, ht, hemits⟩

/-- A walk that ended, having read entries where `In` says, is one that can end. -/
theorem WalkEnds.of_mmapLoop {P : Kernel → Prop} (hbody : WalkBody m tag body P)
    (hgo : ∀ mmap a, Along GoesOn (body mmap a)) (hs : P s) (hrun : mmapLoop tag body fuel a s = .ok a' t)
    (hin : Emits (EntryIn In) s t) : ∃ k, WalkEnds m tag In k := by
  have hwalk : ∀ i a s, P s → (∀ j < i, entryAt tag (m.load32 (tag + 8)) j < tag + m.load32 (tag + 4) ∧
      In (entryAt tag (m.load32 (tag + 8)) j)) →
      loopM .running (mmapStep tag body) fuel (entryAt tag (m.load32 (tag + 8)) i, a) s = .ok a' t →
      Emits (EntryIn In) s t → ∃ k, WalkEnds m tag In k := by
    clear hrun hin hs
    induction fuel with
    | zero =>
      intro i a s _ _ hrun
      cases hrun
    | succ fuel ih =>
      intro i a s hs hbefore hrun hin
      by_cases hlt : entryAt tag (m.load32 (tag + 8)) i < tag + m.load32 (tag + 4)
      · obtain ⟨a₁, s₁, hone, hs₁, htrace⟩ := hbody.run i a s hs
        have hrun' :=
          (bind_of_ok (mmapStep_of_lt (hbody.sizes s hs) (hbody.sizes s₁ hs₁) hlt hone)).symm.trans
          hrun
        have hrest : GoesOn s₁ t := (Along.loopM (mmapStep_along hgo tag) fuel _).of_ok hrun'
        obtain ⟨hhead, htail⟩ := Emits.of_first htrace hrest hin
        refine ih (i + 1) a₁ s₁ hs₁ (fun j hj => ?_) hrun' htail
        rcases Nat.lt_succ_iff_lt_or_eq.mp hj with hj | rfl
        · exact hbefore j hj
        · exact ⟨hlt, hhead _ rfl⟩
      · exact ⟨i, hbefore, hlt⟩
  refine hwalk 0 a s hs (fun j hj => absurd hj (Nat.not_lt_zero j)) ?_ hin
  rw [entryAt_zero]
  exact hrun

end WalkEnds

/-! ### The two walks -/

section pfaReadMultibootMemoryMap

variable {m : Mem} {tag : UInt32} {In : UInt32 → Prop} {fuel k : ℕ} {s s₁ : Kernel}

/-- Counting the entries writes no memory. -/
theorem countEntry_walkBody (s : Kernel) (tag : UInt32) : WalkBody s.mem tag countEntry (Counted s) where
  sizes t ht := by
    have hmem : t.mem = s.mem := by rw [ht]
    exact .of_eqOn fun _ _ => by rw [hmem]
  run i a t ht := by
    refine ⟨_, _, rfl, IsTrans.trans _ _ _ ht (countEntry_counted _ a t), ?_⟩
    split <;> rfl

/-- Reserving the entries writes on the bitmap's memory, off the sizes in the tag's header. -/
theorem reserveEntry_walkBody (u : Kernel)
    (hsizes : Set.EqOn u.mem m (span (tag + 4) 8))
    (hapart : Disjoint (span (tag + 4) 8) (span u.pfa.pageBitmap.buffer (2 ^ 17))) :
    WalkBody m tag reserveEntry (MarksOnly u) where
  sizes t ht := .of_eqOn fun _ hb => (ht.mem (Set.disjoint_left.mp hapart hb)).trans (hsizes hb)
  run i a t ht := by
    refine ⟨_, _, rfl, IsTrans.trans _ _ _ ht (reserveEntry_marksOnly _ a t), ?_⟩
    split
    · rfl
    · rw [(pfaReservePages_marks _ _ _).same]
      rfl

theorem goesOn_of_quiet {α : Type} {x : KernelM α} (h : Along (Emits Event.Quiet) x) : Along GoesOn x :=
  fun s => (h s).mono fun _ _ => trivial

/-- The first walk of a run that ended, having read entries where `In` says, is one that can end. -/
theorem WalkEnds.of_read (hfirst : s.pfa.initialized = false)
    (hrun : pfaReadMultibootMemoryMap fuel s = .ok ⟨⟩ s₁) (hin : Emits (EntryIn In) s s₁) :
    ∃ k, WalkEnds s.mem s.tags.memoryMap In k := by
  obtain ⟨memorySize, t, v, hcount, -, hreserve, rfl⟩ := (pfaReadMultibootMemoryMap_eq_ok hfirst).mp hrun
  have hgo := fun mmap a => goesOn_of_quiet (countEntry_quiet mmap a)
  have htag : GoesOn s (s.emit (.mmapTag s.tags.memoryMap)) := emits_emit trivial s
  have hwalked : GoesOn (s.emit (.mmapTag s.tags.memoryMap)) t := (mmapLoop_along hgo _ fuel 0).of_ok hcount
  have hmaking : GoesOn t (pfaMakeBitmap memorySize t) := Emits.of_trace (by
    rw [(pfaMakeBitmap_made memorySize t).same])
  have hreserved : GoesOn (pfaMakeBitmap memorySize t) v :=
    (mmapLoop_along (fun mmap a => goesOn_of_quiet (reserveEntry_quiet mmap a)) _ fuel _).of_ok hreserve
  have hrested := (hmaking.trans hreserved).trans (Emits.of_trace rfl)
  obtain ⟨hcounted, -⟩ := Emits.split (htag.trans hwalked) hrested hin
  obtain ⟨-, hentries⟩ := Emits.split htag hwalked hcounted
  exact WalkEnds.of_mmapLoop (countEntry_walkBody s s.tags.memoryMap) hgo
    (rfl : Counted s (s.emit (.mmapTag s.tags.memoryMap))) hcount hentries

/-- Both walks end, if the sizes in the tag's header are off the memory that the bitmap takes. -/
theorem WalkEnds.read_ok (hfirst : s.pfa.initialized = false) (htype : s.mem.load32 s.tags.memoryMap = 6)
    (hapart : Disjoint (span (s.tags.memoryMap + 4) 8) (span s.kernelEnd (2 ^ 17)))
    (h : WalkEnds s.mem s.tags.memoryMap In k) (hfuel : k < fuel) :
    ∃ s₁, pfaReadMultibootMemoryMap fuel s = .ok ⟨⟩ s₁ ∧ Emits (EntryIn In) s s₁ := by
  have htag : Emits (EntryIn In) s (s.emit (.mmapTag s.tags.memoryMap)) := emits_emit (by rintro _ ⟨⟩) s
  obtain ⟨memorySize, t, hcount, ht, hcounted⟩ :=
    h.mmapLoop_ok (a := 0) (countEntry_walkBody s s.tags.memoryMap) hfuel
      (rfl : Counted s (s.emit (.mmapTag s.tags.memoryMap)))
  have hmem : t.mem = s.mem := by rw [ht]
  have hend : t.kernelEnd = s.kernelEnd := by rw [ht]
  obtain ⟨u, hu⟩ : ∃ u, u = pfaMakeBitmap memorySize t := ⟨_, rfl⟩
  have hmade := pfaMakeBitmap_made memorySize t
  have humem := pfaMakeBitmap_mem memorySize t
  rw [← hu] at hmade humem
  rw [hend, hmem] at humem
  have hmaking : Emits (EntryIn In) t u := Emits.of_trace (by rw [hmade.same])
  have hbuffer : u.pfa.pageBitmap.buffer = s.kernelEnd := by rw [hmade.bitmap, hend]
  obtain ⟨_, v, hreserve, -, hreserved⟩ := h.mmapLoop_ok (a := PUnit.unit)
    (reserveEntry_walkBody u (humem.mono (Set.disjoint_left.mp hapart)) (by rwa [hbuffer])) hfuel
    (Std.Refl.refl u)
  refine ⟨{ v with pfa := { v.pfa with initialized := true } }, ?_, ?_⟩
  · rw [hu] at hreserve
    exact (pfaReadMultibootMemoryMap_eq_ok hfirst).mpr
      ⟨memorySize, t, v, hcount, by rw [hmem, htype], hreserve, rfl⟩
  · have hall := ((htag.trans hcounted).trans hmaking).trans hreserved
    exact hall.trans (Emits.of_trace rfl)

/-- **Both walks end, and read entries that lie in the tag only, exactly when** the entries, from the tag's
header on, lead past the end that the tag gives by way of entries that lie in it. -/
theorem pfaReadMultibootMemoryMap_ends_iff (hfirst : s.pfa.initialized = false)
    (htype : s.mem.load32 s.tags.memoryMap = 6)
    (hapart : Disjoint (span (s.tags.memoryMap + 4) 8) (span s.kernelEnd (2 ^ 17))) :
    (∃ fuel s₁, pfaReadMultibootMemoryMap fuel s = .ok ⟨⟩ s₁ ∧
        Emits (EntryIn (EntryInside s.mem s.tags.memoryMap)) s s₁) ↔
      ∃ k, WalkEnds s.mem s.tags.memoryMap (EntryInside s.mem s.tags.memoryMap) k := by
  constructor
  · rintro ⟨fuel, s₁, hrun, hin⟩
    exact WalkEnds.of_read hfirst hrun hin
  · rintro ⟨k, h⟩
    exact ⟨k + 1, h.read_ok hfirst htype hapart (Nat.lt_succ_self k)⟩

/-- Entries of size zero are one. -/
theorem entryAt_of_zero (tag : UInt32) (i : ℕ) : entryAt tag 0 i = tag + 16 := by
  simp [entryAt]

/-- A kernel of a mebibyte with the map of an available region at `tag`, of this length in units of 64 KiB
and of this entry size. -/
def walkKernel (tag : UInt32) (entrySize length : UInt8) : Kernel :=
  { Kernel.loaded with
    mem := fun a => ([6, 0, 0, 0, 40, 0, 0, 0, entrySize, 0, 0, 0, 0, 0, 0, 0,
      0, 0, 0, 0, 0, 0, 0, 0, 0, 0, length, 0, 0, 0, 0, 0, 1, 0, 0, 0, 0, 0, 0, 0] :
      List UInt8).getD (a - tag).toNat 0
    kernelEnd := 0x100000
    tags := { Kernel.loaded.tags with memoryMap := tag } }

/-- A map of three entries below the kernel, two of them reserved pages, is read. -/
theorem pfaReadMultibootMemoryMap_ends_splitKernel :
    ∃ fuel s₁, pfaReadMultibootMemoryMap fuel splitKernel = .ok ⟨⟩ s₁ ∧
      Emits (EntryIn (EntryInside splitKernel.mem 0x10000)) splitKernel s₁ := by
  refine (pfaReadMultibootMemoryMap_ends_iff rfl (by decide)
    (disjoint_span (by decide) (by decide) (Or.inl (by decide)))).mpr ⟨3, fun i hi => ?_, by decide⟩
  obtain rfl | rfl | rfl : i = 0 ∨ i = 1 ∨ i = 2 := by omega
  all_goals exact ⟨by decide, by decide, by decide⟩

/-- The memory of the bitmap for eight mebibytes, after its own page is locked: the bit 256 is set. -/
def bitMem : Mem := fun a => if a = 0x100020 then 0x80 else 0

/-- With the tag 28 bytes after the kernel's end the bitmap is made over it: its size becomes 128, the size
of its entries zero. -/
theorem pfaMakeBitmap_over {t : Kernel} (hend : t.kernelEnd = 0x100000) :
    Set.EqOn (pfaMakeBitmap 0x800000 t).mem bitMem (span 0x100000 257) ∧
      (pfaMakeBitmap 0x800000 t).pfa.pageBitmap = ⟨257, 0x100000⟩ ∧
      (pfaMakeBitmap 0x800000 t).taken 256 = true := by
  obtain ⟨i, hi⟩ : ∃ i, i = initBitmap 257 0x100000 t := ⟨_, rfl⟩
  have hzero : ∀ a ∈ span 0x100000 257, i.mem a = 0 := by
    intro a ha
    rw [hi]
    exact memset_of_mem ha 0 t.mem
  have hbitmap : i.pfa.pageBitmap = ⟨257, 0x100000⟩ := by
    rw [hi]
    rfl
  have hmade : pfaMakeBitmap 0x800000 t = { pfaLockPage 0x100000 i with
      kernelEnd := (pfaLockPage 0x100000 i).kernelEnd + 257 } := by
    have hsize : (0x800000 : UInt32) / 4096 / 8 + 1 = 257 := by decide
    have hpages : numPages 257 = 1 := by decide
    rw [← pfaEachPage_one pfaLockPage, hi, ← hpages, ← hend]
    simp only [pfaMakeBitmap, hsize]
    rfl
  have hmarks := pfaLockPage_marks 0x100000 i
  rw [hmade]
  refine ⟨fun a ha => ?_, hmarks.bitmap.trans hbitmap, hmarks.inside 256 (by decide) (by decide)⟩
  show (pfaLockPage 0x100000 i).mem a = if a = 0x100020 then 0x80 else 0
  have hclear : bitmapGet i.mem ⟨257, 0x100000⟩ 256 = false :=
    Bitmap.bits_of_zero (i := 256) (hzero 0x100020 (mem_span.mpr (by decide)))
  have hlock : (pfaLockPage 0x100000 i).mem = bitmapSet i.mem ⟨257, 0x100000⟩ 256 true := by
    have hindex : (0x100000 : UInt32) / 4096 = 256 := by decide
    simp only [pfaLockPage, pfaMark, hbitmap, hindex, hclear, Bool.false_eq_true, if_false]
  rw [hlock]
  by_cases heq : a = 0x100020
  · rw [if_pos heq, heq]
    show (i.mem 0x100020 &&& ~~~bitIndexer 256) ||| bitIndexer 256 = 0x80
    rw [hzero 0x100020 (mem_span.mpr (by decide))]
    decide
  · have hother : a ∉ ({Bitmap.byteAddr ⟨257, 0x100000⟩ 256} : Set UInt32) := heq
    rw [if_neg heq, eqOn_bitmapSet _ _ _ _ hother, hzero a ha]

/-- After that, the second walk stays where it is: the page that it reserves is taken. -/
theorem reserveEntry_over {u : Kernel} (hmem : Set.EqOn u.mem bitMem (span 0x100000 257))
    (hbitmap : u.pfa.pageBitmap = ⟨257, 0x100000⟩) (htaken : u.taken 256 = true) :
    WalkBody bitMem 0x10001C reserveEntry fun v =>
      v.mem = u.mem ∧ v.pfa.pageBitmap = ⟨257, 0x100000⟩ where
  sizes v hv := by
    refine .of_eqOn ?_
    rw [hv.1]
    exact hmem.mono (span_subset_span (b := 0x100000) (by decide) (by decide) (by decide))
  run i _ v hv := by
    obtain ⟨hvmem, hvbitmap⟩ := hv
    have hmmap : entryAt 0x10001C (bitMem.load32 (0x10001C + 8)) i = 0x10002C := by
      have hsize : bitMem.load32 (0x10001C + 8) = 0 := by decide
      rw [hsize, entryAt_of_zero]
      rfl
    have hload : ∀ (a : UInt32) (n : ℕ), 0x100000 ≤ a.toNat → a.toNat + n ≤ 0x100101 →
        Set.EqOn v.mem bitMem (span a n) := by
      intro a n hlo hhi
      rw [hvmem]
      exact hmem.mono (span_subset_span (b := 0x100000) (by decide) hlo hhi)
    have hentry : readEntry v.mem 0x10002C = ⟨0, 0, 0⟩ := by
      rw [readEntry, Mem.load64_congr (hload 0x10002C 8 (by decide) (by decide)),
        Mem.load64_congr (hload (0x10002C + 8) 8 (by decide) (by decide)),
        Mem.load32_congr (hload (0x10002C + 16) 4 (by decide) (by decide))]
      decide
    have hpages : numPages (MmapEntry.lenLow ⟨0, 0, 0⟩) = 1 := by decide
    have htaken' : bitmapGet v.mem v.pfa.pageBitmap 256 = true := by
      rw [hvmem, hvbitmap, ← hbitmap]
      exact htaken
    have hreserve : pfaReservePage 0x10002C (v.emit (.mmapEntry 0x10002C)) = v.emit (.mmapEntry 0x10002C) :=
      if_pos htaken'
    refine ⟨⟨⟩, v.emit (.mmapEntry 0x10002C), ?_, ⟨hvmem, hvbitmap⟩, by rw [hmmap]; rfl⟩
    rw [hmmap, reserveEntry, hentry, hpages, pfaReservePages, pfaEachPage_one, hreserve]
    rfl

/-- An entry size of zero keeps the walk where it is, for ever; and so does a bitmap that is made over a
map with one entry. -/
theorem pfaReadMultibootMemoryMap_never_ends :
    (¬ ∃ fuel s₁, pfaReadMultibootMemoryMap fuel (walkKernel 0x10000 0 0x10) = .ok ⟨⟩ s₁) ∧
      WalkEnds (walkKernel 0x10001C 24 0x80).mem 0x10001C
        (EntryInside (walkKernel 0x10001C 24 0x80).mem 0x10001C) 1 ∧
      ¬ ∃ fuel s₁, pfaReadMultibootMemoryMap fuel (walkKernel 0x10001C 24 0x80) = .ok ⟨⟩ s₁ := by
  refine ⟨?_, ⟨fun i hi => ?_, by decide⟩, ?_⟩
  · rintro ⟨fuel, s₁, hrun⟩
    have hin : Emits (EntryIn fun _ => True) (walkKernel 0x10000 0 0x10) s₁ :=
      ((pfaReadMultibootMemoryMap_quiet fuel).of_ok hrun).mono fun _ _ _ _ => trivial
    obtain ⟨k, -, hend⟩ := WalkEnds.of_read rfl hrun hin
    have hsize : (walkKernel 0x10000 0 0x10).mem.load32 (0x10000 + 8) = 0 := by decide
    refine hend ?_
    show entryAt 0x10000 ((walkKernel 0x10000 0 0x10).mem.load32 (0x10000 + 8)) k < _
    rw [hsize, entryAt_of_zero]
    decide
  · obtain rfl : i = 0 := by omega
    exact ⟨by decide, by decide, by decide⟩
  · rintro ⟨fuel, s₁, hrun⟩
    have htag : MmapTag (walkKernel 0x10001C 24 0x80).mem 0x10001C 24 [⟨0, 0x800000, 1⟩] :=
      ⟨by decide, by decide, by decide, by decide, by decide, by decide⟩
    obtain ⟨memorySize, t, v, hcount, -, hreserve, -⟩ := (pfaReadMultibootMemoryMap_eq_ok rfl).mp hrun
    -- the first walk counts the memory, whatever iterations it may make
    obtain ⟨t', hcount', ht, -⟩ := mmapLoop_count
      (s := (walkKernel 0x10001C 24 0x80).emit (.mmapTag 0x10001C)) htag (by simp : 1 < fuel + 2)
    have hmore : mmapLoop 0x10001C countEntry (fuel + 2) 0
        ((walkKernel 0x10001C 24 0x80).emit (.mmapTag 0x10001C)) = .ok memorySize t :=
      loopM_of_le (Nat.le_add_right fuel 2) hcount
    rw [hmore] at hcount'
    cases hcount'
    have hend : t.kernelEnd = 0x100000 := by
      rw [ht]
      rfl
    obtain ⟨hmem, hbitmap, htaken⟩ := pfaMakeBitmap_over hend
    have hbytes : mapBytes [⟨0, 0x800000, 1⟩] = 0x800000 := by decide
    rw [hbytes] at hreserve
    have hgo := fun mmap a => goesOn_of_quiet (reserveEntry_quiet mmap a)
    have hin : Emits (EntryIn fun _ => True) (pfaMakeBitmap 0x800000 t) v :=
      ((mmapLoop_along hgo _ fuel _).of_ok hreserve).mono fun _ _ _ _ => trivial
    obtain ⟨k, -, hk⟩ := WalkEnds.of_mmapLoop (reserveEntry_over hmem hbitmap htaken) hgo ⟨rfl, hbitmap⟩
      hreserve hin
    have hsize : bitMem.load32 (0x10001C + 8) = 0 := by decide
    refine hk ?_
    rw [hsize, entryAt_of_zero]
    decide

end pfaReadMultibootMemoryMap

end JurasOS
