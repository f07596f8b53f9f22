import JurasOS.Drivers.Ahci

/-!
# The steps of `ahci_configure_port`

What each step of the call does to the memory, when the record of the port, its
registers and the bitmap lie apart, off the clear frames and the first kilobyte:
then the pages that are requested are the first clear frames in ascending order, and
every store goes where it is meant to, but for those of the command headers.
`Configuring` is what holds between the steps.
-/

namespace JurasOS

open Machine Alloc

/-- The address of a frame. -/
def pageOf (f : ℕ) : UInt32 := UInt32.ofNat f * 4096

/-- The bytes of a frame. -/
def frameBytes (f : ℕ) : Set UInt32 := span (pageOf f) 4096

/-- The bytes of the bitmap of the allocator. -/
def Kernel.bitmapBytes (s : Kernel) : Set UInt32 := span s.pfa.pageBitmap.buffer s.pfa.pageBitmap.size.toNat

/-- The frames in the bitmap that are clear. -/
def Kernel.clearFrames (s : Kernel) : Finset ℕ :=
  (Finset.range s.pfa.pageBitmap.length).filter fun f => s.taken f = false

/-- The bytes that the call relies on: the address in the record, the registers and the bitmap. -/
def fixedBytes (port hba : UInt32) (s : Kernel) : Set UInt32 := span port 4 ∪ span hba 0x80 ∪ s.bitmapBytes

/-- The record at `port` is that of the registers at `hba`, and what the call relies on lies apart from each
other, from the frames that are clear, and from the first kilobyte of memory. -/
structure PortReady (port hba : UInt32) (s : Kernel) : Prop where
  record : s.mem.load32 port = hba
  small : s.pfa.pageBitmap.size.toNat * 8 ≤ 2 ^ 20
  record_registers : Disjoint (span port 4) (span hba 0x80)
  record_bitmap : Disjoint (span port 4) s.bitmapBytes
  registers_bitmap : Disjoint (span hba 0x80) s.bitmapBytes
  frames_off : ∀ f ∈ s.clearFrames, Disjoint (frameBytes f) (fixedBytes port hba s)
  low_off : Disjoint (span 0 1024) (fixedBytes port hba s)

/-- The first frame from `k` on that is clear. -/
structure FirstFrom (s : Kernel) (k f : ℕ) : Prop where
  le : k ≤ f
  clear : f ∈ s.clearFrames
  between : ∀ g, k ≤ g → g < f → s.taken g = true

/-- Between the steps, after `j` requests at most: the clear frames below `k` were taken, and the record still
says where the registers are. -/
structure Configuring (port hba : UInt32) (s : Kernel) (k j : ℕ) (v : Kernel) : Prop where
  bitmap : v.pfa.pageBitmap = s.pfa.pageBitmap
  taken : ∀ f < s.pfa.pageBitmap.length, v.taken f = true ↔ s.taken f = true ∨ f < k
  few : (s.clearFrames.filter (· < k)).card ≤ j
  record : v.mem.load32 port = hba

section Configuring

variable {port hba : UInt32} {s v v' : Kernel} {k j f : ℕ}

/-! ### Frames -/

theorem mem_clearFrames : f ∈ s.clearFrames ↔ f < s.pfa.pageBitmap.length ∧ s.taken f = false := by
  rw [Kernel.clearFrames, Finset.mem_filter, Finset.mem_range]

theorem PortReady.length_le (h : PortReady port hba s) : s.pfa.pageBitmap.length ≤ 2 ^ 20 := by
  have hsmall := h.small
  rw [Bitmap.length_eq (by omega)]
  exact hsmall

theorem PortReady.lt_of_clear (h : PortReady port hba s) (hf : f ∈ s.clearFrames) : f < 2 ^ 20 :=
  lt_of_lt_of_le (mem_clearFrames.mp hf).1 h.length_le

theorem toNat_pageOf (hf : f < 2 ^ 20) : (pageOf f).toNat = f * 4096 := by
  have hframe := toNat_frame hf
  have haligned := toNat_page_aligned f
  rw [pageOf]
  omega

theorem mem_frameBytes (hf : f < 2 ^ 20) {a : UInt32} : a ∈ frameBytes f ↔ a.toNat / 4096 = f := by
  have hpage := toNat_pageOf hf
  rw [frameBytes, mem_span_iff (by omega)]
  omega

theorem frameBytes_disjoint {g : ℕ} (hf : f < 2 ^ 20) (hg : g < 2 ^ 20) (hne : f ≠ g) :
    Disjoint (frameBytes f) (frameBytes g) := by
  refine Set.disjoint_left.mpr fun a ha ha' => ?_
  rw [mem_frameBytes hf] at ha
  rw [mem_frameBytes hg] at ha'
  omega

/-- Frames other than the first are off the first kilobyte. -/
theorem frameBytes_low (hf : f < 2 ^ 20) (hpos : 0 < f) : Disjoint (frameBytes f) (span 0 1024) := by
  refine Set.disjoint_left.mpr fun a ha ha' => ?_
  rw [mem_frameBytes hf] at ha
  rw [mem_span_iff (by decide)] at ha'
  have hzero : (0 : UInt32).toNat = 0 := rfl
  omega

/-! ### The steps keep what the call relies on -/

theorem PortReady.configuring (h : PortReady port hba s) : Configuring port hba s 0 0 s :=
  ⟨rfl, fun f _ => by simp, by simp, h.record⟩

/-- A store off the record and the bitmap. -/
theorem Configuring.write (h : Configuring port hba s k j v) {W : Set UInt32} (hpfa : v'.pfa = v.pfa)
    (hm : Set.EqOn v'.mem v.mem Wᶜ) (hrecord : Disjoint W (span port 4))
    (hbitmap : Disjoint W s.bitmapBytes) :
    Configuring port hba s k j v' := by
  refine ⟨by rw [hpfa, h.bitmap], fun f hf => ?_, h.few, ?_⟩
  · rw [← h.taken f hf, Kernel.taken, Kernel.taken, hpfa, h.bitmap]
    refine iff_of_eq (congrArg (· = true) (Bitmap.bits_congr (hm ?_)))
    exact Set.disjoint_right.mp hbitmap (Bitmap.byteAddr_mem_span hf)
  · rw [Mem.load32_congr (hm.mono (Set.disjoint_right.mp hrecord)), h.record]

/-- With fewer requests than there were clear frames, one of these is left. -/
theorem Configuring.exists_clear (h : Configuring port hba s k j v) (hfree : j < s.clearFrames.card) :
    ∃ f ∈ s.clearFrames, k ≤ f := by
  by_contra hnone
  have hall : s.clearFrames.filter (· < k) = s.clearFrames :=
    Finset.filter_true_of_mem fun f hf => Nat.not_le.mp fun hle => hnone ⟨f, hf, hle⟩
  have hfew := h.few
  rw [hall] at hfew
  omega

/-- The frames that were clear and are below the next one are those below the last one, and that one. -/
theorem FirstFrom.filter_subset (h : FirstFrom s k f) :
    s.clearFrames.filter (· < f + 1) ⊆ insert f (s.clearFrames.filter (· < k)) := by
  intro g hg
  obtain ⟨hclear, hlt⟩ := Finset.mem_filter.mp hg
  rw [Finset.mem_insert, Finset.mem_filter]
  by_cases hgf : g = f
  · exact Or.inl hgf
  · refine Or.inr ⟨hclear, Nat.lt_of_not_le fun hle => ?_⟩
    have htaken := h.between g hle (by omega)
    rw [(mem_clearFrames.mp hclear).2] at htaken
    cases htaken

/-- The search finds the first clear frame that is left, as long as there is one. -/
theorem Configuring.exists_clearPage (h : Configuring port hba s k j v) (hfree : j < s.clearFrames.card) :
    ∃ f, clearPage v = some f ∧ FirstFrom s k f := by
  cases hsearch : clearPage v with
  | none =>
    obtain ⟨f, hf, hle⟩ := h.exists_clear hfree
    obtain ⟨hlt, hclear⟩ := mem_clearFrames.mp hf
    rw [clearPage, h.bitmap, firstClear_eq_none] at hsearch
    rcases (h.taken f hlt).mp (hsearch f hlt) with htaken | hbelow
    · rw [hclear] at htaken
      cases htaken
    · omega
  | some f =>
    rw [clearPage, h.bitmap, firstClear_eq_some] at hsearch
    obtain ⟨hlt, hclear, hbefore⟩ := hsearch
    have hnot : ¬ (s.taken f = true ∨ f < k) := by
      rw [← h.taken f hlt, hclear]
      exact Bool.false_ne_true
    rw [not_or, Bool.not_eq_true, Nat.not_lt] at hnot
    refine ⟨f, rfl, hnot.2, mem_clearFrames.mpr ⟨hlt, hnot.1⟩, fun g hle hgf => ?_⟩
    exact ((h.taken g (lt_trans hgf hlt)).mp (hbefore g hgf)).resolve_right (by omega)

/-- Locking the first clear frame that is left. -/
theorem Configuring.lock (h : Configuring port hba s k j v) (hready : PortReady port hba s)
    (hfirst : FirstFrom s k f) :
    Configuring port hba s (f + 1) (j + 1) (pfaLockPage (pageOf f) v) ∧
      Set.EqOn (pfaLockPage (pageOf f) v).mem v.mem s.bitmapBytesᶜ := by
  have hlt := (mem_clearFrames.mp hfirst.clear).1
  have hmarks := pfaLockPage_marks (pageOf f) v
  rw [pageOf, toNat_frame (hready.lt_of_clear hfirst.clear), ← pageOf] at hmarks
  have hmem : Set.EqOn (pfaLockPage (pageOf f) v).mem v.mem s.bitmapBytesᶜ := by
    refine hmarks.mem.mono (Set.compl_subset_compl.mpr ?_)
    rw [h.bitmap]
    rintro a ⟨g, rfl, rfl⟩
    exact Bitmap.byteAddr_mem_span hlt
  refine ⟨⟨?_, fun g hg => ?_, ?_, ?_⟩, hmem⟩
  · rw [hmarks.bitmap, h.bitmap]
  · have hglt : g < 2 ^ 32 := lt_of_lt_of_le hg (hready.length_le.trans (by decide))
    by_cases hgf : g = f
    · rw [hgf, hmarks.inside f rfl (hgf ▸ hglt)]
      exact iff_of_true rfl (Or.inr (Nat.lt_succ_self f))
    · rw [hmarks.outside g hgf hglt, h.taken g hg]
      have hle := hfirst.le
      refine or_congr_right' fun hgs => ⟨fun hgk => by omega, fun hgk => ?_⟩
      by_contra hkg
      exact hgs (hfirst.between g (Nat.not_lt.mp hkg) (by omega))
  · exact (Finset.card_le_card hfirst.filter_subset).trans
      ((Finset.card_insert_le _ _).trans (Nat.add_le_add_right h.few 1))
  · rw [Mem.load32_congr (hmem.mono (Set.disjoint_left.mp hready.record_bitmap)), h.record]

/-- A request takes the first clear frame that is left, as long as there is one. -/
theorem Configuring.request (h : Configuring port hba s k j v) (hready : PortReady port hba s)
    (hfree : j < s.clearFrames.card) :
    ∃ f v', pfaRequestPage v = .ok (some (pageOf f)) v' ∧ FirstFrom s k f ∧
      Configuring port hba s (f + 1) (j + 1) v' ∧ Set.EqOn v'.mem v.mem s.bitmapBytesᶜ := by
  obtain ⟨f, hsearch, hfirst⟩ := h.exists_clearPage hfree
  have hrun : pfaRequestPage v = .ok (some (pageOf f)) (pfaLockPage (pageOf f) v) := by
    rw [pfaRequestPage, pfaRequest_of_some hsearch, bind_of_ok (modify_apply ..)]
    rfl
  exact ⟨f, _, hrun, hfirst, h.lock hready hfirst⟩

/-! ### The registers -/

theorem hbaRead_apply (a : UInt32) (s : Kernel) : hbaRead a s = .ok (s.mem.load32 a) (s.emit (.hba a)) := rfl

theorem hbaWrite_apply (a x : UInt32) (s : Kernel) :
    hbaWrite a x s = .ok ⟨⟩ { s.emit (.hba a) with mem := s.mem.store32 a x } := rfl

/-- The upper half of a pointer. -/
def upperHalf (p : UInt32) : UInt32 := (pointerToUInt64 p >>> 32).toUInt32

/-- What lies in the registers is off the record and the bitmap. -/
theorem PortReady.register_off (h : PortReady port hba s) {x : UInt32} {n : ℕ} (hx : x.toNat + n ≤ 0x80) :
    Disjoint (span (hba + x) n) (span port 4) ∧ Disjoint (span (hba + x) n) s.bitmapBytes :=
  ⟨(h.record_registers.mono_right (span_offset_subset hx)).symm,
    h.registers_bitmap.mono_left (span_offset_subset hx)⟩

/-- What is off all that the call relies on is off each part of it. -/
theorem fixedBytes_off {W : Set UInt32} (h : Disjoint W (fixedBytes port hba s)) :
    Disjoint W (span port 4) ∧ Disjoint W (span hba 0x80) ∧ Disjoint W s.bitmapBytes :=
  ⟨h.mono_right (Set.subset_union_left.trans Set.subset_union_left),
    h.mono_right (Set.subset_union_right.trans Set.subset_union_left), h.mono_right Set.subset_union_right⟩

/-- Clearing the beginning of a frame that was clear. -/
theorem Configuring.memset_frame (h : Configuring port hba s k j v) (hready : PortReady port hba s)
    (hf : f ∈ s.clearFrames) {size : UInt32} (hsize : size.toNat ≤ 4096) (hpfa : v'.pfa = v.pfa)
    (hm : v'.mem = memset (pageOf f) 0 size v.mem) :
    Configuring port hba s k j v' ∧ Set.EqOn v'.mem v.mem (frameBytes f)ᶜ := by
  have hsub : span (pageOf f) size.toNat ⊆ frameBytes f := span_mono hsize
  have hoff : Set.EqOn v'.mem v.mem (frameBytes f)ᶜ := by
    rw [hm]
    exact (eqOn_memset ..).mono (Set.compl_subset_compl.mpr hsub)
  obtain ⟨hrecord, -, hbitmap⟩ := fixedBytes_off (hready.frames_off f hf)
  exact ⟨h.write hpfa hoff hrecord hbitmap, hoff⟩

/-- A write to a register. -/
theorem Configuring.hbaWrite_ok (h : Configuring port hba s k j v) (hready : PortReady port hba s)
    {x : UInt32} (hx : x.toNat + 4 ≤ 0x80) (value : UInt32) :
    ∃ v', hbaWrite (hba + x) value v = .ok ⟨⟩ v' ∧ Configuring port hba s k j v' ∧
      v'.mem = v.mem.store32 (hba + x) value := by
  obtain ⟨hrecord, hbitmap⟩ := hready.register_off hx
  exact ⟨_, hbaWrite_apply .., h.write rfl (Mem.eqOn_store32 ..) hrecord hbitmap, rfl⟩

/-- The address of a register, through the record. -/
theorem Configuring.load_record (h : Configuring port hba s k j v) : load32 port v = .ok hba v := by
  rw [load32_apply, h.record]

/-- `ahci_configure_port` gets a page for the list, or for what is received, and clears its beginning. -/
theorem Configuring.portBase (h : Configuring port hba s k j v) (hready : PortReady port hba s)
    (hfree : j < s.clearFrames.card) (offset size : UInt32) (hoffset : offset.toNat + 8 ≤ 0x80)
    (hsize : size.toNat ≤ 4096) :
    ∃ f v', ahciPortBase port offset size v = .ok ⟨⟩ v' ∧ FirstFrom s k f ∧
      Configuring port hba s (f + 1) (j + 1) v' ∧ v'.mem.load32 (hba + offset) = pageOf f ∧
      v'.mem.load32 (hba + (offset + 4)) = upperHalf (pageOf f) ∧
      (∀ a ∈ span (pageOf f) size.toNat, v'.mem a = 0) ∧
      Set.EqOn v'.mem v.mem (span (hba + offset) 8 ∪ s.bitmapBytes ∪ frameBytes f)ᶜ := by
  have hfour : (offset + 4).toNat = offset.toNat + 4 := toNat_add_ofNat (i := 4) (by omega)
  obtain ⟨f, v₁, hrequest, hfirst, h₁, hm₁⟩ := h.request hready hfree
  obtain ⟨v₂, hlower, h₂, hm₂⟩ := h₁.hbaWrite_ok hready (x := offset) (by omega) (pageOf f)
  obtain ⟨v₃, hupper, h₃, hm₃⟩ := h₂.hbaWrite_ok hready (x := offset + 4) (by omega) (upperHalf (pageOf f))
  have hpair : Disjoint (span (hba + offset) 4) (span (hba + (offset + 4)) 4) :=
    disjoint_span_offset (by omega) (by omega) (Or.inl (by omega))
  have hbase : v₃.mem.load32 (hba + offset) = pageOf f := by
    rw [hm₃, Mem.load32_store32_of_disjoint hpair, hm₂, Mem.load32_store32]
  obtain ⟨v₄, hv₄⟩ : ∃ v₄, v₄ = (v₃.emit (.hba (hba + offset))).memset (pageOf f) 0 size := ⟨_, rfl⟩
  have hm₄ : v₄.mem = memset (pageOf f) 0 size v₃.mem := by rw [hv₄]; rfl
  obtain ⟨h₄, hoff⟩ := h₃.memset_frame hready hfirst.clear hsize (by rw [hv₄]; rfl) hm₄
  obtain ⟨-, hregisters, -⟩ := fixedBytes_off (hready.frames_off f hfirst.clear)
  have hkept : ∀ {x : UInt32}, x.toNat + 4 ≤ 0x80 → v₄.mem.load32 (hba + x) = v₃.mem.load32 (hba + x) :=
    fun hx => Mem.load32_congr (hoff.mono
      (Set.disjoint_left.mp (hregisters.symm.mono_left (span_offset_subset hx))))
  refine ⟨f, v₄, ?_, hfirst, h₄, ?_, ?_, fun a ha => ?_, ?_⟩
  · rw [ahciPortBase, bind_of_ok hrequest, Option.getD_some, bind_of_ok h₁.load_record, bind_of_ok hlower,
      bind_of_ok h₂.load_record]
    refine (bind_of_ok hupper).trans ?_
    rw [bind_of_ok h₃.load_record, bind_of_ok (hbaRead_apply ..), hbase, hv₄, modify_apply]
  · rw [hkept (by omega), hbase]
  · rw [hkept (by omega), hm₃, Mem.load32_store32]
  · rw [hm₄, memset_of_mem ha]
  · have hpart : span (hba + (offset + 4)) 4 ⊆ span (hba + offset) 8 := by
      rw [← UInt32.add_assoc]
      exact span_offset_subset (by decide)
    intro a ha
    simp only [Set.mem_compl_iff, Set.mem_union, not_or] at ha
    obtain ⟨⟨hregister, hbit⟩, hframe⟩ := ha
    rw [hoff hframe, hm₃,
      Mem.eqOn_store32 _ _ _ fun hmem => hregister (hpart hmem), hm₂,
      Mem.eqOn_store32 _ _ _ fun hmem => hregister (span_mono (by decide) hmem), hm₁ hbit]

/-! ### The command headers -/

/-- The address of the command header `i`, when the list is at 0. -/
def headerAt (i : ℕ) : UInt32 := 32 * UInt32.ofNat i

/-- What `ahci_configure_port` makes of the address of a table. -/
def tableAddr (f i : ℕ) : UInt64 := pointerToUInt64 (pageOf f) + (UInt64.ofNat i <<< 8)

theorem toNat_headerAt {i : ℕ} (hi : i < 32) : (headerAt i).toNat = 32 * i := by
  rw [headerAt, UInt32.toNat_mul, UInt32.toNat_ofNat']
  show 32 * (i % 2 ^ 32) % 2 ^ 32 = _
  omega

/-- The headers at 0 are in the first kilobyte. -/
theorem headerAt_low {i : ℕ} (hi : i < 32) {x : UInt32} {n : ℕ} (hx : x.toNat + n ≤ 32) :
    span (headerAt i + x) n ⊆ span 0 1024 := by
  have hheader := toNat_headerAt hi
  have hzero : (0 : UInt32).toNat = 0 := rfl
  have hsum := toNat_add_of_lt (a := headerAt i) (b := x) (by omega)
  exact span_subset_span (by decide) (by omega) (by omega)

/-- The sum of the halves is shifted, and of the address that is left the pointer has the lower half. -/
theorem toUInt32_shiftLeft (x : UInt64) : (x <<< 32).toUInt32 = 0 := by
  rw [← UInt32.toNat_inj, UInt64.toNat_toUInt32, UInt64.toNat_shiftLeft]
  show _ <<< 32 % 2 ^ 64 % 2 ^ 32 = 0
  rw [Nat.shiftLeft_eq]
  omega

/-- A store to a command header. -/
theorem Configuring.headerStore (h : Configuring port hba s k j v) (hready : PortReady port hba s) {i : ℕ}
    (hi : i < 32) {x : UInt32} {n : ℕ} (hx : x.toNat + n ≤ 32) (store : Mem → Mem)
    (hm : Set.EqOn (store v.mem) v.mem (span (headerAt i + x) n)ᶜ) :
    ∃ v', (modify fun s => { s with mem := store s.mem } : KernelM PUnit) v = .ok ⟨⟩ v' ∧
      Configuring port hba s k j v' ∧ v'.mem = store v.mem := by
  obtain ⟨hrecord, -, hbitmap⟩ := fixedBytes_off hready.low_off
  have hlow := headerAt_low hi hx
  exact ⟨_, modify_apply .., h.write rfl hm (hrecord.mono_left hlow) (hbitmap.mono_left hlow), rfl⟩

/-- A command header is written, and gets a page for its table. -/
theorem Configuring.commandHeader (h : Configuring port hba s k j v) (hready : PortReady port hba s)
    (hfree : j < s.clearFrames.card) (hk : 0 < k) {i : ℕ} (hi : i < 32) :
    ∃ f v', ahciCommandHeader 0 i v = .ok ⟨⟩ v' ∧ FirstFrom s k f ∧
    Configuring port hba s (f + 1) (j + 1) v' ∧
      v'.mem.load32 (headerAt i + 8) = (tableAddr f i).toUInt32 ∧
      v'.mem.load32 (headerAt i + 12) = (tableAddr f i >>> 32).toUInt32 ∧
      Set.EqOn v'.mem v.mem (span (headerAt i) 32 ∪ s.bitmapBytes ∪ frameBytes f)ᶜ := by
  obtain ⟨v₁, hcount, h₁, hm₁⟩ := h.headerStore hready hi (x := 2) (n := 2) (by decide)
    (fun m => m.store16 (headerAt i + 2) 8) (Mem.eqOn_store16 ..)
  obtain ⟨f, v₂, hrequest, hfirst, h₂, hm₂⟩ := h₁.request hready hfree
  obtain ⟨v₃, hlower, h₃, hm₃⟩ := h₂.headerStore hready hi (x := 8) (n := 4) (by decide)
    (fun m => m.store32 (headerAt i + 8) (tableAddr f i).toUInt32) (Mem.eqOn_store32 ..)
  obtain ⟨v₄, hupper, h₄, hm₄⟩ := h₃.headerStore hready hi (x := 12) (n := 4) (by decide)
    (fun m => m.store32 (headerAt i + 12) (tableAddr f i >>> 32).toUInt32) (Mem.eqOn_store32 ..)
  obtain ⟨v₅, hv₅⟩ : ∃ v₅, v₅ = v₄.memset (pageOf f) 0 256 := ⟨_, rfl⟩
  have hm₅ : v₅.mem = memset (pageOf f) 0 256 v₄.mem := by rw [hv₅]; rfl
  obtain ⟨h₅, hoff⟩ := h₄.memset_frame hready hfirst.clear (by decide) (by rw [hv₅]; rfl) hm₅
  have hlow := frameBytes_low (hready.lt_of_clear hfirst.clear) (lt_of_lt_of_le hk hfirst.le)
  have hkept : ∀ {x : UInt32}, x.toNat + 4 ≤ 32 →
      v₅.mem.load32 (headerAt i + x) = v₄.mem.load32 (headerAt i + x) :=
    fun hx => Mem.load32_congr (hoff.mono
      (Set.disjoint_left.mp (hlow.mono_right (headerAt_low hi hx)).symm))
  have hpair : Disjoint (span (headerAt i + 8) 4) (span (headerAt i + 12) 4) :=
    disjoint_span_offset (by decide) (by decide) (Or.inl (by decide))
  refine ⟨f, v₅, ?_, hfirst, h₅, ?_, ?_, ?_⟩
  · rw [ahciCommandHeader, UInt32.zero_add, ← headerAt, bind_of_ok hcount, bind_of_ok hrequest,
      Option.getD_some, ← tableAddr]
    refine (bind_of_ok hlower).trans ((bind_of_ok hupper).trans ?_)
    rw [modify_apply, hv₅]
  · rw [hkept (by decide), hm₄, Mem.load32_store32_of_disjoint hpair, hm₃, Mem.load32_store32]
  · rw [hkept (by decide), hm₄, Mem.load32_store32]
  · intro a ha
    simp only [Set.mem_compl_iff, Set.mem_union, not_or] at ha
    obtain ⟨⟨hheader, hbit⟩, hframe⟩ := ha
    have hout : ∀ {x : UInt32} {n : ℕ}, x.toNat + n ≤ 32 → a ∉ span (headerAt i + x) n :=
      fun hx hmem => hheader (span_offset_subset hx hmem)
    rw [hoff hframe, hm₄, Mem.eqOn_store32 _ _ _ (hout (by decide)), hm₃,
      Mem.eqOn_store32 _ _ _ (hout (by decide)), hm₂ hbit, hm₁, Mem.eqOn_store16 _ _ _ (hout (by decide))]

end Configuring

end JurasOS
