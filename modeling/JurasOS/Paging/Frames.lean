import JurasOS.Alloc.FirstFit
import JurasOS.Kernel.Bitmap

/-!
# `page_frame_allocator.c`: locking, freeing and reserving frames

The four operations on a page differ in the bit they write and in the counters
they move: each is `pfaMark` with its own bit and counters. The four operations
on a run of pages call these, page by page. `Marks` says what any of them does:
the bits of some frames get a value, and nothing else of the memory changes.
-/

namespace JurasOS

open Machine Alloc

/-- `NUM_PAGES(x)`. -/
def numPages (x : UInt32) : UInt32 := x / 4098 + 1

/-- The body shared by the four operations on a page: nothing happens if the bit of the page is
already as asked, else the bit is written and the counters are moved. -/
def pfaMark (value : Bool) (count : Pfa → Pfa) (address : UInt32) (s : Kernel) : Kernel :=
  let index := address / 4096
  if bitmapGet s.mem s.pfa.pageBitmap index = value then s
  else { s with mem := bitmapSet s.mem s.pfa.pageBitmap index value, pfa := count s.pfa }

/-- `pfa_free_page`. -/
def pfaFreePage : UInt32 → Kernel → Kernel :=
  pfaMark false fun pfa =>
    { pfa with freeMemory := pfa.freeMemory + 4096, usedMemory := pfa.usedMemory - 4096 }

/-- `pfa_lock_page`. -/
def pfaLockPage : UInt32 → Kernel → Kernel :=
  pfaMark true fun pfa =>
    { pfa with freeMemory := pfa.freeMemory - 4096, usedMemory := pfa.usedMemory + 4096 }

/-- `pfa_unreserve_page`. -/
def pfaUnreservePage : UInt32 → Kernel → Kernel :=
  pfaMark false fun pfa => { pfa with reservedMemory := pfa.reservedMemory - 4096 }

/-- `pfa_reserve_page`. -/
def pfaReservePage : UInt32 → Kernel → Kernel :=
  pfaMark true fun pfa => { pfa with reservedMemory := pfa.reservedMemory + 4096 }

/-- The loop shared by the four operations on a run of pages. -/
def pfaEachPage (mark : UInt32 → Kernel → Kernel) (address pageCount : UInt32) (s : Kernel) : Kernel :=
  times pageCount.toNat (fun i => mark (address + UInt32.ofNat i * 4096)) s

/-- `pfa_free_pages`. -/
def pfaFreePages : UInt32 → UInt32 → Kernel → Kernel := pfaEachPage pfaFreePage

/-- `pfa_lock_pages`. -/
def pfaLockPages : UInt32 → UInt32 → Kernel → Kernel := pfaEachPage pfaLockPage

/-- `pfa_unreserve_pages`. -/
def pfaUnreservePages : UInt32 → UInt32 → Kernel → Kernel := pfaEachPage pfaUnreservePage

/-- `pfa_reserve_pages`. -/
def pfaReservePages : UInt32 → UInt32 → Kernel → Kernel := pfaEachPage pfaReservePage

/-- A run of one page is a page. -/
theorem pfaEachPage_one (mark : UInt32 → Kernel → Kernel) (address : UInt32) :
    pfaEachPage mark address 1 = mark address := by
  funext s
  show mark (address + UInt32.ofNat 0 * 4096) s = _
  simp

/-! ### What marking does -/

/-- The bit of a frame. -/
def Kernel.taken (s : Kernel) : ℕ → Bool := s.pfa.pageBitmap.bits s.mem

/-- The frames in the bitmap that are marked. -/
def Kernel.marked (s : Kernel) : Set ℕ := s.pfa.pageBitmap.marked s.mem

/-- The frames of `pageCount` pages from `address` on; pointer arithmetic wraps. -/
def frames (address pageCount : UInt32) : Set ℕ :=
  {f | ∃ i < pageCount.toNat, f = (address.toNat / 4096 + i) % 2 ^ 20}

/-- From `s` to `s'` the bits of the frames `F` got `value`, and nothing else changed but the counters. -/
structure Marks (value : Bool) (F : Set ℕ) (s s' : Kernel) : Prop where
  /-- Only the memory and the counters changed. -/
  same : s' = { s with mem := s'.mem, pfa := s'.pfa }
  bitmap : s'.pfa.pageBitmap = s.pfa.pageBitmap
  initialized : s'.pfa.initialized = s.pfa.initialized
  inside : ∀ f ∈ F, f < 2 ^ 32 → s'.taken f = value
  outside : ∀ f ∉ F, f < 2 ^ 32 → s'.taken f = s.taken f
  mem : Set.EqOn s'.mem s.mem (s.pfa.pageBitmap.bytes F)ᶜ

theorem Marks.refl (value : Bool) (s : Kernel) : Marks value ∅ s s :=
  ⟨rfl, rfl, rfl, fun _ h => absurd h (Set.notMem_empty _), fun _ _ _ => rfl, fun _ _ => rfl⟩

theorem Marks.trans {value : Bool} {F G : Set ℕ} {s t u : Kernel} (h : Marks value F s t)
    (h' : Marks value G t u) :
    Marks value (F ∪ G) s u := by
  refine ⟨?_, h'.bitmap.trans h.bitmap, h'.initialized.trans h.initialized, ?_, ?_, ?_⟩
  · rw [h'.same, h.same]
  · intro f hf hlt
    by_cases hG : f ∈ G
    · exact h'.inside f hG hlt
    · rw [h'.outside f hG hlt]
      exact h.inside f (hf.resolve_right hG) hlt
  · intro f hf hlt
    rw [Set.mem_union, not_or] at hf
    rw [h'.outside f hf.2 hlt, h.outside f hf.1 hlt]
  · intro a ha
    have hF : a ∉ s.pfa.pageBitmap.bytes F := fun ⟨f, hf, hfa⟩ => ha ⟨f, Or.inl hf, hfa⟩
    have hG : a ∉ t.pfa.pageBitmap.bytes G := by
      rw [h.bitmap]
      exact fun ⟨f, hf, hfa⟩ => ha ⟨f, Or.inr hf, hfa⟩
    rw [h'.mem hG, h.mem hF]

theorem Marks.length {value : Bool} {F : Set ℕ} {s s' : Kernel} (h : Marks value F s s') :
    s'.pfa.pageBitmap.length = s.pfa.pageBitmap.length := by rw [h.bitmap]

/-- Setting bits adds the frames that are in the bitmap. -/
theorem Marks.marked_union {F : Set ℕ} {s s' : Kernel} (h : Marks true F s s') :
    s'.marked = s.marked ∪ (F ∩ Set.Iio s.pfa.pageBitmap.length) := by
  have hlen : s.pfa.pageBitmap.length < 2 ^ 32 := UInt32.toNat_lt _
  obtain ⟨-, hbitmap, -, hin, hout, -⟩ := h
  simp only [Kernel.taken, hbitmap] at hin hout
  rw [Kernel.marked, hbitmap]
  exact Bitmap.marked_union (fun f hf hlt => hin f hf (by omega)) fun f hf hlt => hout f hf (by omega)

/-- Clearing bits removes the frames. -/
theorem Marks.marked_sdiff {F : Set ℕ} {s s' : Kernel} (h : Marks false F s s') :
    s'.marked = s.marked \ F := by
  have hlen : s.pfa.pageBitmap.length < 2 ^ 32 := UInt32.toNat_lt _
  obtain ⟨-, hbitmap, -, hin, hout, -⟩ := h
  simp only [Kernel.taken, hbitmap] at hin hout
  rw [Kernel.marked, hbitmap]
  exact Bitmap.marked_sdiff (fun f hf hlt => hin f hf (by omega)) fun f hf hlt => hout f hf (by omega)

/-- An operation on a page marks its frame. -/
theorem pfaMark_marks {value : Bool} {count : Pfa → Pfa}
    (hcount : ∀ pfa, (count pfa).pageBitmap = pfa.pageBitmap)
    (hinit : ∀ pfa, (count pfa).initialized = pfa.initialized) (address : UInt32) (s : Kernel) :
    Marks value {address.toNat / 4096} s (pfaMark value count address s) := by
  have hindex : (address / 4096).toNat = address.toNat / 4096 := UInt32.toNat_div ..
  unfold pfaMark
  by_cases hget : bitmapGet s.mem s.pfa.pageBitmap (address / 4096) = value
  · rw [if_pos hget]
    refine ⟨rfl, rfl, rfl, ?_, fun _ _ _ => rfl, fun _ _ => rfl⟩
    rintro f rfl -
    rw [Kernel.taken, Bitmap.bits, ← hindex, UInt32.ofNat_toNat, hget]
  · rw [if_neg hget]
    refine ⟨rfl, hcount _, hinit _, ?_, ?_, ?_⟩
    · rintro f rfl hlt
      simp only [Kernel.taken, hcount]
      rw [Bitmap.bits_bitmapSet hlt, if_pos hindex.symm]
    · intro f hf hlt
      simp only [Kernel.taken, hcount]
      rw [Bitmap.bits_bitmapSet hlt, if_neg (by rwa [hindex])]
    · intro a ha
      refine eqOn_bitmapSet _ _ _ _ fun hab => ha ⟨_, rfl, ?_⟩
      rw [← hindex, UInt32.ofNat_toNat]
      exact hab

theorem pfaFreePage_marks (address : UInt32) (s : Kernel) :
    Marks false {address.toNat / 4096} s (pfaFreePage address s) := by
  apply pfaMark_marks <;> exact fun _ => rfl

theorem pfaLockPage_marks (address : UInt32) (s : Kernel) :
    Marks true {address.toNat / 4096} s (pfaLockPage address s) := by
  apply pfaMark_marks <;> exact fun _ => rfl

theorem pfaReservePage_marks (address : UInt32) (s : Kernel) :
    Marks true {address.toNat / 4096} s (pfaReservePage address s) := by
  apply pfaMark_marks <;> exact fun _ => rfl

/-- Pages that do not wrap have consecutive frames. -/
theorem frames_eq {address pageCount : UInt32} (h : address.toNat / 4096 + pageCount.toNat ≤ 2 ^ 20) :
    frames address pageCount = Set.Ico (address.toNat / 4096) (address.toNat / 4096 + pageCount.toNat) := by
  ext f
  rw [Set.mem_Ico]
  constructor
  · rintro ⟨i, hi, rfl⟩
    omega
  · exact fun ⟨hlo, hhi⟩ => ⟨f - address.toNat / 4096, by omega, by omega⟩

theorem frames_lt {address pageCount : UInt32} {f : ℕ} (h : f ∈ frames address pageCount) : f < 2 ^ 20 := by
  obtain ⟨i, -, rfl⟩ := h
  exact Nat.mod_lt _ (by decide)

/-- The bits of frames lie in the first `2 ^ 17` bytes of the bitmap. -/
theorem bytes_frames_subset (bitmap : Bitmap) (address pageCount : UInt32) :
    bitmap.bytes (frames address pageCount) ⊆ span bitmap.buffer (2 ^ 17) := by
  refine Bitmap.bytes_subset_span (fun f hf => ?_) (by decide)
  have hlt := frames_lt hf
  rw [Set.mem_Iio]
  omega

/-- The frame of the `i`-th page after `address`. -/
theorem frame_add (address : UInt32) (i : ℕ) :
    (address + UInt32.ofNat i * 4096).toNat / 4096 = (address.toNat / 4096 + i) % 2 ^ 20 := by
  rw [UInt32.toNat_add, UInt32.toNat_mul, UInt32.toNat_ofNat']
  show (_ + _ % 2 ^ 32 * 4096 % 2 ^ 32) % 2 ^ 32 / 4096 = _
  omega

/-- A frame number below `2 ^ 20` is the frame of its address. -/
theorem toNat_frame {index : ℕ} (h : index < 2 ^ 20) : (UInt32.ofNat index * 4096).toNat / 4096 = index := by
  rw [UInt32.toNat_mul, UInt32.toNat_ofNat']
  show _ % 2 ^ 32 * 4096 % 2 ^ 32 / 4096 = _
  omega

/-- Pages are aligned. -/
theorem toNat_page_aligned (index : ℕ) : (UInt32.ofNat index * 4096).toNat % 4096 = 0 := by
  rw [UInt32.toNat_mul, UInt32.toNat_ofNat']
  show _ % 2 ^ 32 * 4096 % 2 ^ 32 % 4096 = 0
  omega

/-- An operation on a run of pages does to their frames what the operation on a page does to its frame,
for any relation that composes. -/
theorem pfaEachPage_rel {R : Set ℕ → Kernel → Kernel → Prop} (hrefl : ∀ s, R ∅ s s)
    (htrans : ∀ {F G s t u}, R F s t → R G t u → R (F ∪ G) s u) {mark : UInt32 → Kernel → Kernel}
    (hmark : ∀ address s, R {address.toNat / 4096} s (mark address s)) (address pageCount : UInt32)
    (s : Kernel) : R (frames address pageCount) s (pfaEachPage mark address pageCount s) := by
  refine times_inv (P := fun n t => R {f | ∃ i < n, f = (address.toNat / 4096 + i) % 2 ^ 20} s t) ?_ ?_
  · convert hrefl s
    simp
  · intro i _ t ht
    convert htrans ht (hmark (address + UInt32.ofNat i * 4096) t)
    ext f
    rw [frame_add]
    simp only [Set.mem_ofPred_eq, Set.mem_union, Set.mem_singleton_iff, Nat.lt_succ_iff_lt_or_eq,
      or_and_right, exists_or, exists_eq_left]

/-- An operation on a run of pages marks its frames, if the operation on a page does. -/
theorem pfaEachPage_marks {value : Bool} {mark : UInt32 → Kernel → Kernel}
    (hmark : ∀ address s, Marks value {address.toNat / 4096} s (mark address s))
    (address pageCount : UInt32) (s : Kernel) :
    Marks value (frames address pageCount) s (pfaEachPage mark address pageCount s) :=
  pfaEachPage_rel (Marks.refl value) Marks.trans hmark address pageCount s

theorem pfaFreePages_marks (address pageCount : UInt32) (s : Kernel) :
    Marks false (frames address pageCount) s (pfaFreePages address pageCount s) :=
  pfaEachPage_marks pfaFreePage_marks address pageCount s

theorem pfaLockPages_marks (address pageCount : UInt32) (s : Kernel) :
    Marks true (frames address pageCount) s (pfaLockPages address pageCount s) :=
  pfaEachPage_marks pfaLockPage_marks address pageCount s

theorem pfaReservePages_marks (address pageCount : UInt32) (s : Kernel) :
    Marks true (frames address pageCount) s (pfaReservePages address pageCount s) :=
  pfaEachPage_marks pfaReservePage_marks address pageCount s

/-! ### Locking and reserving only set bits -/

theorem pfaMark_grows (count : Pfa → Pfa) (address : UInt32) (s : Kernel) :
    s.mem.Grows (pfaMark true count address s).mem := by
  rw [pfaMark]
  split
  · exact Mem.Grows.refl _
  · exact grows_bitmapSet _ _ _

theorem pfaEachPage_grows {mark : UInt32 → Kernel → Kernel}
    (hmark : ∀ address (s : Kernel), s.mem.Grows (mark address s).mem) (address pageCount : UInt32)
    (s : Kernel) :
    s.mem.Grows (pfaEachPage mark address pageCount s).mem :=
  times_inv (P := fun _ t => s.mem.Grows t.mem) (Mem.Grows.refl _) fun _ _ t ht => ht.trans (hmark _ t)

theorem pfaLockPage_grows (address : UInt32) (s : Kernel) : s.mem.Grows (pfaLockPage address s).mem :=
  pfaMark_grows _ address s

theorem pfaLockPages_grows (address pageCount : UInt32) (s : Kernel) :
    s.mem.Grows (pfaLockPages address pageCount s).mem :=
  pfaEachPage_grows pfaLockPage_grows address pageCount s

theorem pfaReservePages_grows (address pageCount : UInt32) (s : Kernel) :
    s.mem.Grows (pfaReservePages address pageCount s).mem :=
  pfaEachPage_grows (pfaMark_grows _) address pageCount s

end JurasOS
