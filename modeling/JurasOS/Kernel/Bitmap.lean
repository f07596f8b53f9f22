import JurasOS.Kernel.State
import Mathlib.Tactic.IntervalCases

/-!
# `bitmap.c`

A row of bits packed eight to a byte, the first in the top bit. `bitmapGet` and
`bitmapSet` are the C functions; the lemmas below say that they read and write
one bit of a row of independent bits, wherever the buffer lies.
-/

namespace JurasOS

open Machine

/-- The mask of the bit `index` in its byte. -/
def bitIndexer (index : UInt32) : UInt8 := 0b10000000 >>> (index % 8).toUInt8

/-- The address of the byte of the bit `index`. -/
def Bitmap.byteAddr (bitmap : Bitmap) (index : UInt32) : UInt32 := bitmap.buffer + index / 8

/-- `bitmap_get`. -/
def bitmapGet (m : Mem) (bitmap : Bitmap) (index : UInt32) : Bool :=
  m (bitmap.byteAddr index) &&& bitIndexer index > 0

/-- `bitmap_set`. -/
def bitmapSet (m : Mem) (bitmap : Bitmap) (index : UInt32) (value : Bool) : Mem :=
  let a := bitmap.byteAddr index
  let m := m.store8 a (m a &&& ~~~bitIndexer index)
  if value then m.store8 a (m a ||| bitIndexer index) else m

/-! ### One bit of a byte -/

theorem toBitVec_bitIndexer (index : UInt32) :
    (bitIndexer index).toBitVec = BitVec.twoPow 8 (7 - index.toNat % 8) := by
  have hmod : (index % 8).toUInt8 = UInt8.ofNat (index.toNat % 8) := by
    rw [← UInt8.toNat_inj]
    simp
  have hlt : index.toNat % 8 < 8 := Nat.mod_lt _ (by decide)
  rw [bitIndexer, hmod]
  interval_cases index.toNat % 8 <;> rfl

theorem bitmapGet_eq (m : Mem) (bitmap : Bitmap) (index : UInt32) :
    bitmapGet m bitmap index = (m (bitmap.byteAddr index)).toBitVec.getLsbD (7 - index.toNat % 8) := by
  rw [bitmapGet]
  generalize m (bitmap.byteAddr index) = b
  have hand : (b &&& bitIndexer index).toBitVec =
      if b.toBitVec.getLsbD (7 - index.toNat % 8) then BitVec.twoPow 8 (7 - index.toNat % 8) else 0#8 := by
    rw [UInt8.toBitVec_and, toBitVec_bitIndexer, BitVec.and_twoPow]
  have hlt : index.toNat % 8 < 8 := Nat.mod_lt _ (by decide)
  simp only [gt_iff_lt, UInt8.lt_iff_toBitVec_lt, hand]
  cases b.toBitVec.getLsbD (7 - index.toNat % 8) with
  | false => rfl
  | true => interval_cases index.toNat % 8 <;> rfl

/-- The byte that `bitmapSet` leaves has the bit `index` replaced and the others kept. -/
theorem bitmapSet_byte (m : Mem) (bitmap : Bitmap) (index : UInt32) (value : Bool) (k : ℕ) (hk : k < 8) :
    (bitmapSet m bitmap index value (bitmap.byteAddr index)).toBitVec.getLsbD k =
      if k = 7 - index.toNat % 8 then value else (m (bitmap.byteAddr index)).toBitVec.getLsbD k := by
  cases value with
  | false =>
    simp only [bitmapSet, Bool.false_eq_true, if_false, Mem.store8_self, UInt8.toBitVec_and,
      UInt8.toBitVec_not, BitVec.getLsbD_and, BitVec.getLsbD_not, toBitVec_bitIndexer,
      BitVec.getLsbD_twoPow, hk]
    by_cases h : k = 7 - index.toNat % 8
    · simp [h]
      omega
    · simp [h, Ne.symm h]
  | true =>
    simp only [bitmapSet, if_true, Mem.store8_self, UInt8.toBitVec_or, UInt8.toBitVec_and, UInt8.toBitVec_not,
      BitVec.getLsbD_or, BitVec.getLsbD_and, BitVec.getLsbD_not, toBitVec_bitIndexer,
      BitVec.getLsbD_twoPow, hk]
    by_cases h : k = 7 - index.toNat % 8
    · simp [h]
      omega
    · simp [h, Ne.symm h]

/-! ### A row of independent bits -/

/-- `bitmapSet` writes one byte. -/
theorem eqOn_bitmapSet (m : Mem) (bitmap : Bitmap) (index : UInt32) (value : Bool) :
    Set.EqOn (bitmapSet m bitmap index value) m {bitmap.byteAddr index}ᶜ := by
  intro a ha
  rw [Set.mem_compl_iff, Set.mem_singleton_iff] at ha
  cases value <;> simp [bitmapSet, Mem.store8_of_ne ha]

theorem byteAddr_inj {bitmap : Bitmap} {i j : UInt32} :
    bitmap.byteAddr i = bitmap.byteAddr j ↔ i.toNat / 8 = j.toNat / 8 := by
  rw [Bitmap.byteAddr, Bitmap.byteAddr, UInt32.add_right_inj, ← UInt32.toNat_inj, UInt32.toNat_div,
    UInt32.toNat_div]
  rfl

/-- **The bits are independent**: setting one changes that one only. -/
theorem bitmapGet_bitmapSet (m : Mem) (bitmap : Bitmap) (i j : UInt32) (value : Bool) :
    bitmapGet (bitmapSet m bitmap i value) bitmap j = if j = i then value else bitmapGet m bitmap j := by
  rw [bitmapGet_eq, bitmapGet_eq]
  by_cases hbyte : bitmap.byteAddr j = bitmap.byteAddr i
  · have hdiv := byteAddr_inj.mp hbyte
    have hbit : 7 - j.toNat % 8 = 7 - i.toNat % 8 ↔ j = i := by
      rw [← UInt32.toNat_inj]
      omega
    rw [hbyte, bitmapSet_byte _ _ _ _ _ (by omega)]
    simp only [hbit]
  · have hne : j ≠ i := fun h => hbyte (h ▸ rfl)
    rw [eqOn_bitmapSet m bitmap i value hbyte, if_neg hne]

/-- Setting a bit to `true` only sets bits. -/
theorem grows_bitmapSet (m : Mem) (bitmap : Bitmap) (index : UInt32) :
    m.Grows (bitmapSet m bitmap index true) := by
  intro a k hk
  by_cases ha : a = bitmap.byteAddr index
  · subst ha
    have hlt := BitVec.lt_of_getLsbD hk
    rw [bitmapSet_byte _ _ _ _ _ hlt]
    split
    · rfl
    · exact hk
  · rwa [eqOn_bitmapSet m bitmap index true ha]

/-- The number of bits: `bitmap.size * 8`, as the C loops compute it. -/
def Bitmap.length (bitmap : Bitmap) : ℕ := (bitmap.size * 8).toNat

/-- The row of bits. -/
def Bitmap.bits (bitmap : Bitmap) (m : Mem) (i : ℕ) : Bool := bitmapGet m bitmap (UInt32.ofNat i)

/-- The bits that are set. -/
def Bitmap.marked (bitmap : Bitmap) (m : Mem) : Set ℕ := {i | i < bitmap.length ∧ bitmap.bits m i = true}

/-- The bytes of some bits. -/
def Bitmap.bytes (bitmap : Bitmap) (F : Set ℕ) : Set UInt32 :=
  {a | ∃ i ∈ F, a = bitmap.byteAddr (UInt32.ofNat i)}

theorem Bitmap.length_eq {bitmap : Bitmap} (h : bitmap.size.toNat * 8 < 2 ^ 32) :
    bitmap.length = bitmap.size.toNat * 8 := by
  rw [Bitmap.length, UInt32.toNat_mul]
  exact Nat.mod_eq_of_lt h

theorem Bitmap.bits_congr {bitmap : Bitmap} {m m' : Mem} {i : ℕ}
    (h : m (bitmap.byteAddr (UInt32.ofNat i)) = m' (bitmap.byteAddr (UInt32.ofNat i))) :
    bitmap.bits m i = bitmap.bits m' i := by
  rw [Bitmap.bits, Bitmap.bits, bitmapGet, bitmapGet, h]

theorem Bitmap.bits_of_zero {bitmap : Bitmap} {m : Mem} {i : ℕ}
    (h : m (bitmap.byteAddr (UInt32.ofNat i)) = 0) :
    bitmap.bits m i = false := by
  rw [Bitmap.bits, bitmapGet_eq, h]
  simp

theorem Bitmap.bits_grow {bitmap : Bitmap} {m m' : Mem} (h : m.Grows m') {i : ℕ}
    (hi : bitmap.bits m i = true) :
    bitmap.bits m' i = true := by
  rw [Bitmap.bits, bitmapGet_eq] at hi ⊢
  exact h _ _ hi

theorem Bitmap.bits_bitmapSet {bitmap : Bitmap} {m : Mem} {index : UInt32} {value : Bool} {i : ℕ}
    (hi : i < 2 ^ 32) :
    bitmap.bits (bitmapSet m bitmap index value) i = if i = index.toNat then value else bitmap.bits m i := by
  have hindex : UInt32.ofNat i = index ↔ i = index.toNat := by
    rw [← UInt32.toNat_inj, UInt32.toNat_ofNat', Nat.mod_eq_of_lt hi]
  simp only [Bitmap.bits, bitmapGet_bitmapSet, hindex]

/-- Setting the bits `F` adds those that are in the bitmap. -/
theorem Bitmap.marked_union {bitmap : Bitmap} {m m' : Mem} {F : Set ℕ}
    (hin : ∀ f ∈ F, f < bitmap.length → bitmap.bits m' f = true)
    (hout : ∀ f ∉ F, f < bitmap.length → bitmap.bits m' f = bitmap.bits m f) :
    bitmap.marked m' = bitmap.marked m ∪ (F ∩ Set.Iio bitmap.length) := by
  ext f
  simp only [Bitmap.marked, Set.mem_union, Set.mem_inter_iff, Set.mem_Iio, Set.mem_ofPred_eq]
  by_cases hf : f ∈ F
  · constructor
    · exact fun ⟨hlt, _⟩ => Or.inr ⟨hf, hlt⟩
    · rintro (⟨hlt, -⟩ | ⟨-, hlt⟩) <;> exact ⟨hlt, hin f hf hlt⟩
  · constructor
    · exact fun ⟨hlt, hbit⟩ => Or.inl ⟨hlt, (hout f hf hlt).symm.trans hbit⟩
    · rintro (⟨hlt, hbit⟩ | ⟨hF, -⟩)
      · exact ⟨hlt, (hout f hf hlt).trans hbit⟩
      · exact absurd hF hf

/-- Clearing the bits `F` removes them. -/
theorem Bitmap.marked_sdiff {bitmap : Bitmap} {m m' : Mem} {F : Set ℕ}
    (hin : ∀ f ∈ F, f < bitmap.length → bitmap.bits m' f = false)
    (hout : ∀ f ∉ F, f < bitmap.length → bitmap.bits m' f = bitmap.bits m f) :
    bitmap.marked m' = bitmap.marked m \ F := by
  ext f
  simp only [Bitmap.marked, Set.mem_sdiff, Set.mem_ofPred_eq]
  by_cases hf : f ∈ F
  · constructor
    · rintro ⟨hlt, hbit⟩
      rw [hin f hf hlt] at hbit
      cases hbit
    · exact fun ⟨_, hnot⟩ => absurd hf hnot
  · constructor
    · exact fun ⟨hlt, hbit⟩ => ⟨⟨hlt, (hout f hf hlt).symm.trans hbit⟩, hf⟩
    · exact fun ⟨⟨hlt, hbit⟩, _⟩ => ⟨hlt, (hout f hf hlt).trans hbit⟩

/-- The loops that set `count` bits from `index` on. -/
def bitmapFill (bitmap : Bitmap) (index count : UInt32) (value : Bool) (m : Mem) : Mem :=
  times count.toNat (fun i m => bitmapSet m bitmap (index + UInt32.ofNat i) value) m

/-- The bits that a loop writes which goes over `count` bits from `index` on, in 32 bits. -/
def loopBits (index count : UInt32) : Set ℕ :=
  (fun i => (index + UInt32.ofNat i).toNat) '' Set.Iio count.toNat

/-- Such a loop writes those bits and no others, wherever it wraps. -/
theorem bitmapFill_loop (bitmap : Bitmap) (index count : UInt32) (value : Bool) (m : Mem) {f : ℕ}
    (hf : f < 2 ^ 32) :
    (f ∈ loopBits index count → bitmap.bits (bitmapFill bitmap index count value m) f = value) ∧
    (f ∉ loopBits index count → bitmap.bits (bitmapFill bitmap index count value m) f = bitmap.bits m f) := by
  refine times_inv (P := fun n m' =>
    (f ∈ (fun i => (index + UInt32.ofNat i).toNat) '' Set.Iio n → bitmap.bits m' f = value) ∧
    (f ∉ (fun i => (index + UInt32.ofNat i).toNat) '' Set.Iio n → bitmap.bits m' f = bitmap.bits m f)) ?_ ?_
  · refine ⟨?_, fun _ => rfl⟩
    rintro ⟨i, hi, -⟩
    exact absurd hi (Nat.not_lt_zero i)
  · rintro i hi m' ⟨hin, hout⟩
    rw [Bitmap.bits_bitmapSet hf]
    by_cases hfi : f = (index + UInt32.ofNat i).toNat
    · rw [if_pos hfi]
      exact ⟨fun _ => rfl, fun hnot => absurd ⟨i, Nat.lt_succ_self i, hfi.symm⟩ hnot⟩
    · rw [if_neg hfi]
      constructor
      · rintro ⟨j, hj, rfl⟩
        have hne : j ≠ i := by
          rintro rfl
          exact hfi rfl
        exact hin ⟨j, Nat.lt_of_le_of_ne (Nat.le_of_lt_succ hj) hne, rfl⟩
      · rintro hnot
        exact hout fun ⟨j, hj, hjf⟩ => hnot ⟨j, Nat.lt_succ_of_lt hj, hjf⟩

/-- Where it does not wrap, the bits are those from `index` on. -/
theorem loopBits_eq_Ico {index count : UInt32} (h : index.toNat + count.toNat ≤ 2 ^ 32) :
    loopBits index count = Set.Ico index.toNat (index.toNat + count.toNat) := by
  have hadd : ∀ i < count.toNat, (index + UInt32.ofNat i).toNat = index.toNat + i :=
    fun i hi => toNat_add_ofNat (by omega)
  ext f
  constructor
  · rintro ⟨i, hi, rfl⟩
    rw [Set.mem_Iio] at hi
    simp only [hadd i hi, Set.mem_Ico]
    omega
  · rintro ⟨hlo, hhi⟩
    refine ⟨f - index.toNat, Set.mem_Iio.mpr (by omega), ?_⟩
    simp only [hadd (f - index.toNat) (by omega)]
    omega

/-- Such a loop sets those bits, and changes only their bytes. -/
theorem bitmapFill_bits (bitmap : Bitmap) {index count : UInt32} (h : index.toNat + count.toNat ≤ 2 ^ 32)
    (value : Bool) (m : Mem) :
    (∀ f < 2 ^ 32, bitmap.bits (bitmapFill bitmap index count value m) f =
      if index.toNat ≤ f ∧ f < index.toNat + count.toNat then value else bitmap.bits m f) ∧
    Set.EqOn (bitmapFill bitmap index count value m) m
      (bitmap.bytes (Set.Ico index.toNat (index.toNat + count.toNat)))ᶜ := by
  constructor
  · intro f hf
    obtain ⟨hin, hout⟩ := bitmapFill_loop bitmap index count value m hf
    rw [loopBits_eq_Ico h, Set.mem_Ico] at hin hout
    split
    · next hmem => exact hin hmem
    · next hmem => exact hout hmem
  · refine times_inv
      (P := fun n m' => Set.EqOn m' m (bitmap.bytes (Set.Ico index.toNat (index.toNat + n)))ᶜ)
      (fun _ _ => rfl) ?_
    rintro i hi m' hmem a ha
    have haddr := toNat_add_ofNat (a := index) (i := i) (by omega)
    have hnew : a ≠ bitmap.byteAddr (index + UInt32.ofNat i) := by
      rintro rfl
      refine ha ⟨index.toNat + i, ⟨by omega, by omega⟩, ?_⟩
      rw [← haddr, UInt32.ofNat_toNat]
    have hold : a ∉ bitmap.bytes (Set.Ico index.toNat (index.toNat + i)) := by
      rintro ⟨f, hf, rfl⟩
      exact ha ⟨f, ⟨hf.1, by have := hf.2; omega⟩, rfl⟩
    rw [eqOn_bitmapSet m' bitmap _ value hnew, hmem hold]

/-- The bits say what a byte is. -/
theorem Bitmap.byte_eq_of_bits {bitmap : Bitmap} {m m' : Mem} {index : UInt32}
    (hbits : ∀ j < 2 ^ 32, j / 8 = index.toNat / 8 → bitmap.bits m j = bitmap.bits m' j) :
    m (bitmap.byteAddr index) = m' (bitmap.byteAddr index) := by
  have hlt := index.toNat_lt
  rw [← UInt8.toBitVec_inj]
  apply BitVec.eq_of_getLsbD_eq
  intro k hk
  -- the bit `k` of the byte is the bit `j` of the row
  obtain ⟨j, hj⟩ : ∃ j, j = index.toNat / 8 * 8 + (7 - k) := ⟨_, rfl⟩
  have hindex : (UInt32.ofNat j).toNat = j := by
    rw [UInt32.toNat_ofNat']
    omega
  have hbyte : bitmap.byteAddr (UInt32.ofNat j) = bitmap.byteAddr index := by
    rw [byteAddr_inj, hindex]
    omega
  have hbit := hbits j (by omega) (by omega)
  rw [Bitmap.bits, Bitmap.bits, bitmapGet_eq, bitmapGet_eq, hbyte, hindex] at hbit
  rwa [show 7 - j % 8 = k by omega] at hbit

/-- Memories that differ in the bytes of some bits only, and in no bit, are the same. -/
theorem Bitmap.mem_eq_of_bits {bitmap : Bitmap} {m m' : Mem} {F : Set ℕ}
    (hbits : ∀ f < 2 ^ 32, bitmap.bits m f = bitmap.bits m' f) (hmem : Set.EqOn m m' (bitmap.bytes F)ᶜ) :
    m = m' := by
  funext a
  by_cases ha : a ∈ bitmap.bytes F
  · obtain ⟨f, -, rfl⟩ := ha
    exact Bitmap.byte_eq_of_bits fun j hj _ => hbits j hj
  · exact hmem ha

/-- The bytes of the bits of a bitmap lie in its buffer. -/
theorem Bitmap.byteAddr_mem_span {bitmap : Bitmap} {i : ℕ} (hi : i < bitmap.length) :
    bitmap.byteAddr (UInt32.ofNat i) ∈ span bitmap.buffer bitmap.size.toNat := by
  have hlt : bitmap.length < 2 ^ 32 := UInt32.toNat_lt _
  have hlen : bitmap.length ≤ bitmap.size.toNat * 8 := by
    rw [Bitmap.length, UInt32.toNat_mul]
    exact Nat.mod_le ..
  rw [Bitmap.byteAddr, mem_span, UInt32.add_comm, UInt32.add_sub_cancel, UInt32.toNat_div,
    UInt32.toNat_ofNat', Nat.mod_eq_of_lt (by omega)]
  show i / 8 < _
  omega

/-- The bytes of `n` bytes of bits lie in the first `n` bytes from the buffer on. -/
theorem Bitmap.bytes_subset_span {bitmap : Bitmap} {F : Set ℕ} {n : ℕ} (hF : F ⊆ Set.Iio (8 * n))
    (hn : 8 * n ≤ 2 ^ 32) :
    bitmap.bytes F ⊆ span bitmap.buffer n := by
  rintro a ⟨f, hf, rfl⟩
  have hlt : f < 8 * n := hF hf
  rw [Bitmap.byteAddr, mem_span, UInt32.add_comm, UInt32.add_sub_cancel, UInt32.toNat_div,
    UInt32.toNat_ofNat', Nat.mod_eq_of_lt (by omega)]
  show f / 8 < _
  omega

/-- What is marked depends on the buffer only. -/
theorem Bitmap.marked_congr {bitmap : Bitmap} {m m' : Mem}
    (h : Set.EqOn m m' (span bitmap.buffer bitmap.size.toNat)) :
    bitmap.marked m = bitmap.marked m' := by
  ext f
  rw [Bitmap.marked, Bitmap.marked, Set.mem_ofPred_eq, Set.mem_ofPred_eq]
  exact and_congr_right fun hf => by rw [Bitmap.bits_congr (h (Bitmap.byteAddr_mem_span hf))]

/-! ### An array of booleans -/

/-- The indices of the bits in the buffer. -/
abbrev Bitmap.Index (bitmap : Bitmap) : Type := {i : UInt32 // i.toNat < bitmap.size.toNat * 8}

/-- The array that the buffer packs. -/
def Bitmap.array (bitmap : Bitmap) (m : Mem) (i : bitmap.Index) : Bool := bitmapGet m bitmap i

theorem Bitmap.array_bitmapSet (bitmap : Bitmap) (m : Mem) (i : bitmap.Index) (value : Bool) :
    bitmap.array (bitmapSet m bitmap i value) = Function.update (bitmap.array m) i value := by
  funext j
  rw [Bitmap.array, bitmapGet_bitmapSet, Function.update_apply]
  exact if_congr Subtype.coe_inj rfl rfl

/-- Memories are the same when the bits are, and the bytes off the bits' bytes. -/
theorem Bitmap.mem_eq_of_get (bitmap : Bitmap) {m m' : Mem} (F : Set ℕ)
    (hbits : ∀ j, bitmapGet m bitmap j = bitmapGet m' bitmap j)
    (hmem : Set.EqOn m m' (bitmap.bytes F)ᶜ) : m = m' :=
  Bitmap.mem_eq_of_bits (fun f _ => hbits (UInt32.ofNat f)) hmem

theorem Bitmap.byteAddr_mem_bytes {bitmap : Bitmap} {i : UInt32} {F : Set ℕ} (hi : i.toNat ∈ F) :
    bitmap.byteAddr i ∈ bitmap.bytes F := ⟨i.toNat, hi, by rw [UInt32.ofNat_toNat]⟩

/-- What a set changes lies in the bytes of the bits `F`, where the index is one of them. -/
theorem eqOn_bitmapSet_bytes {bitmap : Bitmap} {i : UInt32} {F : Set ℕ} (hi : i.toNat ∈ F) (m : Mem)
    (value : Bool) : Set.EqOn (bitmapSet m bitmap i value) m (bitmap.bytes F)ᶜ := by
  intro a ha
  refine eqOn_bitmapSet m bitmap i value ?_
  rintro rfl
  exact ha (Bitmap.byteAddr_mem_bytes hi)

theorem bitmapSet_comm (bitmap : Bitmap) (m : Mem) {i j : UInt32} (hij : i ≠ j) (v w : Bool) :
    bitmapSet (bitmapSet m bitmap i v) bitmap j w = bitmapSet (bitmapSet m bitmap j w) bitmap i v := by
  refine bitmap.mem_eq_of_get {i.toNat, j.toNat} (fun k => ?_) ?_
  · simp only [bitmapGet_bitmapSet]
    by_cases hi : k = i
    · rw [if_pos hi, if_pos hi, if_neg (hi ▸ hij)]
    · rw [if_neg hi, if_neg hi]
  · have hi : i.toNat ∈ ({i.toNat, j.toNat} : Set ℕ) := Or.inl rfl
    have hj : j.toNat ∈ ({i.toNat, j.toNat} : Set ℕ) := Or.inr rfl
    exact ((eqOn_bitmapSet_bytes hj _ w).trans (eqOn_bitmapSet_bytes hi m v)).trans
      ((eqOn_bitmapSet_bytes hi _ v).trans (eqOn_bitmapSet_bytes hj m w)).symm

theorem bitmapSet_bitmapSet (bitmap : Bitmap) (m : Mem) (i : UInt32) (v w : Bool) :
    bitmapSet (bitmapSet m bitmap i v) bitmap i w = bitmapSet m bitmap i w := by
  refine bitmap.mem_eq_of_get {i.toNat} (fun k => ?_) ?_
  · simp only [bitmapGet_bitmapSet]
    by_cases hi : k = i
    · rw [if_pos hi, if_pos hi]
    · rw [if_neg hi, if_neg hi, if_neg hi]
  · have hi : i.toNat ∈ ({i.toNat} : Set ℕ) := rfl
    exact ((eqOn_bitmapSet_bytes hi _ w).trans (eqOn_bitmapSet_bytes hi m v)).trans
      (eqOn_bitmapSet_bytes hi m w).symm

theorem Bitmap.index_mem_span {bitmap : Bitmap} (i : bitmap.Index) :
    bitmap.byteAddr i ∈ span bitmap.buffer bitmap.size.toNat := by
  have hi := i.2
  rw [Bitmap.byteAddr, mem_span, UInt32.add_comm, UInt32.add_sub_cancel, UInt32.toNat_div]
  show i.1.toNat / 8 < _
  omega

/-- The beginning of any array is packed by setting its bits one after the other. -/
theorem Bitmap.exists_array_below (bitmap : Bitmap) (m : Mem) (a : bitmap.Index → Bool) (n : ℕ) :
    ∃ m', (∀ i : bitmap.Index, i.1.toNat < n → bitmap.array m' i = a i) ∧
      Set.EqOn m' m (span bitmap.buffer bitmap.size.toNat)ᶜ := by
  induction n with
  | zero => exact ⟨m, fun i hi => absurd hi (Nat.not_lt_zero _), fun _ _ => rfl⟩
  | succ n ih =>
    obtain ⟨m', hbits, hmem⟩ := ih
    by_cases hn : n < bitmap.size.toNat * 8 ∧ n < 2 ^ 32
    · have hnat : (UInt32.ofNat n).toNat = n := by rw [UInt32.toNat_ofNat', Nat.mod_eq_of_lt hn.2]
      obtain ⟨k, hk⟩ : ∃ k : bitmap.Index, k.1 = UInt32.ofNat n := ⟨⟨UInt32.ofNat n, by omega⟩, rfl⟩
      refine ⟨bitmapSet m' bitmap k (a k), fun i hi => ?_, fun b hb => ?_⟩
      · rw [Bitmap.array_bitmapSet, Function.update_apply]
        by_cases hik : i = k
        · rw [if_pos hik, hik]
        · rw [if_neg hik]
          refine hbits i ?_
          have hne : i.1.toNat ≠ n := by
            intro h
            exact hik (Subtype.ext (by rw [hk, ← h, UInt32.ofNat_toNat]))
          omega
      · rw [← hmem hb]
        refine eqOn_bitmapSet m' bitmap k (a k) ?_
        rintro rfl
        exact hb (Bitmap.index_mem_span k)
    · -- there is no bit `n`
      refine ⟨m', fun i hi => hbits i ?_, hmem⟩
      have hsize := i.2
      have hlt := i.1.toNat_lt
      omega

/-- Any array is packed by writing the buffer only. -/
theorem Bitmap.exists_array (bitmap : Bitmap) (m : Mem) (a : bitmap.Index → Bool) :
    ∃ m', bitmap.array m' = a ∧ Set.EqOn m' m (span bitmap.buffer bitmap.size.toNat)ᶜ := by
  obtain ⟨m', hbits, hmem⟩ := bitmap.exists_array_below m a (2 ^ 32)
  exact ⟨m', funext fun i => hbits i i.1.toNat_lt, hmem⟩

/-- **The packed buffer is an array of booleans**: the laws of an array under `bitmapGet` and
`bitmapSet`, one byte of the buffer written by each set, and every array represented. -/
theorem bitmap_laws (bitmap : Bitmap) (m : Mem) (i j : bitmap.Index) (v w : Bool) :
    bitmapGet (bitmapSet m bitmap i v) bitmap i = v ∧
    (j ≠ i → bitmapGet (bitmapSet m bitmap i v) bitmap j = bitmapGet m bitmap j) ∧
    (i ≠ j → bitmapSet (bitmapSet m bitmap i v) bitmap j w = bitmapSet (bitmapSet m bitmap j w) bitmap i v) ∧
    bitmapSet (bitmapSet m bitmap i v) bitmap i w = bitmapSet m bitmap i w ∧
    Set.EqOn (bitmapSet m bitmap i v) m {bitmap.buffer + i / 8}ᶜ ∧
    bitmap.buffer + i / 8 ∈ span bitmap.buffer bitmap.size.toNat ∧
    bitmap.array (bitmapSet m bitmap i v) = Function.update (bitmap.array m) i v ∧
    ∀ a, ∃ m', bitmap.array m' = a ∧ Set.EqOn m' m (span bitmap.buffer bitmap.size.toNat)ᶜ := by
  refine ⟨?_, fun hji => ?_, fun hij => ?_, bitmapSet_bitmapSet bitmap m i v w, eqOn_bitmapSet m bitmap i v,
    Bitmap.index_mem_span i, bitmap.array_bitmapSet m i v, bitmap.exists_array m⟩
  · rw [bitmapGet_bitmapSet, if_pos rfl]
  · rw [bitmapGet_bitmapSet, if_neg (Subtype.coe_injective.ne hji)]
  · exact bitmapSet_comm bitmap m (Subtype.coe_injective.ne hij) v w

end JurasOS
