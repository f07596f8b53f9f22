import JurasOS.Kernel.State

/-!
# `libc/string`: the functions on memory

`memset` and `memmove` as their loops write them, byte by byte, and what the
loops come to: each byte of the result in terms of the memory before the call.
-/

namespace JurasOS

open Machine

/-- `memset`. -/
def memset (bufptr : UInt32) (value : UInt8) (size : UInt32) (m : Mem) : Mem :=
  times size.toNat (fun i m => m.store8 (bufptr + UInt32.ofNat i) value) m

/-- A call of `memset` by the kernel. -/
def Kernel.memset (s : Kernel) (bufptr : UInt32) (value : UInt8) (size : UInt32) : Kernel :=
  { s.emit (.memset bufptr size) with mem := JurasOS.memset bufptr value size s.mem }

/-- `memmove`. -/
def memmove (dst src size : UInt32) (m : Mem) : Mem :=
  if dst < src then
    times size.toNat (fun i m => m.store8 (dst + UInt32.ofNat i) (m (src + UInt32.ofNat i))) m
  else
    -- the loop counts down from `size`, and moves the byte below its counter
    times size.toNat (fun j m =>
      let i := size - UInt32.ofNat j
      m.store8 (dst + (i - 1)) (m (src + (i - 1)))) m

/-- `strncmp`, on the bytes at the two pointers. -/
def strncmp (s₁ s₂ : ℕ → UInt8) : ℕ → ℤ
  | 0 => 0
  | n + 1 =>
    if s₁ 0 ≠ s₂ 0 then (s₁ 0).toNat - (s₂ 0).toNat
    else if s₁ 0 = 0 then 0
    else strncmp (fun i => s₁ (i + 1)) (fun i => s₂ (i + 1)) n

/-! ### What the loops come to -/

/-- An offset from `a`, read back. -/
theorem sub_toNat_eq {a b : UInt32} {i : ℕ} (hi : i < 2 ^ 32) : (b - a).toNat = i ↔
    b = a + UInt32.ofNat i := by
  constructor
  · intro h
    rw [← h, UInt32.ofNat_toNat, UInt32.add_comm, UInt32.sub_add_cancel]
  · rintro rfl
    rw [UInt32.add_comm, UInt32.add_sub_cancel, UInt32.toNat_ofNat', Nat.mod_eq_of_lt hi]

/-- `strncmp` looks at `n` bytes at most. -/
theorem strncmp_congr {s₁ s₁' s₂ : ℕ → UInt8} {n : ℕ} (h : ∀ i < n, s₁ i = s₁' i) :
    strncmp s₁ s₂ n = strncmp s₁' s₂ n := by
  induction n generalizing s₁ s₁' s₂ with
  | zero => rfl
  | succ n ih =>
    rw [strncmp, strncmp, h 0 (by omega), ih fun i hi => h (i + 1) (by omega)]

/-- `memset` fills its range, and changes nothing else. -/
theorem memset_apply (bufptr : UInt32) (value : UInt8) (size : UInt32) (m : Mem) (b : UInt32) :
    memset bufptr value size m b = if (b - bufptr).toNat < size.toNat then value else m b := by
  have hsize := size.toNat_lt
  refine times_inv (P := fun n (m' : Mem) => m' b = if (b - bufptr).toNat < n then value else m b) rfl ?_
  intro i hi m' hm'
  by_cases hb : (b - bufptr).toNat = i
  · rw [(sub_toNat_eq (by omega)).mp hb, Mem.store8_self, if_pos]
    rw [← (sub_toNat_eq (by omega)).mp hb]
    omega
  · rw [Mem.store8_of_ne fun h => hb ((sub_toNat_eq (by omega)).mpr h), hm']
    exact if_congr (by omega) rfl rfl

theorem eqOn_memset (bufptr : UInt32) (value : UInt8) (size : UInt32) (m : Mem) :
    Set.EqOn (memset bufptr value size m) m (span bufptr size.toNat)ᶜ := by
  intro b hb
  rw [memset_apply]
  exact if_neg hb

theorem memset_of_mem {bufptr size b : UInt32} (hb : b ∈ span bufptr size.toNat) (value : UInt8) (m : Mem) :
    memset bufptr value size m b = value := by
  rw [memset_apply]
  exact if_pos hb

/-- The bytes that the first `i` iterations of the upward loop have moved. -/
theorem moveUp_inv {dst src : UInt32} {n : ℕ} (hlt : dst < src) (hsrc : src.toNat + n ≤ 2 ^ 32) (m : Mem)
    (b : UInt32) :
    times n (fun i m => m.store8 (dst + UInt32.ofNat i) (m (src + UInt32.ofNat i))) m b =
      if (b - dst).toNat < n then m (src + (b - dst)) else m b := by
  rw [UInt32.lt_iff_toNat_lt] at hlt
  refine times_inv (P := fun k (m' : Mem) =>
    ∀ b, m' b = if (b - dst).toNat < k then m (src + (b - dst)) else m b)
    (fun b => rfl) ?_ b
  intro i hi m' hm' b
  by_cases hb : (b - dst).toNat = i
  · -- the byte to move has not been written: it lies at or after the next one to write
    have hread : (src + UInt32.ofNat i - dst).toNat = src.toNat - dst.toNat + i := by
      rw [UInt32.toNat_sub, toNat_add_ofNat (by omega)]
      omega
    have hoff : b - dst = UInt32.ofNat i := by rw [← hb, UInt32.ofNat_toNat]
    rw [(sub_toNat_eq (by omega)).mp hb, Mem.store8_self, hm', if_neg (by omega),
      ← (sub_toNat_eq (by omega)).mp hb, if_pos (by omega), hoff]
  · rw [Mem.store8_of_ne fun h => hb ((sub_toNat_eq (by omega)).mpr h), hm']
    exact if_congr (by omega) rfl rfl

/-- The bytes that the first `j` iterations of the downward loop have moved. -/
theorem moveDown_inv {dst src size : UInt32} (hle : src ≤ dst) (hdst : dst.toNat + size.toNat ≤ 2 ^ 32)
    (m : Mem) (b : UInt32) :
    times size.toNat (fun j m =>
      let i := size - UInt32.ofNat j
      m.store8 (dst + (i - 1)) (m (src + (i - 1)))) m b =
      if (b - dst).toNat < size.toNat then m (src + (b - dst)) else m b := by
  have hsize := size.toNat_lt
  rw [UInt32.le_iff_toNat_le] at hle
  refine (times_inv (P := fun k (m' : Mem) => ∀ b, m' b =
    if size.toNat - k ≤ (b - dst).toNat ∧ (b - dst).toNat < size.toNat then m (src + (b - dst)) else m b)
    (fun b => (if_neg (by omega)).symm) ?_ b).trans (if_congr (by omega) rfl rfl)
  intro j hj m' hm' b
  have hi : size - UInt32.ofNat j - 1 = UInt32.ofNat (size.toNat - j - 1) := by
    rw [← UInt32.toNat_inj, UInt32.toNat_sub, UInt32.toNat_sub, UInt32.toNat_ofNat', UInt32.toNat_ofNat',
      UInt32.toNat_one]
    omega
  simp only [hi]
  by_cases hb : (b - dst).toNat = size.toNat - j - 1
  · -- the byte to move has not been written: it lies before the ones written, or outside the range
    have hread : ¬ (size.toNat - j ≤ (src + UInt32.ofNat (size.toNat - j - 1) - dst).toNat ∧
        (src + UInt32.ofNat (size.toNat - j - 1) - dst).toNat < size.toNat) := by
      rw [UInt32.toNat_sub, toNat_add_ofNat (by omega)]
      omega
    have hoff : b - dst = UInt32.ofNat (size.toNat - j - 1) := by rw [← hb, UInt32.ofNat_toNat]
    rw [(sub_toNat_eq (by omega)).mp hb, Mem.store8_self, hm', if_neg hread,
      ← (sub_toNat_eq (by omega)).mp hb, if_pos (by omega), hoff]
  · rw [Mem.store8_of_ne fun h => hb ((sub_toNat_eq (by omega)).mpr h), hm']
    exact if_congr (by omega) rfl rfl

/-- **`memmove` moves**, overlapping ranges too: each byte of the destination is the byte of the
source before the call, and the other bytes stay. -/
theorem memmove_apply (dst src size : UInt32) (hdst : dst.toNat + size.toNat ≤ 2 ^ 32)
    (hsrc : src.toNat + size.toNat ≤ 2 ^ 32) (m : Mem) (b : UInt32) :
    memmove dst src size m b = if (b - dst).toNat < size.toNat then m (src + (b - dst)) else m b := by
  rw [memmove]
  by_cases hlt : dst < src
  · rw [if_pos hlt]
    exact moveUp_inv hlt hsrc m b
  · rw [if_neg hlt]
    exact moveDown_inv (UInt32.not_lt.mp hlt) hdst m b

/-- `memmove` in the source's terms: `dst[i]` holds what `src[i]` held, and nothing else changes. -/
theorem memmove_moves (dst src size : UInt32) (hdst : dst.toNat + size.toNat ≤ 2 ^ 32)
    (hsrc : src.toNat + size.toNat ≤ 2 ^ 32) (m : Mem) :
    (∀ i < size, memmove dst src size m (dst + i) = m (src + i)) ∧
      Set.EqOn (memmove dst src size m) m (span dst size.toNat)ᶜ := by
  constructor
  · intro i hi
    rw [UInt32.lt_iff_toNat_lt] at hi
    have hoff : dst + i - dst = i := by rw [UInt32.add_comm, UInt32.add_sub_cancel]
    rw [memmove_apply dst src size hdst hsrc, hoff, if_pos hi]
  · intro b hb
    rw [memmove_apply dst src size hdst hsrc]
    exact if_neg hb

/-- A screen scrolled up by one row: the ranges overlap in all rows but one. -/
theorem memmove_moves_scroll :
    (∀ i < 3840, memmove 0xB8000 0xB80A0 3840 UInt32.toUInt8 (0xB8000 + i) = (0xB80A0 + i : UInt32).toUInt8) ∧
      Set.EqOn (memmove 0xB8000 0xB80A0 3840 UInt32.toUInt8) UInt32.toUInt8
        (span 0xB8000 (3840 : UInt32).toNat)ᶜ :=
  memmove_moves 0xB8000 0xB80A0 3840 (by decide) (by decide) UInt32.toUInt8

end JurasOS
