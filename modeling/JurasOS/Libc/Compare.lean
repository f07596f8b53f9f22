import JurasOS.Libc.String
import Mathlib.Algebra.Order.Ring.Int

/-!
# `libc/string`: the functions that compare

`strcmp`, `strncmp` and `memcmp` come to one order: that of the lists of bytes, letter by
letter, where a string is less than those that it begins. `Compares` says that a result has
the sign of that order; each loop is an induction over the strings.
-/

namespace JurasOS

open Machine

/-- `strcmp`, if it ends within the iterations it is given. -/
def strcmp (m : Mem) (p1 p2 : UInt32) : ℕ → Option ℤ
  | 0 => none
  | fuel + 1 =>
    let c1 := m p1
    let c2 := m p2
    if c1 = 0 then some (c1.toNat - c2.toNat)
    else if c1 = c2 then strcmp m (p1 + 1) (p2 + 1) fuel
    else some (c1.toNat - c2.toNat)

/-- `memcmp`. -/
def memcmp (m : Mem) (a b : UInt32) : ℕ → ℤ
  | 0 => 0
  | size + 1 =>
    if m a < m b then -1
    else if m b < m a then 1
    else memcmp m (a + 1) (b + 1) size

/-- `r` is negative, zero or positive as `as` is less than, equal to or greater than `bs`. -/
structure Compares (r : ℤ) (as bs : List UInt8) : Prop where
  lt : r < 0 ↔ as < bs
  eq : r = 0 ↔ as = bs
  gt : 0 < r ↔ bs < as

section Compares

variable {r : ℤ} {a b : UInt8} {as bs : List UInt8}

theorem compares_self (as : List UInt8) : Compares 0 as as :=
  ⟨by simp, by simp, by simp⟩

theorem compares_of_lt (hr : r < 0) (h : as < bs) : Compares r as bs where
  lt := iff_of_true hr h
  eq := iff_of_false hr.ne (by rintro rfl; exact List.lt_irrefl as h)
  gt := iff_of_false hr.not_gt (List.lt_asymm h)

theorem Compares.symm (h : Compares r as bs) : Compares (-r) bs as :=
  ⟨by rw [neg_lt_zero, h.gt], by rw [neg_eq_zero, h.eq, eq_comm], by rw [neg_pos, h.lt]⟩

theorem Compares.cons (h : Compares r as bs) (a : UInt8) : Compares r (a :: as) (a :: bs) :=
  ⟨by rw [h.lt, List.cons_lt_cons_self], by rw [h.eq, List.cons_inj_right],
    by rw [h.gt, List.cons_lt_cons_self]⟩

/-- The first letters decide, if they differ. -/
theorem compares_of_ne (h : a ≠ b) (as bs : List UInt8) : Compares (a.toNat - b.toNat) (a :: as) (b :: bs) := by
  have hlt : ∀ {a b : UInt8}, a < b → ∀ as bs, Compares (a.toNat - b.toNat : ℤ) (a :: as) (b :: bs) := by
    intro a b h as bs
    have hnat := UInt8.lt_iff_toNat_lt.mp h
    exact compares_of_lt (by omega) (List.cons_lt_cons_iff.mpr (Or.inl h))
  rcases UInt8.lt_or_lt_of_ne h with h | h
  · exact hlt h as bs
  · rw [← neg_sub]
    exact (hlt h bs as).symm

/-- How two strings begin, with the NUL after them. -/
theorem heads_cases (hzeroa : 0 ∉ as) (hzerob : 0 ∉ bs) :
    as.headD 0 ≠ bs.headD 0 ∨ (as = [] ∧ bs = []) ∨ ∃ c cs ds, c ≠ 0 ∧ as = c :: cs ∧ bs = c :: ds := by
  cases as with
  | nil =>
    cases bs with
    | nil => exact Or.inr (Or.inl ⟨rfl, rfl⟩)
    | cons b bs => exact Or.inl (List.ne_of_not_mem_cons hzerob)
  | cons a as =>
    have ha : a ≠ 0 := (List.ne_of_not_mem_cons hzeroa).symm
    cases bs with
    | nil => exact Or.inl ha
    | cons b bs =>
      by_cases hab : a = b
      · subst hab
        exact Or.inr (Or.inr ⟨a, as, bs, ha, rfl, rfl⟩)
      · exact Or.inl hab

/-- The first letters decide, if they differ; the NUL is less than the others. -/
theorem compares_of_heads (h : as.headD 0 ≠ bs.headD 0) :
    Compares ((as.headD 0).toNat - (bs.headD 0).toNat) as bs := by
  have hnil : ∀ {b : UInt8}, b ≠ 0 → ∀ bs, Compares ((0 : UInt8).toNat - b.toNat) [] (b :: bs) := fun h bs => by
    have hpos : _ ≠ 0 := fun hb => h (UInt8.toNat_inj.mp hb)
    exact compares_of_lt (by rw [UInt8.toNat_zero]; omega) (List.nil_lt_cons _ bs)
  cases as with
  | nil =>
    cases bs with
    | nil => exact absurd rfl h
    | cons b bs => exact hnil (Ne.symm h) bs
  | cons a as =>
    cases bs with
    | nil =>
      rw [← neg_sub]
      exact (hnil h as).symm
    | cons b bs => exact compares_of_ne h as bs

theorem headD_of_bytes {m : Mem} {p : UInt32} (h : m.Bytes p (as ++ [0])) : m p = as.headD 0 := by
  cases as <;> exact h.1

end Compares

section compare

variable {m : Mem} {p1 p2 a b : UInt32} {as bs : List UInt8}

/-- **`strcmp` compares** two strings, and ends. -/
theorem strcmp_compares (ha : m.Bytes p1 (as ++ [0])) (hb : m.Bytes p2 (bs ++ [0])) (hzeroa : 0 ∉ as)
    (hzerob : 0 ∉ bs) {fuel : ℕ} (hfuel : as.length < fuel) :
    ∃ r, strcmp m p1 p2 fuel = some r ∧ Compares r as bs := by
  obtain ⟨fuel, rfl⟩ : ∃ k, fuel = k + 1 := ⟨fuel - 1, by omega⟩
  induction as generalizing bs p1 p2 fuel with
  | nil =>
    rw [strcmp, headD_of_bytes ha, headD_of_bytes hb]
    refine ⟨_, if_pos rfl, ?_⟩
    rcases heads_cases hzeroa hzerob with hne | ⟨-, rfl⟩ | ⟨c, cs, ds, -, h, -⟩
    · exact compares_of_heads hne
    · exact compares_self []
    · cases h
  | cons a as ih =>
    have ha0 : (a :: as).headD 0 ≠ 0 := (List.ne_of_not_mem_cons hzeroa).symm
    rw [strcmp, headD_of_bytes ha, headD_of_bytes hb, if_neg ha0]
    rcases heads_cases hzeroa hzerob with hne | ⟨h, -⟩ | ⟨c, cs, ds, -, h, rfl⟩
    · exact ⟨_, if_neg hne, compares_of_heads hne⟩
    · cases h
    · obtain ⟨rfl, rfl⟩ := List.cons_eq_cons.mp h
      rw [List.length_cons] at hfuel
      obtain ⟨k, rfl⟩ : ∃ k, fuel = k + 1 := ⟨fuel - 1, by omega⟩
      obtain ⟨r, hr, hcompares⟩ := ih ha.2 hb.2 (List.not_mem_of_not_mem_cons hzeroa)
        (List.not_mem_of_not_mem_cons hzerob) k (by omega)
      exact ⟨r, (if_pos rfl).trans hr, hcompares.cons a⟩

/-- A memory with the strings `ab` and `ac`. -/
def twoStrings : Mem := (Mem.storeBytes (fun _ => 0) 0x1000 [97, 98, 0]).storeBytes 0x2000 [97, 99, 0]

theorem bytes_twoStrings :
    twoStrings.Bytes 0x1000 ([97, 98] ++ [0]) ∧ twoStrings.Bytes 0x2000 ([97, 99] ++ [0]) :=
  ⟨⟨rfl, rfl, rfl, trivial⟩, rfl, rfl, rfl, trivial⟩

theorem zero_twoStrings : (0 : UInt8) ∉ [97, 98] ∧ (0 : UInt8) ∉ [97, 99] := by decide

theorem strcmp_compares_twoStrings : ∃ r, strcmp twoStrings 0x1000 0x2000 3 = some r ∧ r < 0 := by
  obtain ⟨r, hr, hcompares⟩ := strcmp_compares bytes_twoStrings.1 bytes_twoStrings.2 zero_twoStrings.1
    zero_twoStrings.2 (Nat.lt_succ_self 2)
  exact ⟨r, hr, hcompares.lt.mpr (by decide)⟩

/-- **`strncmp` compares** the first `n` letters of two strings. -/
theorem strncmp_compares (ha : m.Bytes p1 (as ++ [0])) (hb : m.Bytes p2 (bs ++ [0])) (hzeroa : 0 ∉ as)
    (hzerob : 0 ∉ bs) (n : ℕ) :
    Compares (strncmp (fun i => m (p1 + UInt32.ofNat i)) (fun i => m (p2 + UInt32.ofNat i)) n) (as.take n)
      (bs.take n) := by
  induction n generalizing as bs p1 p2 with
  | zero => exact compares_self []
  | succ n ih =>
    have htail : ∀ p, (fun i => m (p + UInt32.ofNat (i + 1))) = fun i => m (p + 1 + UInt32.ofNat i) :=
      fun p => funext fun i => congrArg m (add_ofNat_succ p i)
    have hhead : ∀ p, m (p + UInt32.ofNat 0) = m p := fun p => congrArg m (UInt32.add_zero p)
    have htake : ∀ cs : List UInt8, (cs.take (n + 1)).headD 0 = cs.headD 0 := fun cs => by cases cs <;> rfl
    rw [strncmp, htail, htail, hhead, hhead, headD_of_bytes ha, headD_of_bytes hb]
    rcases heads_cases hzeroa hzerob with hne | ⟨rfl, rfl⟩ | ⟨c, cs, ds, hc, rfl, rfl⟩
    · rw [if_pos hne, ← htake as, ← htake bs]
      exact compares_of_heads (by rwa [htake, htake])
    · exact compares_self []
    · rw [List.headD_cons, List.headD_cons, if_neg (not_not.mpr rfl), if_neg hc]
      exact (ih ha.2 hb.2 (List.not_mem_of_not_mem_cons hzeroa) (List.not_mem_of_not_mem_cons hzerob)).cons c

theorem strncmp_compares_twoStrings :
    strncmp (fun i => twoStrings (0x1000 + UInt32.ofNat i)) (fun i => twoStrings (0x2000 + UInt32.ofNat i)) 1 =
      0 :=
  (strncmp_compares bytes_twoStrings.1 bytes_twoStrings.2 zero_twoStrings.1 zero_twoStrings.2 1).eq.mpr rfl

/-- **`memcmp` compares** two blocks of one size. -/
theorem memcmp_compares (ha : m.Bytes a as) (hb : m.Bytes b bs) (hlen : bs.length = as.length) :
    Compares (memcmp m a b as.length) as bs := by
  induction as generalizing bs a b with
  | nil =>
    rw [List.eq_nil_of_length_eq_zero hlen]
    exact compares_self []
  | cons c as ih =>
    obtain ⟨d, bs, rfl⟩ := List.exists_cons_of_length_eq_add_one hlen
    rw [List.length_cons, List.length_cons, Nat.add_right_cancel_iff] at hlen
    rw [List.length_cons, memcmp, ha.1, hb.1]
    by_cases hlt : c < d
    · rw [if_pos hlt]
      exact compares_of_lt (by decide) (List.cons_lt_cons_iff.mpr (Or.inl hlt))
    · rw [if_neg hlt]
      by_cases hgt : d < c
      · rw [if_pos hgt]
        exact (compares_of_lt (r := -1) (by decide) (List.cons_lt_cons_iff.mpr (Or.inl hgt))).symm
      · obtain rfl : c = d := UInt8.le_antisymm (UInt8.not_lt.mp hgt) (UInt8.not_lt.mp hlt)
        rw [if_neg hgt]
        exact (ih ha.2 hb.2 hlen).cons c

theorem memcmp_compares_twoStrings : memcmp twoStrings 0x1000 0x2000 3 < 0 :=
  (memcmp_compares bytes_twoStrings.1 bytes_twoStrings.2 rfl).lt.mpr (by decide)

end compare

end JurasOS
