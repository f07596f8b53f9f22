import Mathlib.Data.List.Range
import Mathlib.Data.Nat.Notation

/-!
# First fit over a row of slots

A row of `N` slots, some of them taken. `firstClear` looks for the first clear
slot; `findRun` looks for the first window of `n` clear slots, and when a slot
of the window is taken it goes on from the slot after that one. At the end of
the row the window is cut short: `findRun` accepts a start whose window is clear
as far as there are slots (`Fits`). The lemmas say what both searches find, in
terms of the plain search that tries every start, and that a result stays inside
the row whenever some whole window is clear: then it is the result of the plain
search (`firstRoom`).
-/

namespace JurasOS.Alloc

variable (taken : ℕ → Bool)

/-- The slots from `i` up to `j` are clear. -/
def Clear (i j : ℕ) : Prop := ∀ k, i ≤ k → k < j → taken k = false

/-- A start in the row from which `n` slots are clear, as far as there are slots. -/
def Fits (N n i : ℕ) : Prop := i < N ∧ Clear taken i (min (i + n) N)

/-- A start from which `n` slots are clear and in the row. -/
def Room (N n i : ℕ) : Prop := i + n ≤ N ∧ Clear taken i (i + n)

/-- The first clear slot. -/
def firstClear (N : ℕ) : Option ℕ := (List.range N).find? fun index => !taken index

/-- The offset of the first taken slot among the `n` slots from `index` on, as far as there are slots. -/
def blocked (N n index : ℕ) : Option ℕ := (List.range (min n (N - index))).find? fun offset =>
    taken (index + offset)

/-- The first start, from `index` on, of a window of `n` clear slots, skipping past the taken
slot that is met first. -/
def findRun (N n index : ℕ) : Option ℕ :=
  if index < N then
    match blocked taken N n index with
    | some offset => findRun N n (index + offset + 1)
    | none => some index
  else none
termination_by N - index

/-- The clear slots at the end of the row begin at `i`. -/
def ClearTail (N i : ℕ) : Prop := i < N ∧ Clear taken i N ∧ ∀ j < i, ¬ Clear taken j N

/-- The plain search: the first of all starts with room. -/
def firstRoom (N n : ℕ) : Option ℕ :=
  (List.range N).find? fun i => decide (i + n ≤ N) && (List.range n).all fun k => !taken (i + k)

variable {taken}

theorem Room.fits {N n i : ℕ} (h : Room taken N n i) (hn : 0 < n) : Fits taken N n i :=
  ⟨by have := h.1; omega, fun k hk hk' => h.2 k hk (by omega)⟩

theorem Fits.room {N n i : ℕ} (h : Fits taken N n i) (hi : i + n ≤ N) : Room taken N n i :=
  ⟨hi, fun k hk hk' => h.2 k hk (by omega)⟩

/-! ### What the searches find -/

theorem firstClear_eq_some {N i : ℕ} :
    firstClear taken N = some i ↔ i < N ∧ taken i = false ∧ ∀ j < i, taken j = true := by
  simp only [firstClear, List.find?_range_eq_some, List.mem_range, Bool.not_eq_true', Bool.not_not]
  constructor
  · exact fun ⟨h1, h2, h3⟩ => ⟨h2, h1, h3⟩
  · exact fun ⟨h1, h2, h3⟩ => ⟨h2, h1, h3⟩

theorem firstClear_eq_none {N : ℕ} : firstClear taken N = none ↔ ∀ i < N, taken i = true := by
  simp [firstClear]

theorem blocked_eq_none {N n index : ℕ} (h : index < N) : blocked taken N n index = none ↔
    Fits taken N n index := by
  simp only [blocked, List.find?_range_eq_none, Fits, Clear, h, true_and]
  constructor
  · intro hf k hk hk'
    have := hf (k - index) (by omega)
    rwa [Nat.add_sub_cancel' hk, Bool.not_eq_true'] at this
  · intro hf offset hoff
    rw [hf (index + offset) (by omega) (by omega)]
    rfl

theorem blocked_eq_some {N n index offset : ℕ} (h : blocked taken N n index = some offset) :
    offset < n ∧ index + offset < N ∧ taken (index + offset) = true := by
  obtain ⟨h1, h2, -⟩ := List.find?_range_eq_some.mp h
  rw [List.mem_range] at h2
  exact ⟨by omega, by omega, h1⟩

/-- No start up to the taken slot has a clear window: that slot is in it. -/
theorem not_fits_of_blocked {N n index offset j : ℕ} (h : blocked taken N n index = some offset)
    (hj : index ≤ j) (hj' : j < index + offset + 1) : ¬ Fits taken N n j := by
  obtain ⟨hoff, hN, htaken⟩ := blocked_eq_some h
  rintro ⟨-, hclear⟩
  have := hclear (index + offset) (by omega) (by omega)
  rw [htaken] at this
  cases this

/-- **The skipping search is the plain one**: it finds the lowest start with a clear window. -/
theorem findRun_eq_some {N n index i : ℕ} : findRun taken N n index = some i ↔
    index ≤ i ∧ Fits taken N n i ∧ ∀ j, index ≤ j → j < i → ¬ Fits taken N n j := by
  fun_induction findRun taken N n index with
  | case1 index hlt offset hoff ih =>
    rw [ih]
    constructor
    · rintro ⟨hi, hfit, hmin⟩
      refine ⟨by omega, hfit, fun j hj hji => ?_⟩
      by_cases hskip : j < index + offset + 1
      · exact not_fits_of_blocked hoff hj hskip
      · exact hmin j (by omega) hji
    · rintro ⟨hi, hfit, hmin⟩
      have hpast : ¬ i < index + offset + 1 := fun hlt => not_fits_of_blocked hoff hi hlt hfit
      exact ⟨by omega, hfit, fun j hj hji => hmin j (by omega) hji⟩
  | case2 index hlt hoff =>
    have hfit := (blocked_eq_none hlt).mp hoff
    constructor
    · rintro ⟨⟩
      exact ⟨le_rfl, hfit, fun j hj hji => by omega⟩
    · rintro ⟨hi, -, hmin⟩
      rcases Nat.eq_or_lt_of_le hi with rfl | hlt
      · rfl
      · exact absurd hfit (hmin index le_rfl hlt)
  | case3 index hge =>
    constructor
    · rintro ⟨⟩
    · rintro ⟨hi, hfit, -⟩
      have := hfit.1
      omega

theorem findRun_eq_none {N n index : ℕ} :
    findRun taken N n index = none ↔ ∀ j, index ≤ j → ¬ Fits taken N n j := by
  fun_induction findRun taken N n index with
  | case1 index hlt offset hoff ih =>
    rw [ih]
    constructor
    · intro h j hj
      by_cases hskip : j < index + offset + 1
      · exact not_fits_of_blocked hoff hj hskip
      · exact h j (by omega)
    · exact fun h j hj => h j (by omega)
  | case2 index hlt hoff =>
    simp only [reduceCtorEq, false_iff, not_forall, not_not]
    exact ⟨index, le_rfl, (blocked_eq_none hlt).mp hoff⟩
  | case3 index hge =>
    simp only [true_iff]
    intro j hj hfit
    have := hfit.1
    omega

/-- The search for one slot is the search for a window of one. -/
theorem firstClear_eq_findRun (N : ℕ) : firstClear taken N = findRun taken N 1 0 := by
  have hfits : ∀ i, Fits taken N 1 i ↔ i < N ∧ taken i = false := by
    intro i
    refine and_congr_right fun hi => ⟨fun h => h i le_rfl (by omega), fun h k hk hk' => ?_⟩
    rwa [show k = i by omega]
  cases h : firstClear taken N with
  | none =>
    refine (findRun_eq_none.mpr fun j _ hj => ?_).symm
    obtain ⟨hlt, hclear⟩ := (hfits j).mp hj
    rw [firstClear_eq_none.mp h j hlt] at hclear
    cases hclear
  | some i =>
    obtain ⟨hlt, hclear, hbefore⟩ := firstClear_eq_some.mp h
    refine (findRun_eq_some.mpr ⟨Nat.zero_le i, (hfits i).mpr ⟨hlt, hclear⟩, fun j _ hj hfit => ?_⟩).symm
    have := ((hfits j).mp hfit).2
    rw [hbefore j hj] at this
    cases this

/-! ### Results that stay in the row -/

/-- With room somewhere, the search succeeds, and what it finds is the lowest start with room. -/
theorem findRun_of_room {N n j : ℕ} (hn : 0 < n) (hj : Room taken N n j) :
    ∃ i, findRun taken N n 0 = some i ∧ i ≤ j ∧ Room taken N n i ∧ ∀ k < i, ¬ Room taken N n k := by
  cases h : findRun taken N n 0 with
  | none => exact absurd (hj.fits hn) (findRun_eq_none.mp h j (by omega))
  | some i =>
    obtain ⟨-, hfit, hmin⟩ := findRun_eq_some.mp h
    have hij : i ≤ j := by
      by_contra hlt
      exact hmin j (by omega) (by omega) (hj.fits hn)
    have := hj.1
    exact ⟨i, rfl, hij, hfit.room (by omega), fun k hk hroom => hmin k (by omega) hk (hroom.fits hn)⟩

/-- Without room, a result runs past the end of the row, so the last slot is clear. -/
theorem last_clear_of_findRun {N n i : ℕ} (hroom : ∀ j, ¬ Room taken N n j)
    (h : findRun taken N n 0 = some i) :
    taken (N - 1) = false := by
  obtain ⟨-, hfit, -⟩ := findRun_eq_some.mp h
  have hover : ¬ i + n ≤ N := fun hi => hroom i (hfit.room hi)
  have := hfit.1
  exact hfit.2 (N - 1) (by omega) (by omega)

/-- The search fails exactly when there is no room and the last slot is taken. -/
theorem findRun_eq_none_iff {N n : ℕ} (hn : 0 < n) :
    findRun taken N n 0 = none ↔ (∀ j, ¬ Room taken N n j) ∧ (N = 0 ∨ taken (N - 1) = true) := by
  constructor
  · intro hfind
    have hnone : ∀ j, ¬ Fits taken N n j := fun j => findRun_eq_none.mp hfind j (Nat.zero_le j)
    refine ⟨fun j hj => hnone j (hj.fits hn), ?_⟩
    by_contra hclear
    rw [not_or, Bool.not_eq_true] at hclear
    refine hnone (N - 1) ⟨by omega, fun k hk hk' => ?_⟩
    rw [show k = N - 1 by omega]
    exact hclear.2
  · rintro ⟨hnone, hlast⟩
    cases hfind : findRun taken N n 0 with
    | none => rfl
    | some i =>
      obtain ⟨-, ⟨hi, -⟩, -⟩ := findRun_eq_some.mp hfind
      rcases hlast with rfl | hlast
      · exact absurd hi (Nat.not_lt_zero i)
      · rw [last_clear_of_findRun hnone hfind] at hlast
        cases hlast

/-- Without room, the search takes the clear slots at the end of the row for a window. -/
theorem findRun_eq_some_of_no_room {N n i : ℕ} (hroom : ∀ j, ¬ Room taken N n j) :
    findRun taken N n 0 = some i ↔ ClearTail taken N i := by
  have hfits : ∀ j < N, Fits taken N n j ↔ Clear taken j N := by
    intro j hj
    constructor
    · intro hfit
      have hover : ¬ j + n ≤ N := fun hle => hroom j (hfit.room hle)
      exact fun k hk hk' => hfit.2 k hk (by omega)
    · exact fun hclear => ⟨hj, fun k hk hk' => hclear k hk (by omega)⟩
  rw [findRun_eq_some, ClearTail]
  constructor
  · rintro ⟨-, hfit, hmin⟩
    have hi := hfit.1
    exact ⟨hi, (hfits i hi).mp hfit, fun j hj hclear =>
      hmin j (Nat.zero_le j) hj ((hfits j (by omega)).mpr hclear)⟩
  · rintro ⟨hi, hclear, hmin⟩
    exact ⟨Nat.zero_le i, (hfits i hi).mpr hclear, fun j _ hj hfit =>
      hmin j hj ((hfits j (by omega)).mp hfit)⟩

/-- With room somewhere, the search finds the lowest. -/
theorem findRun_eq_some_iff {N n i : ℕ} (hn : 0 < n) (hroom : ∃ j, Room taken N n j) :
    findRun taken N n 0 = some i ↔ Room taken N n i ∧ ∀ k < i, ¬ Room taken N n k := by
  obtain ⟨j, hj⟩ := hroom
  obtain ⟨i', hfind, -, hi', hmin'⟩ := findRun_of_room hn hj
  rw [hfind, Option.some_inj]
  constructor
  · rintro rfl
    exact ⟨hi', hmin'⟩
  · rintro ⟨hi, hmin⟩
    rcases lt_trichotomy i' i with hlt | heq | hgt
    · exact absurd hi' (hmin i' hlt)
    · exact heq
    · exact absurd hi (hmin' i hgt)

theorem firstRoom_eq_some {N n i : ℕ} (hn : 0 < n) :
    firstRoom taken N n = some i ↔ Room taken N n i ∧ ∀ k < i, ¬ Room taken N n k := by
  have htest : ∀ j, (decide (j + n ≤ N) && (List.range n).all fun k => !taken (j + k)) = true ↔
      Room taken N n j := by
    intro j
    simp only [Bool.and_eq_true, decide_eq_true_eq, List.all_eq_true, List.mem_range, Bool.not_eq_true', Room,
      Clear]
    refine and_congr_right fun _ => ⟨fun h k hk hk' => ?_, fun h k hk => h (j + k) (by omega) (by omega)⟩
    have := h (k - j) (by omega)
    rwa [Nat.add_sub_cancel' hk] at this
  simp only [firstRoom, List.find?_range_eq_some, htest, Bool.not_eq_true', ← Bool.not_eq_true,
    List.mem_range]
  constructor
  · exact fun ⟨hi, _, hmin⟩ => ⟨hi, hmin⟩
  · intro ⟨hi, hmin⟩
    have := hi.1
    exact ⟨hi, by omega, hmin⟩

/-- **With room somewhere, the skipping search is the plain search.** -/
theorem findRun_eq_firstRoom {N n : ℕ} (hn : 0 < n) (hroom : ∃ j, Room taken N n j) :
    findRun taken N n 0 = firstRoom taken N n := by
  obtain ⟨j, hj⟩ := hroom
  obtain ⟨i, hfind, -, hi⟩ := findRun_of_room hn hj
  rw [hfind, (firstRoom_eq_some hn).mpr hi]

/-- A result stays in the row when there is room or the last slot is taken. -/
theorem findRun_le {N n i : ℕ} (hsafe : (∃ j, Room taken N n j) ∨ taken (N - 1) = true)
    (h : findRun taken N n 0 = some i) : i + n ≤ N := by
  rcases Nat.eq_zero_or_pos n with rfl | hn
  · obtain ⟨-, ⟨hi, -⟩, -⟩ := findRun_eq_some.mp h
    exact Nat.le_of_lt hi
  by_cases hroom : ∃ j, Room taken N n j
  · obtain ⟨⟨hend, -⟩, -⟩ := (findRun_eq_some_iff hn hroom).mp h
    exact hend
  · have hlast := hsafe.resolve_left hroom
    rw [last_clear_of_findRun (not_exists.mp hroom) h] at hlast
    cases hlast

end JurasOS.Alloc
