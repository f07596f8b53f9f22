import JurasOS.Paging.Frames
import Mathlib.Order.Interval.Finset.Nat

/-!
# The counters of the page frame allocator

`free_memory`, `used_memory` and `reserved_memory` follow the bits that the
operations change: an operation on pages moves its counters once for each of its
frames whose bit it changes (`Tallied`). On frames of the bitmap (`Applied`), it
keeps the used and the reserved memory together at 4096 bytes for each marked
frame, and the free and the used memory together as they are.
-/

namespace JurasOS

open Machine

/-! ### Counting what an operation changes -/

/-- From `s` to `s'` the bits of the frames `F` got `value`, and `count` moved the counters once for
each of them that had not that value. -/
structure Tallied (value : Bool) (count : Pfa → Pfa) (F : Set ℕ) (s s' : Kernel) : Prop where
  marks : Marks value F s s'
  below : ∀ f ∈ F, f < 2 ^ 20
  tally : s'.pfa = count^[{f ∈ F | s.taken f ≠ value}.ncard] s.pfa

section Tallied

variable {value : Bool} {count : Pfa → Pfa} {F G : Set ℕ} {s t u : Kernel}

theorem Tallied.refl (value : Bool) (count : Pfa → Pfa) (s : Kernel) : Tallied value count ∅ s s :=
  ⟨Marks.refl value s, fun _ h => absurd h (Set.notMem_empty _), by simp⟩

theorem finite_of_below (h : ∀ f ∈ F, f < 2 ^ 20) : F.Finite := (Set.finite_Iio (2 ^ 20)).subset h

/-- The frames of both operations that were changed: by the first one, or else by the second one. -/
theorem Tallied.ncard_union (h : Tallied value count F s t) (hG : ∀ f ∈ G, f < 2 ^ 20) :
    {f ∈ F ∪ G | s.taken f ≠ value}.ncard =
    {f ∈ G | t.taken f ≠ value}.ncard + {f ∈ F | s.taken f ≠ value}.ncard := by
  have hunion :
    {f ∈ F ∪ G | s.taken f ≠ value} = {f ∈ G | t.taken f ≠ value} ∪ {f ∈ F | s.taken f ≠ value} := by
    ext f
    by_cases hF : f ∈ F
    · simp [hF, h.marks.inside f hF (by have := h.below f hF; omega)]
    · by_cases hfG : f ∈ G
      · simp [hF, hfG, h.marks.outside f hF (by have := hG f hfG; omega)]
      · simp [hF, hfG]
  have hdisj : Disjoint {f ∈ G | t.taken f ≠ value} {f ∈ F | s.taken f ≠ value} := by
    rw [Set.disjoint_left]
    rintro f ⟨-, hne⟩ ⟨hF, -⟩
    exact hne (h.marks.inside f hF (by have := h.below f hF; omega))
  rw [hunion, Set.ncard_union_eq hdisj ((finite_of_below hG).subset (Set.sep_subset _ _))
    ((finite_of_below h.below).subset (Set.sep_subset _ _))]

theorem Tallied.trans (h : Tallied value count F s t) (h' : Tallied value count G t u) :
    Tallied value count (F ∪ G) s u := by
  refine ⟨h.marks.trans h'.marks, fun f hf => hf.elim (h.below f) (h'.below f), ?_⟩
  rw [h'.tally, h.tally, h.ncard_union h'.below, Function.iterate_add_apply]

/-- An operation on a page counts its frame, if it changes it. -/
theorem pfaMark_tallied (hcount : ∀ pfa, (count pfa).pageBitmap = pfa.pageBitmap)
    (hinit : ∀ pfa, (count pfa).initialized = pfa.initialized) (address : UInt32) (s : Kernel) :
    Tallied value count {address.toNat / 4096} s (pfaMark value count address s) := by
  have hbit : s.taken (address.toNat / 4096) = bitmapGet s.mem s.pfa.pageBitmap (address / 4096) := by
    have hindex : (address / 4096).toNat = address.toNat / 4096 := UInt32.toNat_div ..
    rw [Kernel.taken, Bitmap.bits, ← hindex, UInt32.ofNat_toNat]
  refine ⟨pfaMark_marks hcount hinit address s, ?_, ?_⟩
  · rintro f rfl
    have := address.toNat_lt
    omega
  · by_cases hget : bitmapGet s.mem s.pfa.pageBitmap (address / 4096) = value
    · have hnone : {f ∈ ({address.toNat / 4096} : Set ℕ) | s.taken f ≠ value} = ∅ := by
        ext f
        simp only [Set.mem_ofPred_eq, Set.mem_singleton_iff, Set.mem_empty_iff_false, iff_false, not_and,
          not_not]
        rintro rfl
        rw [hbit, hget]
      rw [hnone, Set.ncard_empty, pfaMark, if_pos hget]
      rfl
    · have hone : {f ∈ ({address.toNat / 4096} : Set ℕ) | s.taken f ≠ value} = {address.toNat / 4096} := by
        ext f
        simp only [Set.mem_ofPred_eq, Set.mem_singleton_iff, and_iff_left_iff_imp]
        rintro rfl
        rwa [hbit]
      rw [hone, Set.ncard_singleton, pfaMark, if_neg hget]
      rfl

/-- An operation on a run of pages counts the frames that it changes. -/
theorem pfaEachPage_tallied {mark : UInt32 → Kernel → Kernel}
    (hmark : ∀ address s, Tallied value count {address.toNat / 4096} s (mark address s))
    (address pageCount : UInt32) (s : Kernel) :
    Tallied value count (frames address pageCount) s (pfaEachPage mark address pageCount s) :=
  pfaEachPage_rel (Tallied.refl value count) Tallied.trans hmark address pageCount s

end Tallied

/-! ### The operations -/

/-- The four operations that exist for a page and for a run of pages. -/
inductive PageOp where
  | free
  | lock
  | unreserve
  | reserve
  deriving DecidableEq

/-- The operation on a page. -/
def PageOp.page : PageOp → UInt32 → Kernel → Kernel
  | .free => pfaFreePage
  | .lock => pfaLockPage
  | .unreserve => pfaUnreservePage
  | .reserve => pfaReservePage

/-- The operation on a run of pages. -/
def PageOp.pages : PageOp → UInt32 → UInt32 → Kernel → Kernel
  | .free => pfaFreePages
  | .lock => pfaLockPages
  | .unreserve => pfaUnreservePages
  | .reserve => pfaReservePages

/-- The bit that the operation writes. -/
def PageOp.value : PageOp → Bool
  | .free | .unreserve => false
  | .lock | .reserve => true

/-- What the operation adds to `free_memory` for a frame. -/
def PageOp.freeChange : PageOp → UInt32
  | .free => 4096
  | .lock => -4096
  | .unreserve | .reserve => 0

/-- What the operation adds to `used_memory` for a frame. -/
def PageOp.usedChange : PageOp → UInt32
  | .free => -4096
  | .lock => 4096
  | .unreserve | .reserve => 0

/-- What the operation adds to `reserved_memory` for a frame. -/
def PageOp.reservedChange : PageOp → UInt32
  | .unreserve => -4096
  | .reserve => 4096
  | .free | .lock => 0

/-- The counters moved for `n` frames. -/
def PageOp.moved (op : PageOp) (n : ℕ) (pfa : Pfa) : Pfa :=
  { pfa with
    freeMemory := pfa.freeMemory + UInt32.ofNat n * op.freeChange
    usedMemory := pfa.usedMemory + UInt32.ofNat n * op.usedChange
    reservedMemory := pfa.reservedMemory + UInt32.ofNat n * op.reservedChange }

theorem PageOp.moved_iterate (op : PageOp) (n : ℕ) (pfa : Pfa) : (op.moved 1)^[n] pfa = op.moved n pfa := by
  induction n with
  | zero => simp [PageOp.moved]
  | succ n ih =>
    have hadd : ∀ x d : UInt32,
      x + UInt32.ofNat n * d + UInt32.ofNat 1 * d = x + UInt32.ofNat (n + 1) * d := by
      intro x d
      rw [UInt32.ofNat_add, UInt32.add_mul, UInt32.add_assoc]
    rw [Function.iterate_succ_apply', ih]
    simp only [PageOp.moved, hadd]

/-- The operations on a page are one. -/
theorem PageOp.page_eq (op : PageOp) (address : UInt32) (s : Kernel) :
    op.page address s = pfaMark op.value (op.moved 1) address s := by
  cases op <;>
    simp [PageOp.page, pfaFreePage, pfaLockPage, pfaUnreservePage, pfaReservePage, pfaMark, PageOp.moved,
      PageOp.value, PageOp.freeChange, PageOp.usedChange, PageOp.reservedChange, sub_eq_add_neg]

theorem PageOp.page_tallied (op : PageOp) (address : UInt32) (s : Kernel) :
    Tallied op.value (op.moved 1) {address.toNat / 4096} s (op.page address s) := by
  have hbitmap : ∀ pfa, (op.moved 1 pfa).pageBitmap = pfa.pageBitmap := fun _ => rfl
  have hinit : ∀ pfa, (op.moved 1 pfa).initialized = pfa.initialized := fun _ => rfl
  rw [op.page_eq]
  exact pfaMark_tallied hbitmap hinit address s

theorem PageOp.pages_tallied (op : PageOp) (address pageCount : UInt32) (s : Kernel) :
    Tallied op.value (op.moved 1) (frames address pageCount) s (op.pages address pageCount s) := by
  have hpages : op.pages = pfaEachPage op.page := by cases op <;> rfl
  rw [hpages]
  exact pfaEachPage_tallied op.page_tallied address pageCount s

/-- The frames of `F` that the operation changes, when `M` are marked. -/
def PageOp.changes (op : PageOp) (F M : Set ℕ) : Set ℕ := if op.value then F \ M else F ∩ M

/-- The frames that are marked after the operation on `F`, when `M` were. -/
def PageOp.marks (op : PageOp) (F M : Set ℕ) : Set ℕ := if op.value then M ∪ F else M \ F

/-- From `s` to `t` the operation was applied to the frames `F` of the bitmap. -/
structure Applied (op : PageOp) (F : Set ℕ) (s t : Kernel) : Prop where
  inside : F ⊆ Set.Iio s.pfa.pageBitmap.length
  marked : t.marked = op.marks F s.marked
  counters : t.pfa = op.moved (op.changes F s.marked).ncard s.pfa

section Applied

variable {op : PageOp} {F : Set ℕ} {s t u : Kernel}

theorem Kernel.marked_finite (s : Kernel) : s.marked.Finite :=
  (Set.finite_Iio s.pfa.pageBitmap.length).subset fun _ h => h.1

theorem Tallied.applied (h : Tallied op.value (op.moved 1) F s t) (hF : F ⊆ Set.Iio s.pfa.pageBitmap.length) :
    Applied op F s t := by
  have hchanged : {f ∈ F | s.taken f ≠ op.value} = op.changes F s.marked := by
    have hmem : ∀ f ∈ F, f ∈ s.marked ↔ s.taken f = true := fun f hf => and_iff_right (hF hf)
    ext f
    cases hvalue : op.value with
    | false =>
      simp only [PageOp.changes, hvalue, Bool.false_eq_true, if_false, Set.mem_inter_iff, Set.mem_ofPred_eq]
      exact and_congr_right fun hf => by simp [hmem f hf]
    | true =>
      simp only [PageOp.changes, hvalue, if_true, Set.mem_sdiff, Set.mem_ofPred_eq]
      exact and_congr_right fun hf => by rw [hmem f hf]
  refine ⟨hF, ?_, ?_⟩
  · have hmarks := h.marks
    cases hvalue : op.value with
    | false =>
      rw [hvalue] at hmarks
      simp [PageOp.marks, hvalue, hmarks.marked_sdiff]
    | true =>
      rw [hvalue] at hmarks
      simp [PageOp.marks, hvalue, hmarks.marked_union, Set.inter_eq_left.mpr hF]
  · rw [h.tally, hchanged, PageOp.moved_iterate]

theorem Applied.bitmap (h : Applied op F s t) : t.pfa.pageBitmap = s.pfa.pageBitmap := by
  rw [h.counters]
  rfl

/-- What was done before, without touching the bitmap or the counters, does not matter. -/
theorem Applied.of_same (h : Applied op F t u) (hpfa : t.pfa = s.pfa) (hmarked : t.marked = s.marked) :
    Applied op F s u := by
  obtain ⟨hinside, hu, hcounters⟩ := h
  rw [hpfa, hmarked] at *
  exact ⟨hinside, hu, hcounters⟩

/-- A frame that is marked was marked before, or is one of those changed; and the other way round. -/
theorem PageOp.ncard_marks (op : PageOp) {F M : Set ℕ} (hF : F.Finite) (hM : M.Finite) :
    if op.value then (op.marks F M).ncard = M.ncard + (op.changes F M).ncard
    else (op.marks F M).ncard + (op.changes F M).ncard = M.ncard := by
  cases hvalue : op.value with
  | false =>
    simp only [PageOp.marks, PageOp.changes, hvalue, Bool.false_eq_true, if_false]
    rw [Set.inter_comm, Nat.add_comm]
    exact Set.ncard_inter_add_ncard_sdiff_eq_ncard M F hM
  | true =>
    simp only [PageOp.marks, PageOp.changes, hvalue, if_true]
    rw [← Set.union_sdiff_self, Set.ncard_union_eq Set.disjoint_sdiff_right hM (hF.subset Set.sdiff_subset)]

theorem Applied.empty (op : PageOp) (s : Kernel) : Applied op ∅ s s := by
  refine ⟨Set.empty_subset _, ?_, ?_⟩
  · cases op <;> simp [PageOp.marks, PageOp.value]
  · cases op <;> simp [PageOp.changes, PageOp.value, PageOp.moved]

/-! ### Conservation -/

/-- The used and the reserved memory together are the pages of the marked frames. -/
def Balanced (s : Kernel) : Prop :=
  s.pfa.usedMemory + s.pfa.reservedMemory = 4096 * UInt32.ofNat s.marked.ncard

/-- An operation keeps the balance. -/
theorem Applied.balanced {op : PageOp} {F : Set ℕ} (h : Applied op F s t) (hs : Balanced s) : Balanced t := by
  have hF : F.Finite := (Set.finite_Iio _).subset h.inside
  have hcount := op.ncard_marks hF s.marked_finite
  rw [← h.marked] at hcount
  rw [Balanced] at hs ⊢
  rw [h.counters]
  generalize (op.changes F s.marked).ncard = n at *
  have hsum : (op.moved n s.pfa).usedMemory + (op.moved n s.pfa).reservedMemory =
      4096 * UInt32.ofNat s.marked.ncard + UInt32.ofNat n * (op.usedChange + op.reservedChange) := by
    rw [← hs]
    simp only [PageOp.moved]
    grind
  rw [hsum]
  cases hvalue : op.value with
  | false =>
    have hchange : op.usedChange + op.reservedChange = -4096 := by cases op <;> first | rfl | cases hvalue
    rw [hvalue, if_neg Bool.false_ne_true] at hcount
    rw [hchange, ← hcount, UInt32.ofNat_add]
    grind
  | true =>
    have hchange : op.usedChange + op.reservedChange = 4096 := by cases op <;> first | rfl | cases hvalue
    rw [hvalue, if_pos rfl] at hcount
    rw [hchange, hcount, UInt32.ofNat_add]
    grind

/-- What an operation takes from the free memory is used. -/
theorem Applied.free_add_used {op : PageOp} {F : Set ℕ} (h : Applied op F s t) :
    t.pfa.freeMemory + t.pfa.usedMemory = s.pfa.freeMemory + s.pfa.usedMemory := by
  have hchange : op.freeChange + op.usedChange = 0 := by cases op <;> rfl
  rw [h.counters]
  simp only [PageOp.moved]
  grind

end Applied

end JurasOS
