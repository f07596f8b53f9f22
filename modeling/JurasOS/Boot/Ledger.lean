import JurasOS.Alloc.Holders
import JurasOS.Boot.MemoryMap
import JurasOS.Paging.Calls
import Mathlib.Order.Interval.Set.Nat

/-!
# The counters, from the empty bitmap on

Any calls on frames of the bitmap keep what the counters say together: of the
marked frames, and of the memory. The bit of a frame does not say which operation
marked it. `Holders` keeps that beside the bitmap, and so says when each counter
follows its own frames.
-/

namespace JurasOS

open Machine Alloc Relation

section PfaCalled

variable {s t : Kernel}

/-- A call on frames of the bitmap. -/
def PfaCalled (s t : Kernel) : Prop := ∃ c : PfaCall, c.InRange s ∧ t = c.run s

theorem initBitmap_length (memorySize bufferAddress : UInt32) (s : Kernel) :
    (initBitmap (memorySize / 4096 / 8 + 1) bufferAddress s).pfa.pageBitmap.length ≤ 2 ^ 20 := by
  have hlt := memorySize.toNat_lt
  have hsize := toNat_bitmapSize memorySize
  have hlength :
    Bitmap.length ⟨memorySize / 4096 / 8 + 1, bufferAddress⟩ = (memorySize / 4096 / 8 + 1).toNat * 8 :=
    Bitmap.length_eq (by show (memorySize / 4096 / 8 + 1).toNat * 8 < _; omega)
  show Bitmap.length ⟨memorySize / 4096 / 8 + 1, bufferAddress⟩ ≤ _
  omega

/-- **The counters follow the bits**: from the empty bitmap on, through any calls, the used and the reserved
memory together are 4096 bytes for each marked frame, and the free and the used memory together stay the
same, modulo `2 ^ 32`. -/
theorem pfaCalls_conserve {memorySize bufferAddress : UInt32} {s₀ : Kernel} (hused : s₀.pfa.usedMemory = 0)
    (hreserved : s₀.pfa.reservedMemory = 0)
    (hcalls : ReflTransGen PfaCalled (initBitmap (memorySize / 4096 / 8 + 1) bufferAddress s₀) s) :
    s.pfa.usedMemory + s.pfa.reservedMemory = 4096 * UInt32.ofNat s.marked.ncard ∧
      s.pfa.freeMemory + s.pfa.usedMemory = s₀.pfa.freeMemory + s₀.pfa.usedMemory := by
  have hinv : (Balanced s ∧ s.pfa.freeMemory + s.pfa.usedMemory = s₀.pfa.freeMemory + s₀.pfa.usedMemory) ∧
      s.pfa.pageBitmap.length ≤ 2 ^ 20 := by
    induction hcalls with
    | refl =>
      refine ⟨⟨?_, rfl⟩, initBitmap_length memorySize bufferAddress s₀⟩
      rw [Balanced, initBitmap_marked, Set.ncard_empty]
      show s₀.pfa.usedMemory + s₀.pfa.reservedMemory = _
      rw [hused, hreserved]
      rfl
    | @tail s t _ hstep ih =>
      obtain ⟨⟨hbalanced, hfree⟩, hsmall⟩ := ih
      obtain ⟨c, hin, rfl⟩ := hstep
      have happlied := c.run_applied hsmall hin
      exact ⟨⟨happlied.balanced hbalanced, happlied.free_add_used.trans hfree⟩, by rwa [happlied.bitmap]⟩
  exact hinv.1

/-- An empty bitmap of 8 frames. -/
def emptyKernel : Kernel := initBitmap (0 / 4096 / 8 + 1) 0x1000 Kernel.loaded

theorem inRange_page (op : PageOp) {address : UInt32} {s : Kernel}
    (h : address.toNat / 4096 < s.pfa.pageBitmap.length) : PfaCall.InRange (.page op address) s :=
  ⟨Set.singleton_subset_iff.mpr h, fun h => h.elim⟩

/-- A page reserved, and then freed. -/
theorem pfaCalls_conserve_reserve_free :
    let s := PfaCall.run (.page .free 0) (PfaCall.run (.page .reserve 0) emptyKernel)
    s.pfa.usedMemory + s.pfa.reservedMemory = 4096 * UInt32.ofNat s.marked.ncard := by
  have hreserve : PfaCalled emptyKernel (PfaCall.run (.page .reserve 0) emptyKernel) :=
    ⟨_, inRange_page .reserve (by decide), rfl⟩
  have hfree : PfaCalled _ (PfaCall.run (.page .free 0) (PfaCall.run (.page .reserve 0) emptyKernel)) :=
    ⟨_, inRange_page .free (by decide), rfl⟩
  have hused : Kernel.loaded.pfa.usedMemory = 0 := rfl
  exact (pfaCalls_conserve hused rfl (.tail (.single hreserve) hfree)).1

/-! ### Who marked a frame -/

/-- What a frame is marked for: each has its counter. -/
inductive Mark where
  | locked
  | reserved
  deriving DecidableEq

/-- The mark that the operation makes, or means to remove. -/
def PageOp.mark : PageOp → Mark
  | .free | .lock => .locked
  | .unreserve | .reserve => .reserved

/-- The counter of a mark. -/
def Pfa.counter (pfa : Pfa) : Mark → UInt32
  | .locked => pfa.usedMemory
  | .reserved => pfa.reservedMemory

/-- The holders after the operation on `F`: the bit is all there is, so releasing a frame does not ask
who holds it. -/
def PageOp.holders (op : PageOp) (F : Set ℕ) (h : Holders Mark ℕ) : Holders Mark ℕ :=
  if op.value then h.take op.mark F else h.release F

/-- Each counter is 4096 bytes for each frame held. -/
def CountsHeld (s : Kernel) (h : Holders Mark ℕ) : Prop :=
  ∀ k, (s.pfa.counter k).toNat = 4096 * (h.held k).ncard

/-- The operation releases a frame of `F` that was marked for something else. -/
def PageOp.Crosses (op : PageOp) (F : Set ℕ) (h : Holders Mark ℕ) : Prop :=
  op.value = false ∧ (F ∩ h.others op.mark).Nonempty

/-- The operation takes its counter below zero. -/
def PageOp.Wraps (op : PageOp) (F : Set ℕ) (s : Kernel) : Prop :=
  op.value = false ∧ (s.pfa.counter op.mark).toNat < 4096 * (op.changes F s.marked).ncard

/-- No mark is on as many frames as there are addresses for. -/
def Few (h : Holders Mark ℕ) : Prop := ∀ k, (h.held k).ncard < 2 ^ 20

theorem counter_moved (op : PageOp) (n : ℕ) (pfa : Pfa) (k : Mark) : (op.moved n pfa).counter k =
    if k = op.mark then
      if op.value then pfa.counter k + UInt32.ofNat n * 4096 else pfa.counter k - UInt32.ofNat n * 4096
    else pfa.counter k := by
  cases op <;> cases k <;>
    simp [PageOp.moved, Pfa.counter, PageOp.mark, PageOp.value, PageOp.usedChange, PageOp.reservedChange,
      UInt32.sub_eq_add_neg]

section CountsHeld

variable {op : PageOp} {F : Set ℕ} {h : Holders Mark ℕ}

theorem Applied.all_holders (happlied : Applied op F s t) (hall : h.all = s.marked) :
    (op.holders F h).all = t.marked := by
  rw [happlied.marked, PageOp.holders, PageOp.marks]
  cases op.value with
  | false =>
    rw [if_neg Bool.false_ne_true, if_neg Bool.false_ne_true, h.all_release, hall]
  | true =>
    rw [if_pos rfl, if_pos rfl, h.all_take, hall]

theorem toNat_pages {n : ℕ} (h : n < 2 ^ 20) : (UInt32.ofNat n * 4096).toNat = 4096 * n := by
  rw [UInt32.toNat_mul, UInt32.toNat_ofNat']
  show _ % 2 ^ 32 * 4096 % 2 ^ 32 = _
  omega

/-- A counter goes down modulo `2 ^ 32`. -/
theorem toNat_sub_pages (c : UInt32) (n : ℕ) :
    (c - UInt32.ofNat n * 4096).toNat = (c.toNat + (2 ^ 32 - 4096 * n % 2 ^ 32)) % 2 ^ 32 := by
  rw [UInt32.toNat_sub, UInt32.toNat_mul, UInt32.toNat_ofNat']
  show (2 ^ 32 - _ % 2 ^ 32 * 4096 % 2 ^ 32 + _) % 2 ^ 32 = _
  omega

/-- The others are those of the other mark. -/
theorem others_subset (h : Holders Mark ℕ) (k : Mark) : ∃ j, j ≠ k ∧ h.others k ⊆ h.held j := by
  cases k with
  | locked =>
    refine ⟨.reserved, by decide, ?_⟩
    rintro f ⟨j, hj, hf⟩
    cases j with
    | locked => exact absurd rfl hj
    | reserved => exact hf
  | reserved =>
    refine ⟨.locked, by decide, ?_⟩
    rintro f ⟨j, hj, hf⟩
    cases j with
    | locked => exact hf
    | reserved => exact absurd rfl hj

theorem CountsHeld.few (hs : CountsHeld s h) : Few h := by
  intro k
  have hk := hs k
  have := (s.pfa.counter k).toNat_lt
  omega

/-- Taking frames keeps the count, if there are fewer than there are addresses for. -/
theorem Applied.countsHeld_take (happlied : Applied op F s t) (hvalue : op.value = true)
    (hall : h.all = s.marked) (hs : CountsHeld s h) : CountsHeld t (op.holders F h) ↔
    Few (op.holders F h) := by
  refine ⟨fun ht => ht.few, fun hfew k => ?_⟩
  have hF : F.Finite := (Set.finite_Iio _).subset happlied.inside
  have hncard := Holders.ncard_take (k := op.mark) (hall ▸ s.marked_finite) hF
  rw [PageOp.holders, hvalue, if_pos rfl] at hfew ⊢
  have hchanges : op.changes F s.marked = F \ h.all := by rw [PageOp.changes, hvalue, if_pos rfl, hall]
  rw [happlied.counters, counter_moved, hchanges, hvalue]
  by_cases hk : k = op.mark
  · rw [if_pos hk, if_pos rfl]
    subst hk
    have hlt := hfew op.mark
    have hcounter := hs op.mark
    rw [UInt32.toNat_add, toNat_pages (by omega), hcounter, hncard, Nat.mod_eq_of_lt (by omega)]
    omega
  · rw [if_neg hk, h.held_take_of_ne _ _ hk]
    exact hs k

/-- Releasing frames keeps the count exactly when they had the mark of the operation; and then the counter
stays above zero. -/
theorem Applied.countsHeld_release (happlied : Applied op F s t) (hvalue : op.value = false)
    (hall : h.all = s.marked) (hs : CountsHeld s h) : (CountsHeld t (op.holders F h) ∧ ¬ op.Wraps F s) ↔
    ¬ op.Crosses F h := by
  have hfinite : h.all.Finite := hall ▸ s.marked_finite
  have hsplit := Holders.ncard_inter_all (F := F) (k := op.mark) hfinite
  have hgone := Holders.ncard_release (F := F) (k := op.mark) hfinite
  have hchanges : op.changes F s.marked = F ∩ h.all := by
    rw [PageOp.changes, hvalue, if_neg Bool.false_ne_true, hall]
  have hcounter := hs op.mark
  have hlt := (s.pfa.counter op.mark).toNat_lt
  have hothers : (F ∩ h.others op.mark).ncard < 2 ^ 20 := by
    obtain ⟨j, -, hj⟩ := others_subset h op.mark
    exact (Set.ncard_le_ncard (Set.inter_subset_right.trans hj)
      (hfinite.subset (h.held_subset j))).trans_lt (hs.few j)
  have hfin : (F ∩ h.others op.mark).Finite :=
    ((Set.finite_Iio _).subset happlied.inside).subset Set.inter_subset_left
  have hcross : op.Crosses F h ↔ 0 < (F ∩ h.others op.mark).ncard := by
    rw [PageOp.Crosses, Set.ncard_pos hfin]
    exact and_iff_right hvalue
  have hafter : (t.pfa.counter op.mark).toNat =
      ((s.pfa.counter op.mark).toNat + (2 ^ 32 - 4096 * (F ∩ h.all).ncard % 2 ^ 32)) % 2 ^ 32 := by
    rw [happlied.counters, counter_moved, if_pos rfl, hvalue, if_neg Bool.false_ne_true, hchanges,
      toNat_sub_pages]
  rw [hcross, PageOp.Wraps, hchanges]
  rw [PageOp.holders, hvalue, if_neg Bool.false_ne_true]
  constructor
  · rintro ⟨ht, -⟩
    have := ht op.mark
    omega
  · intro hnone
    refine ⟨fun k => ?_, ?_⟩
    · by_cases hk : k = op.mark
      · subst hk
        omega
      · have hempty : F ∩ h.others op.mark = ∅ := (Set.ncard_eq_zero hfin).mp (by omega)
        rw [happlied.counters, counter_moved, if_neg hk, h.held_release_of_ne _ _ hk hempty]
        exact hs k
    · rintro ⟨-, hwrap⟩
      omega

/-- What a step keeps, and when. -/
theorem Applied.countsHeld_iff (happlied : Applied op F s t) (hall : h.all = s.marked) (hs : CountsHeld s h) :
    (CountsHeld t (op.holders F h) ∧ ¬ op.Wraps F s) ↔ (Few (op.holders F h) ∧ ¬ op.Crosses F h) := by
  cases hvalue : op.value with
  | false =>
    have hrelease := happlied.countsHeld_release hvalue hall hs
    exact ⟨fun ht => ⟨ht.1.few, hrelease.mp ht⟩, fun ht => hrelease.mpr ht.2⟩
  | true =>
    have hwraps : ¬ op.Wraps F s := fun hw => by rw [PageOp.Wraps, hvalue] at hw; cases hw.1
    have hcrosses : ¬ op.Crosses F h := fun hc => by rw [PageOp.Crosses, hvalue] at hc; cases hc.1
    rw [happlied.countsHeld_take hvalue hall hs]
    exact ⟨fun ht => ⟨ht.1, hcrosses⟩, fun ht => ⟨ht.1, hwraps⟩⟩

end CountsHeld

/-- A state, with who holds its marked frames. -/
structure Attributed where
  state : Kernel
  holders : Holders Mark ℕ

/-- The call, with what it does to the holders. -/
def PfaCall.step (c : PfaCall) (x : Attributed) : Attributed :=
  ⟨c.run x.state, c.op.holders (c.frames x.state) x.holders⟩

/-- A run of calls on frames of the bitmap, with each state and the call made in it, the latest first. -/
inductive PfaTrail (x₀ : Attributed) : List (Attributed × PfaCall) → Attributed → Prop
  | start : PfaTrail x₀ [] x₀
  | call {trail : List (Attributed × PfaCall)} {x : Attributed} (c : PfaCall) :
      PfaTrail x₀ trail x → c.InRange x.state → PfaTrail x₀ ((x, c) :: trail) (c.step x)

/-- Each counter is 4096 bytes for each frame held. -/
def Attributed.Counts (x : Attributed) : Prop := CountsHeld x.state x.holders

/-- The call takes its counter below zero. -/
def PfaCall.Wraps (c : PfaCall) (x : Attributed) : Prop := c.op.Wraps (c.frames x.state) x.state

/-- The call releases a frame that was marked for something else: it frees one that was reserved, or the
other way round. -/
def PfaCall.Crosses (c : PfaCall) (x : Attributed) : Prop := c.op.Crosses (c.frames x.state) x.holders

section PfaTrail

variable {x₀ x : Attributed} {trail : List (Attributed × PfaCall)}

/-- What is held is what is marked, through a run. -/
theorem PfaTrail.all_eq (hsmall : x₀.state.pfa.pageBitmap.length ≤ 2 ^ 20)
    (hall : x₀.holders.all = x₀.state.marked) (htrail : PfaTrail x₀ trail x) :
    x.state.pfa.pageBitmap = x₀.state.pfa.pageBitmap ∧ x.holders.all = x.state.marked := by
  induction htrail with
  | start => exact ⟨rfl, hall⟩
  | call c _ hin ih =>
    obtain ⟨hbitmap, hheld⟩ := ih
    have happlied := c.run_applied (by rwa [hbitmap]) hin
    exact ⟨happlied.bitmap.trans hbitmap, happlied.all_holders hheld⟩

/-- The frames of a bitmap that has fewer than `2 ^ 20` are few. -/
theorem PfaTrail.few (hlt : x₀.state.pfa.pageBitmap.length < 2 ^ 20)
    (hall : x₀.holders.all = x₀.state.marked) (htrail : PfaTrail x₀ trail x) :
    Few x.holders ∧ ∀ y ∈ trail, Few y.1.holders := by
  have hfew : ∀ {trail y}, PfaTrail x₀ trail y → Few y.holders := by
    intro trail y hy k
    obtain ⟨hbitmap, hheld⟩ := hy.all_eq hlt.le hall
    have hsub : y.holders.held k ⊆ Set.Iio x₀.state.pfa.pageBitmap.length := by
      rw [← hbitmap]
      exact fun f hf => (hheld ▸ y.holders.held_subset k hf : f ∈ y.state.marked).1
    have hle := Set.ncard_le_ncard hsub (Set.finite_Iio _)
    rw [Set.ncard_Iio_nat] at hle
    exact lt_of_le_of_lt hle hlt
  refine ⟨hfew htrail, ?_⟩
  induction htrail with
  | start => simp
  | call c htrail _ ih => exact List.forall_mem_cons.mpr ⟨hfew htrail, ih⟩

/-- **The counters are those of the frames held, through a run, exactly when** no call frees a reserved
frame or unreserves a locked one, and no mark is on `2 ^ 20` frames. -/
theorem pfaTrail_counts_iff (hsmall : x₀.state.pfa.pageBitmap.length ≤ 2 ^ 20)
    (hall : x₀.holders.all = x₀.state.marked) (hcounts : x₀.Counts) (htrail : PfaTrail x₀ trail x) :
    (x.Counts ∧ ∀ y ∈ trail, y.1.Counts ∧ ¬ y.2.Wraps y.1) ↔
      (Few x.holders ∧ ∀ y ∈ trail, Few y.1.holders ∧ ¬ y.2.Crosses y.1) := by
  induction htrail with
  | start => exact ⟨fun _ => ⟨hcounts.few, by simp⟩, fun _ => ⟨hcounts, by simp⟩⟩
  | @call trail x c htrail hin ih =>
    obtain ⟨hbitmap, hall'⟩ := htrail.all_eq hsmall hall
    have happlied := c.run_applied (by rwa [hbitmap]) hin
    rw [List.forall_mem_cons, List.forall_mem_cons]
    constructor
    · rintro ⟨hafter, ⟨hbefore, hwraps⟩, htail⟩
      obtain ⟨hfew, hrest⟩ := ih.mp ⟨hbefore, htail⟩
      obtain ⟨hfew', hcrosses⟩ := (happlied.countsHeld_iff hall' hbefore).mp ⟨hafter, hwraps⟩
      exact ⟨hfew', ⟨hfew, hcrosses⟩, hrest⟩
    · rintro ⟨hfew', ⟨hfew, hcrosses⟩, hrest⟩
      obtain ⟨hbefore, htail⟩ := ih.mpr ⟨hfew, hrest⟩
      obtain ⟨hafter, hwraps⟩ := (happlied.countsHeld_iff hall' hbefore).mpr ⟨hfew', hcrosses⟩
      exact ⟨hafter, ⟨hbefore, hwraps⟩, htail⟩

theorem emptyKernel_all : (Holders.none : Holders Mark ℕ).all = emptyKernel.marked := by
  rw [emptyKernel, initBitmap_marked, Holders.all_none]

theorem emptyKernel_counts : Attributed.Counts ⟨emptyKernel, Holders.none⟩ := by
  intro k
  cases k <;> simp [Holders.none, emptyKernel, initBitmap, Kernel.loaded, Pfa.counter]

/-- Two pages are locked and reserved, and each is released as it was marked. -/
theorem pfaTrail_counts_released : ∃ trail x, PfaTrail ⟨emptyKernel, Holders.none⟩ trail x ∧
    trail.map Prod.snd =
      [.page .unreserve 0x1000, .page .free 0, .page .reserve 0x1000, .page .lock 0] ∧
    x.Counts ∧ ∀ y ∈ trail, y.1.Counts ∧ ¬ y.2.Wraps y.1 := by
  have hlock : PfaTrail ⟨emptyKernel, Holders.none⟩ _ _ :=
    .call (.page .lock 0) .start (inRange_page .lock (by decide))
  have hreserve := hlock.call (.page .reserve 0x1000) (inRange_page .reserve (by decide))
  have hfree := hreserve.call (.page .free 0) (inRange_page .free (by decide))
  have hunreserve := hfree.call (.page .unreserve 0x1000) (inRange_page .unreserve (by decide))
  obtain ⟨hfew, hfews⟩ := hunreserve.few (by decide) emptyKernel_all
  refine ⟨_, _, hunreserve, rfl, (pfaTrail_counts_iff (by decide) emptyKernel_all emptyKernel_counts
    hunreserve).mpr ⟨hfew, fun y hy => ⟨hfews y hy, ?_⟩⟩⟩
  simp only [List.mem_cons, List.not_mem_nil, or_false] at hy
  rcases hy with rfl | rfl | rfl | rfl
  · rintro ⟨-, f, rfl, j, hj, hf⟩
    cases j with
    | locked =>
      obtain ⟨(hf | ⟨-, hf, -⟩) | ⟨hmark, -⟩, -⟩ := hf
      · exact absurd hf (Set.notMem_empty _)
      · cases hf
      · cases hmark
    | reserved => exact absurd rfl hj
  · rintro ⟨-, f, rfl, j, hj, hf⟩
    cases j with
    | locked => exact absurd rfl hj
    | reserved =>
      obtain (hf | ⟨hmark, -⟩) | ⟨-, hf, -⟩ := hf
      · exact absurd hf (Set.notMem_empty _)
      · cases hmark
      · cases hf
  · exact fun hc => by cases hc.1
  · exact fun hc => by cases hc.1

/-- A frame that was reserved is freed: the used memory goes below zero, and no frame is locked. -/
theorem pfaTrail_miscounts : ∃ trail x, PfaTrail ⟨emptyKernel, Holders.none⟩ trail x ∧
    x.holders.held .locked = ∅ ∧
    x.state.pfa.usedMemory = 0xFFFFF000 ∧ ¬ x.Counts ∧
      ∃ y ∈ trail, y.2 = .page .free 0 ∧ 0 ∈ y.1.holders.held .reserved := by
  have hreserve : PfaTrail ⟨emptyKernel, Holders.none⟩ _ _ :=
    .call (.page .reserve 0) .start (inRange_page .reserve (by decide))
  have hfree := hreserve.call (.page .free 0) (inRange_page .free (by decide))
  have hused : ((PfaCall.page .free 0).step
    ((PfaCall.page .reserve 0).step ⟨emptyKernel, Holders.none⟩)).state.pfa.usedMemory =
      0xFFFFF000 := by decide
  have hlocked : ((PfaCall.page .free 0).step
      ((PfaCall.page .reserve 0).step ⟨emptyKernel, Holders.none⟩)).holders.held .locked = ∅ := by
    refine Set.eq_empty_of_forall_notMem ?_
    rintro f ⟨hf | ⟨hmark, -⟩, -⟩
    · exact absurd hf (Set.notMem_empty f)
    · cases hmark
  refine ⟨_, _, hfree, hlocked, hused, fun hcounts => ?_, _, List.mem_cons_self, rfl, ?_⟩
  · have := hcounts .locked
    rw [hlocked, Set.ncard_empty, Pfa.counter, hused] at this
    exact absurd this (by decide)
  · exact Or.inr ⟨rfl, rfl, fun ⟨_, h⟩ => absurd h (Set.notMem_empty _)⟩

end PfaTrail

end PfaCalled

end JurasOS
