import JurasOS.Paging.Counters

/-!
# Laws of locking and reserving

Two operations on runs of pages, one after the other: an operation and the one
that takes it back, an operation made twice, and two runs in either order. An
operation is determined by the frames that it marks (`Tallied.unique`), and two
runs mark the frames of both, so what holds of sets of frames holds of the states:
of the whole memory and of the counters, however the runs overlap.
-/

namespace JurasOS

open Machine

section Tallied

variable {value : Bool} {count : Pfa → Pfa} {F : Set ℕ} {s t u : Kernel}

/-- A state is known from its bits, when it has the bitmap and the other bytes of another. -/
theorem Kernel.mem_eq_of_taken (hbitmap : t.pfa.pageBitmap = s.pfa.pageBitmap)
    (htaken : ∀ f < 2 ^ 32, t.taken f = s.taken f)
    (hmem : Set.EqOn t.mem s.mem (s.pfa.pageBitmap.bytes F)ᶜ) : t.mem = s.mem := by
  refine Bitmap.mem_eq_of_bits (fun f hf => ?_) hmem
  have hbit := htaken f hf
  rwa [Kernel.taken, Kernel.taken, hbitmap] at hbit

/-- What is marked determines the memory. -/
theorem Marks.mem_unique (ht : Marks value F s t) (hu : Marks value F s u) : t.mem = u.mem := by
  have hbitmap := ht.bitmap.trans hu.bitmap.symm
  refine Kernel.mem_eq_of_taken (F := F) hbitmap (fun f hf => ?_) ?_
  · by_cases hF : f ∈ F
    · rw [ht.inside f hF hf, hu.inside f hF hf]
    · rw [ht.outside f hF hf, hu.outside f hF hf]
  · rw [hu.bitmap]
    exact ht.mem.trans hu.mem.symm

/-- **What is marked and counted determines the state.** -/
theorem Tallied.unique (ht : Tallied value count F s t) (hu : Tallied value count F s u) : t = u := by
  have hmem := ht.marks.mem_unique hu.marks
  have hpfa := ht.tally.trans hu.tally.symm
  rw [ht.marks.same, hu.marks.same, hmem, hpfa]

/-- Marking clear frames and clearing them again leaves the memory as it was. -/
theorem Marks.mem_restored (h : Marks true F s t) (h' : Marks false F t u)
    (hclear : ∀ f ∈ F, s.taken f = false) : u.mem = s.mem := by
  refine Kernel.mem_eq_of_taken (F := F) (h'.bitmap.trans h.bitmap) (fun f hf => ?_) ?_
  · by_cases hF : f ∈ F
    · rw [h'.inside f hF hf, hclear f hF]
    · rw [h'.outside f hF hf, h.outside f hF hf]
  · have hmem := h'.mem
    rw [h.bitmap] at hmem
    exact hmem.trans h.mem

end Tallied

/-- The operation that takes another one back. -/
def PageOp.undo : PageOp → PageOp
  | .free => .lock
  | .lock => .free
  | .unreserve => .reserve
  | .reserve => .unreserve

section PageOp

variable (op : PageOp) (s : Kernel)

theorem PageOp.undo_value : op.undo.value = !op.value := by cases op <;> rfl

/-- Taking an operation back moves the counters back. -/
theorem PageOp.undo_moved (n : ℕ) (pfa : Pfa) : op.undo.moved n (op.moved n pfa) = pfa := by
  have hfree : op.undo.freeChange = -op.freeChange := by cases op <;> rfl
  have hused : op.undo.usedChange = -op.usedChange := by cases op <;> rfl
  have hreserved : op.undo.reservedChange = -op.reservedChange := by cases op <;> rfl
  simp [PageOp.moved, hfree, hused, hreserved]

/-- **Taking an operation back restores the state**, when all its frames were clear. -/
theorem PageOp.undo_pages (hvalue : op.value = true) {address pageCount : UInt32}
    (hclear : ∀ f ∈ frames address pageCount, s.taken f = false) :
    op.undo.pages address pageCount (op.pages address pageCount s) = s := by
  obtain ⟨t, ht⟩ : ∃ t, t = op.pages address pageCount s := ⟨_, rfl⟩
  have hmark := op.pages_tallied address pageCount s
  have hback := op.undo.pages_tallied address pageCount t
  rw [← ht, hvalue] at hmark
  rw [op.undo_value, hvalue, Bool.not_true] at hback
  rw [← ht]
  have hmem := hmark.marks.mem_restored hback.marks hclear
  -- both count the frames of the run, each once
  have hmarked : {f ∈ frames address pageCount | s.taken f ≠ true} = frames address pageCount := by
    ext f
    simp only [Set.mem_ofPred_eq, and_iff_left_iff_imp]
    intro hf
    rw [hclear f hf]
    exact Bool.false_ne_true
  have hcleared : {f ∈ frames address pageCount | t.taken f ≠ false} = frames address pageCount := by
    ext f
    simp only [Set.mem_ofPred_eq, and_iff_left_iff_imp]
    intro hf
    have hlt := frames_lt hf
    rw [hmark.marks.inside f hf (by omega)]
    exact Bool.noConfusion
  have hpfa : (op.undo.pages address pageCount t).pfa = s.pfa := by
    rw [hback.tally, hcleared, hmark.tally, hmarked, PageOp.moved_iterate, PageOp.moved_iterate,
      op.undo_moved]
  rw [hback.marks.same, hmem, hpfa, hmark.marks.same]

/-- An operation made twice is the operation. -/
theorem PageOp.pages_pages (address pageCount : UInt32) :
    op.pages address pageCount (op.pages address pageCount s) = op.pages address pageCount s := by
  have honce := op.pages_tallied address pageCount s
  have htwice := honce.trans (op.pages_tallied address pageCount (op.pages address pageCount s))
  rw [Set.union_self] at htwice
  exact htwice.unique honce

/-- The order of two runs does not matter. -/
theorem PageOp.pages_comm (address pageCount address' pageCount' : UInt32) :
    op.pages address' pageCount' (op.pages address pageCount s) =
      op.pages address pageCount (op.pages address' pageCount' s) := by
  have hfirst := (op.pages_tallied address pageCount s).trans (op.pages_tallied address' pageCount' _)
  have hsecond := (op.pages_tallied address' pageCount' s).trans (op.pages_tallied address pageCount _)
  rw [Set.union_comm] at hsecond
  exact hfirst.unique hsecond

end PageOp

/-- **The laws of locking and reserving pages.** Freeing takes back locking, and unreserving takes back
reserving, when the frames are in the bitmap and clear; locking twice is locking; and two runs of pages,
that may overlap, are locked in either order. -/
theorem pfaPages_laws (s : Kernel) (address pageCount : UInt32) :
    ((∀ f ∈ frames address pageCount, f < s.pfa.pageBitmap.length ∧ s.taken f = false) →
        pfaFreePages address pageCount (pfaLockPages address pageCount s) = s ∧
        pfaUnreservePages address pageCount (pfaReservePages address pageCount s) = s) ∧
      pfaLockPages address pageCount (pfaLockPages address pageCount s) = pfaLockPages address pageCount s ∧
      ∀ address' pageCount' : UInt32,
        pfaLockPages address' pageCount' (pfaLockPages address pageCount s) =
          pfaLockPages address pageCount (pfaLockPages address' pageCount' s) := by
  refine ⟨fun hclear => ?_, PageOp.lock.pages_pages s address pageCount,
    PageOp.lock.pages_comm s address pageCount⟩
  have hfalse : ∀ f ∈ frames address pageCount, s.taken f = false := fun f hf => (hclear f hf).2
  exact ⟨PageOp.lock.undo_pages s rfl hfalse, PageOp.reserve.undo_pages s rfl hfalse⟩

/-- Three pages from the middle of a page on, in a bitmap of eight frames. -/
theorem pfaPages_laws_unaligned :
    let s : Kernel := { Kernel.loaded with pfa := ⟨⟨1, 0x100000⟩, 0, 0, 0, false⟩ }
    pfaFreePages 0x1234 3 (pfaLockPages 0x1234 3 s) = s := by
  intro s
  refine ((pfaPages_laws s 0x1234 3).1 fun f hf => ⟨?_, Bitmap.bits_of_zero rfl⟩).1
  rw [frames_eq (by decide)] at hf
  exact lt_of_lt_of_le hf.2 (by decide)

end JurasOS
