import Mathlib.Data.Set.Card
import Mathlib.Data.Set.Finite.Lattice
import Mathlib.Data.List.Perm.Basic
import Mathlib.Order.CompletePartialOrder

/-!
# Who owns the marked slots

An allocator's bookkeeping, without its representation: a set of marked slots,
the slots that were marked before it started (`base`), and the blocks it has
handed out that are not freed (`live`). `Owns` says that the marks are exactly
the base and the live blocks, and that none of these overlap. Handing out a
block of unmarked slots and freeing a live block keep `Owns`.
-/

namespace JurasOS.Alloc

variable {ι β : Type*}

/-- The marked slots are the base's and the live blocks', each of them once. -/
structure Owns (slots : β → Set ι) (base marked : Set ι) (live : List β) : Prop where
  /-- Live blocks do not overlap. -/
  disjoint : live.Pairwise fun b c => Disjoint (slots b) (slots c)
  /-- No live block has a slot of the base. -/
  apart : ∀ b ∈ live, Disjoint (slots b) base
  /-- Nothing else is marked. -/
  marked_eq : marked = base ∪ ⋃ b ∈ live, slots b

variable {slots : β → Set ι} {base marked : Set ι} {live : List β} {b : β}

theorem Owns.nil : Owns slots base base [] :=
  ⟨List.Pairwise.nil, fun _ h => absurd h List.not_mem_nil, by simp⟩

theorem Owns.base_subset (h : Owns slots base marked live) : base ⊆ marked := by
  rw [h.marked_eq]
  exact Set.subset_union_left

theorem Owns.slots_subset (h : Owns slots base marked live) (hb : b ∈ live) : slots b ⊆ marked := by
  rw [h.marked_eq]
  exact (Set.subset_biUnion_of_mem (u := slots) hb).trans Set.subset_union_right

/-- The order of the live blocks does not matter. -/
theorem Owns.perm {live' : List β} (h : Owns slots base marked live) (hp : live.Perm live') :
    Owns slots base marked live' :=
  ⟨hp.pairwise h.disjoint fun h => h.symm, fun b hb => h.apart b (hp.mem_iff.mpr hb), by
    simp only [h.marked_eq, hp.mem_iff]⟩

/-- **Allocation**: a block of unmarked slots is handed out. -/
theorem Owns.alloc (h : Owns slots base marked live) (hb : Disjoint (slots b) marked) :
    Owns slots base (marked ∪ slots b) (b :: live) := by
  refine ⟨List.pairwise_cons.mpr ⟨fun c hc => hb.mono_right (h.slots_subset hc), h.disjoint⟩, ?_, ?_⟩
  · intro c hc
    rcases List.mem_cons.mp hc with rfl | hc
    · exact hb.mono_right h.base_subset
    · exact h.apart c hc
  · rw [h.marked_eq]
    ext i
    simp only [Set.mem_union, Set.mem_iUnion, List.mem_cons, exists_prop, exists_eq_or_imp]
    rw [or_assoc, or_comm (b := i ∈ slots b)]

/-- **Free**: the last block handed out is given back. -/
theorem Owns.tail (h : Owns slots base marked (b :: live)) : Owns slots base (marked \ slots b) live := by
  obtain ⟨hhead, htail⟩ := List.pairwise_cons.mp h.disjoint
  refine ⟨htail, fun c hc => h.apart c (List.mem_cons_of_mem b hc), ?_⟩
  have hbase := Set.disjoint_left.mp (h.apart b List.mem_cons_self)
  rw [h.marked_eq]
  ext i
  simp only [Set.mem_sdiff, Set.mem_union, Set.mem_iUnion, List.mem_cons, exists_prop, exists_eq_or_imp]
  constructor
  · rintro ⟨hi | hi | hi, hnot⟩
    · exact Or.inl hi
    · exact absurd hi hnot
    · exact Or.inr hi
  · rintro (hi | ⟨c, hc, hi⟩)
    · exact ⟨Or.inl hi, fun hib => hbase hib hi⟩
    · exact ⟨Or.inr (Or.inr ⟨c, hc, hi⟩), fun hib => Set.disjoint_left.mp (hhead c hc) hib hi⟩

/-- **Free**: any live block is given back. -/
theorem Owns.free [DecidableEq β] (h : Owns slots base marked live) (hb : b ∈ live) :
    Owns slots base (marked \ slots b) (live.erase b) :=
  (h.perm (List.perm_cons_erase hb)).tail

/-- The live blocks have as many slots together as they have one by one. -/
theorem Owns.sum_ncard (h : Owns slots base marked live) (hfin : ∀ b ∈ live, (slots b).Finite) :
    (live.map fun b => (slots b).ncard).sum = (⋃ b ∈ live, slots b).ncard := by
  have hpair := h.disjoint
  clear h
  induction live with
  | nil => simp
  | cons b live ih =>
    obtain ⟨hhead, htail⟩ := List.pairwise_cons.mp hpair
    have hunion : (⋃ c ∈ b :: live, slots c) = slots b ∪ ⋃ c ∈ live, slots c := by
      ext i
      simp
    have hrest : (⋃ c ∈ live, slots c).Finite :=
      Set.Finite.biUnion live.finite_toSet fun c hc => hfin c (List.mem_cons_of_mem b hc)
    rw [hunion, Set.ncard_union_eq (Set.disjoint_iUnion₂_right.mpr hhead) (hfin b List.mem_cons_self) hrest,
      List.map_cons, List.sum_cons, ih (fun c hc => hfin c (List.mem_cons_of_mem b hc)) htail]

/-- Live blocks that lie in a finite set have no more slots than it. -/
theorem Owns.sum_ncard_le (h : Owns slots base marked live) {s : Set ι} (hs : s.Finite)
    (hsub : ∀ b ∈ live, slots b ⊆ s) : (live.map fun b => (slots b).ncard).sum ≤ s.ncard := by
  rw [h.sum_ncard fun b hb => hs.subset (hsub b hb)]
  exact Set.ncard_le_ncard (Set.iUnion₂_subset hsub) hs

end JurasOS.Alloc
