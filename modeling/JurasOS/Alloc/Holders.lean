import Mathlib.Data.Set.Card
import Mathlib.Order.CompletePartialOrder

/-!
# Slots held by several parties

Slots of which each is held by at most one party. A party takes the slots of a
set that nobody holds; slots are released whoever holds them. How many slots a
party has after each is said by what it took or gave up.
-/

namespace JurasOS.Alloc

/-- The slots that each party holds. -/
structure Holders (κ ι : Type*) where
  held : κ → Set ι
  /-- No slot is held by two parties. -/
  unique : ∀ i j k, i ∈ held j → i ∈ held k → j = k

namespace Holders

variable {κ ι : Type*} (h : Holders κ ι) (k : κ) (F : Set ι)

/-- The slots that are held. -/
def all : Set ι := {i | ∃ j, i ∈ h.held j}

/-- The slots that a party other than `k` holds. -/
def others : Set ι := {i | ∃ j, j ≠ k ∧ i ∈ h.held j}

/-- Nobody holds a slot. -/
def none : Holders κ ι := ⟨fun _ => ∅, fun _ _ _ h => absurd h (Set.notMem_empty _)⟩

/-- `k` takes the slots of `F` that nobody holds. -/
def take : Holders κ ι where
  held j := {i | i ∈ h.held j ∨ (j = k ∧ i ∈ F ∧ i ∉ h.all)}
  unique := by
    rintro i j l (hj | ⟨rfl, -, hnew⟩) (hl | ⟨rfl, -, hnew'⟩)
    · exact h.unique i j l hj hl
    · exact absurd ⟨j, hj⟩ hnew'
    · exact absurd ⟨l, hl⟩ hnew
    · rfl

/-- The slots of `F` are released. -/
def release : Holders κ ι where
  held j := h.held j \ F
  unique i j l hj hl := h.unique i j l hj.1 hl.1

theorem all_none : (none : Holders κ ι).all = ∅ := Set.eq_empty_of_forall_notMem fun _ ⟨_, h⟩ => h

theorem held_subset : h.held k ⊆ h.all := fun _ hi => ⟨k, hi⟩

theorem all_take : (h.take k F).all = h.all ∪ F := by
  ext i
  constructor
  · rintro ⟨j, hj | ⟨rfl, hF, -⟩⟩
    · exact Or.inl ⟨j, hj⟩
    · exact Or.inr hF
  · rintro (⟨j, hj⟩ | hF)
    · exact ⟨j, Or.inl hj⟩
    · by_cases hall : i ∈ h.all
      · obtain ⟨j, hj⟩ := hall
        exact ⟨j, Or.inl hj⟩
      · exact ⟨k, Or.inr ⟨rfl, hF, hall⟩⟩

theorem all_release : (h.release F).all = h.all \ F := by
  ext i
  constructor
  · rintro ⟨j, hj, hF⟩
    exact ⟨⟨j, hj⟩, hF⟩
  · rintro ⟨⟨j, hj⟩, hF⟩
    exact ⟨j, hj, hF⟩

theorem held_take_of_ne {j : κ} (hj : j ≠ k) : (h.take k F).held j = h.held j := by
  ext i
  simp [take, hj]

/-- A party keeps what it holds when nobody but `k` holds any of the slots let go. -/
theorem held_release_of_ne {j : κ} (hj : j ≠ k) (hempty : F ∩ h.others k = ∅) :
    (h.release F).held j = h.held j :=
  Set.Subset.antisymm Set.sdiff_subset fun i hi =>
    ⟨hi, fun hF => Set.notMem_empty i (hempty ▸ ⟨hF, j, hj, hi⟩)⟩

/-! ### How many -/

variable {h k F}

/-- What a party has taken. -/
theorem ncard_take (hall : h.all.Finite) (hF : F.Finite) :
    ((h.take k F).held k).ncard = (h.held k).ncard + (F \ h.all).ncard := by
  have hheld : (h.take k F).held k = h.held k ∪ (F \ h.all) := by
    ext i
    simp [take]
  have hdisj : Disjoint (h.held k) (F \ h.all) :=
    Set.disjoint_left.mpr fun i hi hnew => hnew.2 (h.held_subset k hi)
  rw [hheld, Set.ncard_union_eq hdisj (hall.subset (h.held_subset k)) (hF.subset Set.sdiff_subset)]

/-- What a party has given up. -/
theorem ncard_release (hall : h.all.Finite) :
    ((h.release F).held k).ncard + (F ∩ h.held k).ncard = (h.held k).ncard := by
  rw [Set.inter_comm, Nat.add_comm]
  exact Set.ncard_inter_add_ncard_sdiff_eq_ncard _ F (hall.subset (h.held_subset k))

/-- What is released was held by `k`, or by the others. -/
theorem ncard_inter_all (hall : h.all.Finite) :
    (F ∩ h.all).ncard = (F ∩ h.held k).ncard + (F ∩ h.others k).ncard := by
  have hunion : F ∩ h.all = F ∩ h.held k ∪ F ∩ h.others k := by
    ext i
    constructor
    · rintro ⟨hF, j, hj⟩
      by_cases hjk : j = k
      · exact Or.inl ⟨hF, hjk ▸ hj⟩
      · exact Or.inr ⟨hF, j, hjk, hj⟩
    · rintro (⟨hF, hk⟩ | ⟨hF, j, -, hj⟩)
      · exact ⟨hF, k, hk⟩
      · exact ⟨hF, j, hj⟩
  have hdisj : Disjoint (F ∩ h.held k) (F ∩ h.others k) := by
    rw [Set.disjoint_left]
    rintro i ⟨-, hk⟩ ⟨-, j, hjk, hj⟩
    exact hjk (h.unique i j k hj hk)
  have hothers : h.others k ⊆ h.all := fun _ ⟨j, _, hj⟩ => ⟨j, hj⟩
  rw [hunion, Set.ncard_union_eq hdisj (hall.subset (Set.inter_subset_right.trans (h.held_subset k)))
    (hall.subset (Set.inter_subset_right.trans hothers))]

end Holders

end JurasOS.Alloc
