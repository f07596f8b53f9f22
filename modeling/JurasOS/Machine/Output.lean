import JurasOS.Machine.Exec
import Mathlib.Data.List.Nodup

/-!
# Computations that put something out

`out` lists what was put out up to a state, the latest first. The invariant `I` of a
run knows what the run has put out: `Outputs I out before x a l` says that from the
states of `I before` the computation `x` does not halt, returns `a`, and puts out `l`,
which leads to a state of `I (before ++ l)`. A loop puts out what its iterations put
out, one after another: a list of all that was put out is a `flatMap` over the
iterations, and has no item twice if the items say which iteration they come from.
The outputs of two sources are interleaved: each keeps its order.
-/

namespace JurasOS.Machine

universe u

variable {ε σ α β ω : Type u}

/-- From a state of `I before`, `x` returns `a` and puts out `l`, and leads to a state of `I (before ++ l)`. -/
def Outputs (I : List ω → σ → Prop) (out : σ → List ω) (before : List ω) (x : EStateM ε σ α) (a : α)
    (l : List ω) : Prop :=
  ∀ s, I before s → ∃ t, x s = .ok a t ∧ I (before ++ l) t ∧ out t = l.reverse ++ out s

section Outputs

variable {I : List ω → σ → Prop} {out : σ → List ω} {before : List ω} {a : α} {b : β} {l l' : List ω}

theorem Outputs.pure (a : α) : Outputs I out before (pure a : EStateM ε σ α) a [] :=
  fun s hs => ⟨s, rfl, by rwa [List.append_nil], rfl⟩

theorem Outputs.bind {x : EStateM ε σ α} {f : α → EStateM ε σ β} (hx : Outputs I out before x a l)
    (hf : Outputs I out (before ++ l) (f a) b l') :
    Outputs I out before (x >>= f) b (l ++ l') := by
  intro s hs
  obtain ⟨t, hrun, ht, hout⟩ := hx s hs
  obtain ⟨u, hrun', hu, hout'⟩ := hf t ht
  refine ⟨u, by rw [bind_of_ok hrun, hrun'], by rwa [← List.append_assoc], ?_⟩
  rw [hout', hout, List.reverse_append, List.append_assoc]

/-- What the first iterations put out is a prefix of what all put out. -/
theorem prefix_flatMap_range {i n : ℕ} (hi : i < n) (before : List ω) (l : ℕ → List ω) :
    before ++ (List.range i).flatMap l ++ l i <+: before ++ (List.range n).flatMap l := by
  obtain ⟨k, rfl⟩ := Nat.exists_eq_add_of_lt hi
  rw [List.append_assoc, ← List.flatMap_singleton l i, ← List.flatMap_append, ← List.range_succ,
    Nat.add_right_comm, List.range_add, List.flatMap_append, ← List.append_assoc]
  exact List.prefix_append _ _

/-- The counted loop. -/
theorem Outputs.timesM {n : ℕ} {body : ℕ → EStateM ε σ PUnit} {l : ℕ → List ω}
    (h : ∀ i < n, Outputs I out (before ++ (List.range i).flatMap l) (body i) ⟨⟩ (l i)) :
    Outputs I out before (timesM n body) ⟨⟩ ((List.range n).flatMap l) := by
  induction n with
  | zero => exact Outputs.pure _
  | succ n ih =>
    rw [List.range_succ, List.flatMap_append, List.flatMap_singleton]
    exact (ih fun i hi => h i (by omega)).bind (h n (by omega))

/-- The loop that goes on `k` times, and puts out `l'` when it ends. -/
theorem Outputs.loopM_last {limit : ε} {body : α → EStateM ε σ (α ⊕ β)} {k fuel : ℕ} {a : ℕ → α}
    {l : ℕ → List ω}
    (hgo : ∀ i < k, Outputs I out (before ++ (List.range i).flatMap l) (body (a i)) (.inl (a (i + 1))) (l i))
    (hend : Outputs I out (before ++ (List.range k).flatMap l) (body (a k)) (.inr b) l') (hfuel : k < fuel) :
    Outputs I out before (loopM limit body fuel (a 0)) b ((List.range k).flatMap l ++ l') := by
  induction k generalizing a l fuel before with
  | zero =>
    obtain ⟨fuel, rfl⟩ : ∃ n, fuel = n + 1 := ⟨fuel - 1, by omega⟩
    rw [List.range_zero, List.flatMap_nil, List.append_nil] at hend
    rw [Machine.loopM, List.range_zero, List.flatMap_nil, List.nil_append, ← List.append_nil l']
    exact hend.bind (Outputs.pure b)
  | succ k ih =>
    obtain ⟨fuel, rfl⟩ : ∃ n, fuel = n + 1 := ⟨fuel - 1, by omega⟩
    have hshift : ∀ i, before ++ (List.range (i + 1)).flatMap l =
        before ++ l 0 ++ (List.range i).flatMap fun i => l (i + 1) := by
      intro i
      rw [List.range_succ_eq_map, List.flatMap_cons, List.flatMap_map, List.append_assoc]
    have hfirst := hgo 0 (by omega)
    rw [List.range_zero, List.flatMap_nil, List.append_nil] at hfirst
    rw [List.range_succ_eq_map, List.flatMap_cons, List.flatMap_map, List.append_assoc]
    refine hfirst.bind (ih (a := fun i => a (i + 1)) (fun i hi => ?_) ?_ (by omega))
    · rw [← hshift]
      exact hgo (i + 1) (by omega)
    · rw [← hshift]
      exact hend

/-- The loop that goes on `k` times and then ends. -/
theorem Outputs.loopM {limit : ε} {body : α → EStateM ε σ (α ⊕ β)} {k fuel : ℕ} {a : ℕ → α} {l : ℕ → List ω}
    (hgo : ∀ i < k, Outputs I out (before ++ (List.range i).flatMap l) (body (a i)) (.inl (a (i + 1))) (l i))
    (hend : Outputs I out (before ++ (List.range k).flatMap l) (body (a k)) (.inr b) []) (hfuel : k < fuel) :
    Outputs I out before (loopM limit body fuel (a 0)) b ((List.range k).flatMap l) := by
  rw [← List.append_nil ((List.range k).flatMap l)]
  exact Outputs.loopM_last hgo hend hfuel

/-- A counted loop of which every iteration puts out one item has put out those of its first `k` iterations
where it stops: all of them, if it does not halt, and one at least, if there are any. -/
theorem stop_timesM_out {n : ℕ} {body : ℕ → EStateM ε σ PUnit} (item : ℕ → ω)
    (h : ∀ i s, out (stop (body i s)) = item i :: out s) (s : σ) :
    ∃ k ≤ n, (0 < n → 0 < k) ∧ (∀ t, timesM n body s = .ok ⟨⟩ t → k = n) ∧
      out (stop (timesM n body s)) = ((List.range k).map item).reverse ++ out s := by
  induction n with
  | zero => exact ⟨0, Nat.le_refl 0, id, fun _ _ => rfl, rfl⟩
  | succ n ih =>
    obtain ⟨k, hk, hpos, hok, hout⟩ := ih
    cases hrun : Machine.timesM n body s with
    | ok u t =>
      rw [hok t hrun, hrun] at hout
      refine ⟨n + 1, Nat.le_refl _, fun _ => Nat.succ_pos n, fun _ _ => rfl, ?_⟩
      rw [Machine.timesM, bind_of_ok hrun, h n t, List.range_succ, List.map_append, List.reverse_append]
      exact congrArg (item n :: ·) hout
    | error e t =>
      have hn : 0 < n := by
        rw [Nat.pos_iff_ne_zero]
        rintro rfl
        cases hrun
      rw [hrun] at hout
      refine ⟨k, by omega, fun _ => hpos hn, fun t' hrun' => ?_, ?_⟩
      · rw [Machine.timesM, bind_of_error hrun] at hrun'
        cases hrun'
      · rw [Machine.timesM, bind_of_error hrun]
        exact hout

end Outputs

/-- Lists put one after another have no item twice, if each item of one says which one it is of. -/
theorem nodup_flatMap_of_key {α β : Type u} {l : List α} {f : α → List β} (key : β → α) (hl : l.Nodup)
    (hf : ∀ a ∈ l, (f a).Nodup) (hkey : ∀ a ∈ l, ∀ b ∈ f a, key b = a) : (l.flatMap f).Nodup := by
  refine List.nodup_flatMap.mpr ⟨hf, hl.imp_of_mem fun ha ha' hne => ?_⟩
  refine List.disjoint_left.mpr fun b hb hb' => ?_
  exact hne ((hkey _ ha b hb).symm.trans (hkey _ ha' b hb'))

/-! ### Two outputs -/

/-- `Interleave xs ys zs`: `zs` is an interleaving of `xs` and `ys`, each in order. -/
inductive Interleave {α : Type*} : List α → List α → List α → Prop where
  | nil : Interleave [] [] []
  | left {xs ys zs : List α} (x : α) : Interleave xs ys zs → Interleave (xs ++ [x]) ys (zs ++ [x])
  | right {xs ys zs : List α} (y : α) : Interleave xs ys zs → Interleave xs (ys ++ [y]) (zs ++ [y])

theorem Interleave.mem {α : Type*} {xs ys zs : List α} (h : Interleave xs ys zs) {z : α} (hz : z ∈ zs) :
    z ∈ xs ∨ z ∈ ys := by
  induction h with
  | nil => exact absurd hz List.not_mem_nil
  | left x _ ih =>
    rcases List.mem_append.mp hz with hz | hz
    · exact (ih hz).imp_left (List.mem_append_left _)
    · exact Or.inl (List.mem_append_right _ hz)
  | right y _ ih =>
    rcases List.mem_append.mp hz with hz | hz
    · exact (ih hz).imp_right (List.mem_append_left _)
    · exact Or.inr (List.mem_append_right _ hz)

end JurasOS.Machine
