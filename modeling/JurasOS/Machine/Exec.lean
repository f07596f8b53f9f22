import Mathlib.Data.Nat.Notation
import Mathlib.Order.Defs.Unbundled

/-!
# Loops and halting computations

Counted loops on a state (`times`), the same with a body that may halt
(`timesM`), and loops that stop only when their body says so (`loopM`), which
take the number of iterations they may make and halt when it is used up.
Computations that may halt are core's `EStateM`: a halted computation keeps the
state it halted in.

For each loop there is a rule that lifts what one iteration does to the whole
loop. `Along R x` says that `x` goes along the relation `R`, however it stops.
-/

namespace JurasOS.Machine

universe u

variable {ε σ α β : Type u}

/-! ### Counted loops -/

/-- `for (i = 0; i < n; i++) body(i)`. -/
def times : ℕ → (ℕ → σ → σ) → σ → σ
  | 0, _, s => s
  | n + 1, body, s => body n (times n body s)

@[simp] theorem times_zero (body : ℕ → σ → σ) (s : σ) : times 0 body s = s := rfl

/-- What one iteration carries from `i` to `i + 1`, the loop carries from `0` to `n`. -/
theorem times_inv {P : ℕ → σ → Prop} {n : ℕ} {body : ℕ → σ → σ} {s : σ} (h0 : P 0 s)
    (hs : ∀ i < n, ∀ t, P i t → P (i + 1) (body i t)) : P n (times n body s) := by
  induction n with
  | zero => exact h0
  | succ n ih => exact hs n (by omega) _ (ih fun i hi => hs i (by omega))

/-! ### Computations that may halt -/

theorem bind_of_ok {x : EStateM ε σ α} {f : α → EStateM ε σ β} {s s' : σ} {a : α} (h : x s = .ok a s') :
    (x >>= f) s = f a s' := by
  show EStateM.bind x f s = f a s'
  rw [EStateM.bind, h]

theorem bind_of_error {x : EStateM ε σ α} {f : α → EStateM ε σ β} {s s' : σ} {e : ε} (h : x s = .error e s') :
    (x >>= f) s = .error e s' := by
  show EStateM.bind x f s = _
  rw [EStateM.bind, h]

/-- A sequence that does not halt is two computations that do not. -/
theorem bind_eq_ok {x : EStateM ε σ α} {f : α → EStateM ε σ β} {s t : σ} {b : β} :
    (x >>= f) s = .ok b t ↔ ∃ a u, x s = .ok a u ∧ f a u = .ok b t := by
  constructor
  · intro h
    cases hx : x s with
    | ok a u => exact ⟨a, u, rfl, by rwa [bind_of_ok hx] at h⟩
    | error e u => rw [bind_of_error hx] at h; cases h
  · rintro ⟨a, u, hx, hf⟩
    rw [bind_of_ok hx, hf]

theorem modify_apply (f : σ → σ) (s : σ) : (modify f : EStateM ε σ PUnit) s = .ok ⟨⟩ (f s) := rfl

theorem get_apply (s : σ) : (get : EStateM ε σ σ) s = .ok s s := rfl

theorem pure_apply (a : α) (s : σ) : (pure a : EStateM ε σ α) s = .ok a s := rfl

/-- The counted loop with a body that may halt. -/
def timesM : ℕ → (ℕ → EStateM ε σ PUnit) → EStateM ε σ PUnit
  | 0, _ => pure ⟨⟩
  | n + 1, body => timesM n body >>= fun _ => body n

theorem timesM_one (body : ℕ → EStateM ε σ PUnit) : timesM 1 body = body 0 :=
  funext fun s => bind_of_ok (pure_apply PUnit.unit s)

/-- If no iteration halts, the loop does not, and carries what they carry. -/
theorem timesM_inv {P : ℕ → σ → Prop} {n : ℕ} {body : ℕ → EStateM ε σ PUnit} {s : σ} (h0 : P 0 s)
    (hs : ∀ i < n, ∀ t, P i t → ∃ t', body i t = .ok ⟨⟩ t' ∧ P (i + 1) t') :
    ∃ t, timesM n body s = .ok ⟨⟩ t ∧ P n t := by
  induction n with
  | zero => exact ⟨s, rfl, h0⟩
  | succ n ih =>
    obtain ⟨t, ht, hP⟩ := ih fun i hi => hs i (by omega)
    obtain ⟨t', ht', hP'⟩ := hs n (by omega) t hP
    exact ⟨t', by rw [timesM, bind_of_ok ht, ht'], hP'⟩

/-- A loop that ended had come to each of its iterations. -/
theorem timesM_ok_of_lt {n i : ℕ} {body : ℕ → EStateM ε σ PUnit} {s t : σ} (h : timesM n body s = .ok ⟨⟩ t)
    (hi : i < n) : ∃ u, timesM i body s = .ok ⟨⟩ u := by
  induction n generalizing t with
  | zero => omega
  | succ n ih =>
    obtain ⟨⟨⟩, u, hrun, -⟩ := bind_eq_ok.mp h
    rcases Nat.lt_or_eq_of_le (Nat.le_of_lt_succ hi) with hlt | rfl
    · exact ih hrun hlt
    · exact ⟨u, hrun⟩

/-- A loop of which only the first iteration does something is that iteration. -/
theorem timesM_first {n : ℕ} {body : ℕ → EStateM ε σ PUnit} (h : ∀ i < n, ∀ t, body (i + 1) t = .ok ⟨⟩ t)
    (s : σ) : timesM (n + 1) body s = body 0 s := by
  induction n with
  | zero => rw [timesM_one]
  | succ n ih =>
    have hfirst := ih fun i hi => h i (by omega)
    rw [timesM]
    cases hrun : body 0 s with
    | ok u t => rw [bind_of_ok (hfirst.trans hrun), h n (by omega)]
    | error e t => rw [bind_of_error (hfirst.trans hrun)]

/-- A loop that goes on as its body says: `.inl a` is another iteration, from `a`, and `.inr b`
ends the loop. It halts with `out` when it may not make another iteration. -/
def loopM (out : ε) (body : α → EStateM ε σ (α ⊕ β)) : ℕ → α → EStateM ε σ β
  | 0, _ => throw out
  | n + 1, a => body a >>= fun
    | .inl a' => loopM out body n a'
    | .inr b => pure b

/-- A loop whose body goes on `k` times and then ends does not halt, if it may make more than `k`
iterations. -/
theorem loopM_inv {P : ℕ → α → σ → Prop} {Q : β → σ → Prop} {out : ε} {body : α → EStateM ε σ (α ⊕ β)} {k : ℕ}
    (hgo : ∀ i < k, ∀ a s, P i a s → ∃ a' s', body a s = .ok (.inl a') s' ∧ P (i + 1) a' s')
    (hend : ∀ a s, P k a s → ∃ b s', body a s = .ok (.inr b) s' ∧ Q b s') :
    ∀ (i fuel : ℕ) {a : α} {s : σ}, i ≤ k → k < i + fuel → P i a s →
      ∃ b s', loopM out body fuel a s = .ok b s' ∧ Q b s'
  | i, 0, _, _, hik, hfuel, _ => by omega
  | i, fuel + 1, a, s, hik, hfuel, hP => by
    rcases Nat.lt_or_eq_of_le hik with hlt | rfl
    · obtain ⟨a', s', hbody, hP'⟩ := hgo i hlt a s hP
      obtain ⟨b, t, ht, hQ⟩ := loopM_inv hgo hend (i + 1) fuel (by omega) (by omega) hP'
      exact ⟨b, t, (bind_of_ok hbody).trans ht, hQ⟩
    · obtain ⟨b, s', hbody, hQ⟩ := hend a s hP
      exact ⟨b, s', bind_of_ok hbody, hQ⟩

/-- A loop that ended ends alike when it may make more iterations. -/
theorem loopM_of_le {out : ε} {body : α → EStateM ε σ (α ⊕ β)} {b : β} {t : σ} :
    ∀ {n k : ℕ} {a : α} {s : σ}, n ≤ k → loopM out body n a s = .ok b t → loopM out body k a s = .ok b t
  | 0, _, _, _, _, h => by cases h
  | _ + 1, 0, _, _, hle, _ => absurd hle (Nat.not_succ_le_zero _)
  | n + 1, k + 1, a, s, hle, h => by
    obtain ⟨x, u, hbody, hrest⟩ := bind_eq_ok.mp h
    refine (bind_of_ok hbody).trans ?_
    cases x with
    | inl a' => exact loopM_of_le (Nat.le_of_succ_le_succ hle) hrest
    | inr b' => exact hrest

/-! ### What a computation does however it stops -/

/-- The state a computation stops in. -/
def stop : EStateM.Result ε σ α → σ
  | .ok _ s => s
  | .error _ s => s

/-- `x` goes along `R`: from a state to a state that `R` relates to it, whether `x` halts or not. -/
def Along (R : σ → σ → Prop) (x : EStateM ε σ α) : Prop := ∀ s, R s (stop (x s))

section Along

variable {R : σ → σ → Prop}

theorem Along.of_ok {x : EStateM ε σ α} (h : Along R x) {s s' : σ} {a : α} (hx : x s = .ok a s') :
    R s s' := by
  have := h s
  rwa [hx] at this

theorem Along.pure [Std.Refl R] (a : α) : Along R (pure a : EStateM ε σ α) := fun s => Std.Refl.refl s

theorem Along.throw [Std.Refl R] (e : ε) : Along R (throw e : EStateM ε σ α) := fun s => Std.Refl.refl s

theorem Along.get [Std.Refl R] : Along R (get : EStateM ε σ σ) := fun s => Std.Refl.refl s

theorem Along.modify {f : σ → σ} (h : ∀ s, R s (f s)) : Along R (modify f : EStateM ε σ PUnit) := h

theorem Along.bind [IsTrans σ R] {x : EStateM ε σ α} {f : α → EStateM ε σ β} (hx : Along R x)
    (hf : ∀ a, Along R (f a)) :
    Along R (x >>= f) := by
  intro s
  have hs := hx s
  cases h : x s with
  | ok a u =>
    rw [h] at hs
    rw [bind_of_ok h]
    exact IsTrans.trans _ _ _ hs (hf a u)
  | error e u =>
    rw [h] at hs
    rw [bind_of_error h]
    exact hs

theorem Along.ite {c : Prop} [Decidable c] {x y : EStateM ε σ α} (hx : Along R x) (hy : Along R y) :
    Along R (if c then x else y) := by
  by_cases h : c
  · rwa [if_pos h]
  · rwa [if_neg h]

theorem Along.timesM_of_lt [Std.Refl R] [IsTrans σ R] {n : ℕ} {body : ℕ → EStateM ε σ PUnit}
    (h : ∀ i < n, Along R (body i)) :
    Along R (timesM n body) := by
  induction n with
  | zero => exact Along.pure _
  | succ n ih => exact (ih fun i hi => h i (by omega)).bind fun _ => h n (by omega)

theorem Along.timesM [Std.Refl R] [IsTrans σ R] {n : ℕ} {body : ℕ → EStateM ε σ PUnit}
    (h : ∀ i, Along R (body i)) :
    Along R (timesM n body) := Along.timesM_of_lt fun i _ => h i

theorem Along.loopM [Std.Refl R] [IsTrans σ R] {out : ε} {body : α → EStateM ε σ (α ⊕ β)}
    (h : ∀ a, Along R (body a)) :
    ∀ (fuel : ℕ) (a : α), Along R (loopM out body fuel a)
  | 0, _ => Along.throw out
  | fuel + 1, a => (h a).bind fun
    | .inl a' => Along.loopM h fuel a'
    | .inr b => Along.pure b

/-- From where a computation stops, what follows it goes on. -/
theorem Along.stop_bind [Std.Refl R] (x : EStateM ε σ α) {f : α → EStateM ε σ β} (hf : ∀ a, Along R (f a))
    (s : σ) :
    R (stop (x s)) (stop ((x >>= f) s)) := by
  cases h : x s with
  | ok a u =>
    rw [bind_of_ok h]
    exact hf a u
  | error e u =>
    rw [bind_of_error h]
    exact Std.Refl.refl u

/-- From where its first iteration stops, a loop goes on. -/
theorem Along.stop_loopM [Std.Refl R] [IsTrans σ R] {out : ε} {body : α → EStateM ε σ (α ⊕ β)}
    (h : ∀ a, Along R (body a)) (fuel : ℕ) (a : α) (s : σ) :
    R (stop (body a s)) (stop (Machine.loopM out body (fuel + 1) a s)) :=
  Along.stop_bind _ (fun
    | .inl a' => Along.loopM h fuel a'
    | .inr b => Along.pure b) s

/-- From where an iteration stops, the rest of the loop goes on. -/
theorem Along.stop_timesM [Std.Refl R] [IsTrans σ R] {n : ℕ} {body : ℕ → EStateM ε σ PUnit}
    (h : ∀ i, Along R (body i)) {i : ℕ} (hi : i < n) {s t : σ} (ht : Machine.timesM i body s = .ok ⟨⟩ t) :
    R (stop (body i t)) (stop (Machine.timesM n body s)) := by
  induction n with
  | zero => omega
  | succ n ih =>
    rcases Nat.lt_or_eq_of_le (Nat.le_of_lt_succ hi) with hlt | rfl
    · exact IsTrans.trans _ _ _ (ih hlt) (Along.stop_bind _ (fun _ => h n) s)
    · rw [Machine.timesM, bind_of_ok ht]
      exact Std.Refl.refl _

end Along

end JurasOS.Machine
