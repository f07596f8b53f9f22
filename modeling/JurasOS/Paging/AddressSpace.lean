import JurasOS.Paging.Tables
import Mathlib.Logic.Function.Basic

/-!
# What the page tables are for

An address space is a partial map from pages to mappings, in which the first
mapping of a page wins. `Holds A s tables` says that the tables in the memory of
`s` hold `A`: the entry of each page is that of its mapping, or zero. A call of
`ptm_map_addr` refines `AddressSpace.map`, so a run of calls refines a run of maps,
and the processor's walk translates an address as the address space says.
-/

namespace JurasOS

open Machine

/-- A mapping of a page. -/
structure Mapping where
  phys : UInt32
  isKernel : Bool
  isWritable : Bool
  /-- The physical page. -/
  aligned : phys.toNat % 4096 = 0

/-- The flags Present, RW and US of a mapping. -/
def Mapping.flags (p : Mapping) : UInt32 :=
  1 + (if p.isWritable then 2 else 0) + (if p.isKernel then 0 else 4)

/-- The table entry of a page: the frame and the flags of its mapping, or not present. -/
def entryOf : Option Mapping → UInt32
  | none => 0
  | some p => p.phys + p.flags

/-- A partial map from page numbers. -/
abbrev AddressSpace := ℕ → Option Mapping

/-- Map a page, unless it is mapped. -/
def AddressSpace.map (A : AddressSpace) (page : ℕ) (p : Mapping) : AddressSpace :=
  Function.update A page (A page <|> some p)

/-- Map the pages of some addresses, one after the other. -/
def AddressSpace.mapAll (A : AddressSpace) (calls : List (UInt32 × Mapping)) : AddressSpace :=
  calls.foldl (fun A c => A.map (c.1.toNat / 4096) c.2) A

/-- The pages below `n`, each mapped to itself, for the kernel and writable. -/
def identity (n : ℕ) : AddressSpace := fun q =>
  if q < n then
    some ⟨UInt32.ofNat (q * 4096), true, true, by
      rw [UInt32.toNat_ofNat']
      omega⟩
  else none

theorem AddressSpace.map_of_ne {A : AddressSpace} {page q : ℕ} (h : q ≠ page) (p : Mapping) :
    A.map page p q = A q :=
  Function.update_of_ne h ..

theorem AddressSpace.map_self (A : AddressSpace) (page : ℕ) (p : Mapping) :
    A.map page p page = (A page <|> some p) :=
  Function.update_self ..

theorem Mapping.flags_lt (p : Mapping) : p.flags.toNat < 4096 := by
  rw [Mapping.flags]
  cases p.isWritable <;> cases p.isKernel <;> decide

theorem Mapping.flags_present (p : Mapping) : p.flags &&& 1 = 1 := by
  rw [Mapping.flags]
  cases p.isWritable <;> cases p.isKernel <;> decide

theorem entryOf_some_ne_zero (p : Mapping) : entryOf (some p) ≠ 0 := by
  intro h
  have := present_of_low p.aligned p.flags_lt
  rw [p.flags_present, show p.phys + p.flags = 0 from h] at this
  exact absurd this (by decide)

theorem pteOf_eq_entryOf (p : Mapping) : pteOf p.phys p.isKernel p.isWritable = entryOf (some p) :=
  pteOf_eq p.aligned _ _

/-! ### The tables hold an address space -/

/-- The tables in the memory of `s` hold `A`. -/
structure Holds (A : AddressSpace) (s : Kernel) (tables : UInt32) : Prop where
  inPlace : PageTables s.mem s.pd tables
  entry : ∀ q < 2 ^ 20, s.mem.load32 (pteAddr tables q) = entryOf (A q)

theorem Holds.congr {A : AddressSpace} {s s' : Kernel} {tables : UInt32} (h : Holds A s tables)
    (hmem : s'.mem = s.mem) (hpd : s'.pd = s.pd) : Holds A s' tables :=
  ⟨by rw [hmem, hpd]; exact h.inPlace, by rw [hmem]; exact h.entry⟩

/-- **A call of `ptm_map_addr` maps a page**, unless it is mapped, and does not abort. -/
theorem Holds.ptmMapAddr {A : AddressSpace} {s : Kernel} {tables : UInt32} (h : Holds A s tables)
    (addr : UInt32) (p : Mapping) : ∃ s', ptmMapAddr addr p.phys p.isKernel p.isWritable s = .ok ⟨⟩ s' ∧
      Holds (A.map (addr.toNat / 4096) p) s' tables ∧ MapFrame tables s s' := by
  obtain ⟨s', hs', hin, hframe, hload⟩ := h.inPlace.ptmMapAddr_ok addr p.phys p.isKernel p.isWritable
  refine ⟨s', hs', ⟨hin, fun j hj => ?_⟩, hframe⟩
  rw [hload j hj, h.entry _ (page_lt addr), h.entry j hj, pteOf_eq_entryOf]
  by_cases hjq : j = addr.toNat / 4096
  · subst hjq
    rw [AddressSpace.map_self]
    cases hA : A (addr.toNat / 4096) with
    | none => simp [entryOf]
    | some p' => simp [entryOf_some_ne_zero p']
  · rw [if_neg fun h => hjq h.1, AddressSpace.map_of_ne hjq]

/-- `ptm_map_addr` on each of some addresses. -/
def ptmMapAll : List (UInt32 × Mapping) → KernelM PUnit
  | [] => pure ⟨⟩
  | (addr, p) :: calls => ptmMapAddr addr p.phys p.isKernel p.isWritable >>= fun _ => ptmMapAll calls

/-- **A run of calls is a run of maps.** -/
theorem Holds.ptmMapAll {tables : UInt32} : ∀ {A : AddressSpace} {s : Kernel}, Holds A s tables →
    ∀ calls : List (UInt32 × Mapping), ∃ s', ptmMapAll calls s = .ok ⟨⟩ s' ∧
      Holds (A.mapAll calls) s' tables ∧ MapFrame tables s s'
  | A, s, h, [] => ⟨s, rfl, h, MapFrame.refl tables s⟩
  | A, s, h, (addr, p) :: calls => by
    obtain ⟨t, ht, hA, hst⟩ := h.ptmMapAddr addr p
    obtain ⟨u, hu, hA', htu⟩ := Holds.ptmMapAll hA calls
    exact ⟨u, (bind_of_ok ht).trans hu, hA', hst.trans htu⟩

/-! ### What the processor makes of it -/

/-- A right that the frame does not reach into is granted by an entry if its flags grant it. -/
theorem and_right {p q c d b : UInt32} (hp : p.toNat % 4096 = 0) (hq : q.toNat % 4096 = 0)
    (hc : c.toNat < 4096) (hd : d.toNat < 4096) (hb : b.toNat < 4096) :
    ((p + c) &&& (q + d)) &&& b = (c &&& d) &&& b := by
  rw [UInt32.and_assoc, and_of_low hq hd hb, UInt32.and_comm d, ← UInt32.and_assoc, and_of_low hp hc hb,
    UInt32.and_assoc, UInt32.and_comm b, ← UInt32.and_assoc]

theorem Mapping.flags_writable (p : Mapping) : ((3 &&& p.flags) &&& 2 ≠ 0) = p.isWritable := by
  rw [Mapping.flags]
  cases p.isKernel <;> cases p.isWritable <;> decide

theorem Mapping.flags_user (p : Mapping) : (3 &&& p.flags) &&& 4 = 0 := by
  rw [Mapping.flags]
  cases p.isKernel <;> cases p.isWritable <;> decide

/-- The processor makes of the entry of a mapping what the mapping says, but the directory grants nothing to
the user. -/
theorem PageTables.translate_entry {m : Mem} {pd tables : UInt32} (h : PageTables m pd tables) {v : UInt32}
    (p : Mapping) (hentry : m.load32 (pteAddr tables (v.toNat / 4096)) = entryOf (some p)) :
    translate m (pd + 4096) v = some ⟨p.phys + (v &&& 0xFFF), p.isWritable, false⟩ := by
  have hlt := v.toNat_lt
  have htable : v.toNat / 2 ^ 22 < 1024 := by omega
  have hpresent : ¬ (p.phys + p.flags) &&& 1 = 0 := by
    rw [present_of_low p.aligned p.flags_lt, p.flags_present]
    decide
  have hright : ∀ b : UInt32, b.toNat < 4096 →
      ((tableAt tables (v.toNat / 2 ^ 22) + 3) &&& (p.phys + p.flags)) &&& b = (3 &&& p.flags) &&& b :=
    fun b hb => and_right (h.tableAt_aligned htable) p.aligned (by decide) p.flags_lt hb
  simp only [JurasOS.translate, h.walkEntry, h.walkDirectory, hentry, entryOf, hpresent, if_false, and_page,
    page_add_low p.aligned p.flags_lt, hright 2 (by decide), hright 4 (by decide), p.flags_writable,
    p.flags_user, ne_eq, not_true_eq_false, decide_false, Bool.decide_eq_true]

/-- **The processor translates as the address space says.** -/
theorem Holds.translate {A : AddressSpace} {s : Kernel} {tables : UInt32} (h : Holds A s tables)
    (v : UInt32) :
    translate s.mem (s.pd + 4096) v =
      (A (v.toNat / 4096)).map fun p => ⟨p.phys + (v &&& 0xFFF), p.isWritable, false⟩ := by
  have hentry := h.entry _ (page_lt v)
  cases hA : A (v.toNat / 4096) with
  | none =>
    rw [hA] at hentry
    simp only [JurasOS.translate, h.inPlace.walkEntry, hentry]
    rfl
  | some p =>
    rw [hA] at hentry
    exact h.inPlace.translate_entry p hentry

/-- The walk of the directory finds the entry of the page. -/
theorem Holds.walkEntry {A : AddressSpace} {s : Kernel} {tables : UInt32} (h : Holds A s tables)
    (hcr3 : s.cr3 = s.pd + 4096) (v : UInt32) :
    walkEntry s.mem s.cr3 v = some (entryOf (A (v.toNat / 4096))) := by
  rw [hcr3, h.inPlace.walkEntry, h.entry _ (page_lt v)]

/-- The pages of the identity go to themselves. -/
theorem identity_phys {n : ℕ} {v : UInt32} (h : v.toNat / 4096 < n) :
    ∃ p, identity n (v.toNat / 4096) = some p ∧ p.isKernel = true ∧ p.isWritable = true ∧
    p.phys + (v &&& 0xFFF) = v := by
  have hlt := v.toNat_lt
  refine ⟨_, if_pos h, rfl, rfl, ?_⟩
  have hlow : (v &&& 0xFFF).toNat = v.toNat % 4096 := toNat_and_low v 12 (by decide)
  rw [← UInt32.toNat_inj, UInt32.toNat_add, UInt32.toNat_ofNat', hlow]
  omega

end JurasOS
