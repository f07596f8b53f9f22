import JurasOS.Paging.Frames

/-!
# `page_table_manager.c`: mapping a page, and what the processor makes of it

`ptmMapAddr` is `ptm_map_addr`. `walkEntry` and `translate` are the i386's walk
of a directory and its tables. The directory and the 1024 tables lie in the same
memory as everything else; `PageTables` says where, and that both copies of the
directory point at the tables. The tables are consecutive, so their entries form
one array of words, one for each page of the address space.
-/

namespace JurasOS

open Machine

/-- The entry that `ptm_map_addr` makes. -/
def pteOf (physAddr : UInt32) (isKernel isWritable : Bool) : UInt32 :=
  physAddr ||| 0x01 ||| (if isWritable then 0x03 else 0x0) ||| (if isKernel then 0x0 else 0x05)

/-- The end of `ptm_map_addr`: an entry that is there stays as it is. -/
def ptmWriteEntry (entry pte : UInt32) (s : Kernel) : Kernel :=
  if s.mem.load32 entry = 0 then { s.emit (.pteWrite entry) with mem := s.mem.store32 entry pte } else s

/-- `ptm_map_addr`. A missing table aborts. -/
def ptmMapAddr (addr physAddr : UInt32) (isKernel isWritable : Bool) : KernelM PUnit := fun s =>
  let s := s.emit (.mapAddr s.pd addr)
  let pdeIndex := addr >>> 22
  let pde := s.mem.load32 (s.pd + 4 * pdeIndex)
  if pde = 0 then .error .abort s
  else
    let pageTable := (pde >>> 12) <<< 12
    let pteIndex := (addr >>> 12) &&& 0x03FF
    .ok ⟨⟩ (ptmWriteEntry (pageTable + 4 * pteIndex) (pteOf physAddr isKernel isWritable) s)

/-! ### The walk of the processor -/

/-- The directory entry for `v`, of the directory that CR3 points at. -/
def walkDirectory (m : Mem) (cr3 v : UInt32) : UInt32 :=
  let index := v >>> 22
  m.load32 ((cr3 &&& 0xFFFFF000) + 4 * index)

/-- The table entry for `v`, if its table is present. -/
def walkEntry (m : Mem) (cr3 v : UInt32) : Option UInt32 :=
  let pde := walkDirectory m cr3 v
  let index := (v >>> 12) &&& 0x3FF
  if pde &&& 1 = 0 then none else some (m.load32 ((pde &&& 0xFFFFF000) + 4 * index))

/-- What an access goes to: a physical address, and the rights, which both levels must grant. -/
structure Access where
  phys : UInt32
  writable : Bool
  user : Bool
  deriving DecidableEq

/-- The translation of `v`, if both levels are present. -/
def translate (m : Mem) (cr3 v : UInt32) : Option Access :=
  match walkEntry m cr3 v with
  | none => none
  | some pte =>
    if pte &&& 1 = 0 then none
    else
      let both := walkDirectory m cr3 v &&& pte
      some ⟨(pte &&& 0xFFFFF000) + (v &&& 0xFFF), both &&& 2 ≠ 0, both &&& 4 ≠ 0⟩

/-! ### Arithmetic of entries -/

theorem or_low {p c : UInt32} (hp : p.toNat % 4096 = 0) (hc : c.toNat < 4096) : p ||| c = p + c := by
  have hlt := p.toNat_lt
  rw [← UInt32.toNat_inj, UInt32.toNat_or, UInt32.toNat_add, Nat.mod_eq_of_lt (by omega),
    show p.toNat = 2 ^ 12 * (p.toNat / 4096) by omega, Nat.two_pow_add_eq_or_of_lt (by omega)]

/-- The flags do not run into the frame. -/
theorem pteOf_eq {p : UInt32} (hp : p.toNat % 4096 = 0) (isKernel isWritable : Bool) :
    pteOf p isKernel isWritable = p + (1 + (if isWritable then 2 else 0) + (if isKernel then 0 else 4)) := by
  cases isKernel <;> cases isWritable <;>
    simp only [pteOf, UInt32.or_assoc, Bool.false_eq_true, if_false, if_true] <;>
    rw [or_low hp (by decide)] <;> rfl

/-- An entry is its frame and its low bits. -/
theorem add_low_toNat {p c : UInt32} (hp : p.toNat % 4096 = 0) (hc : c.toNat < 4096) :
    (p + c).toNat = p.toNat + c.toNat := by
  have hlt := p.toNat_lt
  rw [UInt32.toNat_add, Nat.mod_eq_of_lt (by omega)]

theorem toNat_and_low (a : UInt32) (n : ℕ) (hn : n < 32) :
    (a &&& UInt32.ofNat (2 ^ n - 1)).toNat = a.toNat % 2 ^ n := by
  have hpow : 2 ^ n < 2 ^ 32 := Nat.pow_lt_pow_right (by decide) hn
  rw [UInt32.toNat_and, UInt32.toNat_ofNat', Nat.mod_eq_of_lt (by omega), Nat.and_two_pow_sub_one_eq_mod]

/-- The index into the directory. -/
theorem toNat_pdeIndex (a : UInt32) : (a >>> 22).toNat = a.toNat / 2 ^ 22 := by
  rw [UInt32.toNat_shiftRight]
  exact Nat.shiftRight_eq_div_pow _ 22

/-- The index into a table. -/
theorem toNat_pteIndex (a : UInt32) : ((a >>> 12) &&& 0x03FF).toNat = a.toNat / 4096 % 1024 := by
  rw [show (0x03FF : UInt32) = UInt32.ofNat (2 ^ 10 - 1) from rfl, toNat_and_low _ _ (by decide),
    UInt32.toNat_shiftRight]
  exact congrArg (· % 1024) (Nat.shiftRight_eq_div_pow _ 12)

theorem mask_bit : ∀ i < 32, (0xFFFFF000#32).getLsbD i = decide (12 ≤ i) := by decide

/-- The processor masks the low bits off, the code shifts them out. -/
theorem and_page (a : UInt32) : a &&& (0xFFFFF000 : UInt32) = (a >>> 12) <<< 12 := by
  rw [← UInt32.toBitVec_inj, UInt32.toBitVec_and, UInt32.toBitVec_shiftLeft, UInt32.toBitVec_shiftRight]
  show a.toBitVec &&& 0xFFFFF000#32 = (a.toBitVec >>> 12) <<< 12
  ext i hi
  rw [← BitVec.getLsbD_eq_getElem, ← BitVec.getLsbD_eq_getElem, BitVec.getLsbD_and, mask_bit i hi,
    BitVec.getLsbD_shiftLeft, BitVec.getLsbD_ushiftRight]
  by_cases h : 12 ≤ i
  · simp [h, hi, Nat.not_lt.mpr h]
  · simp [h, Nat.lt_of_not_le h]

theorem toNat_page (a : UInt32) : ((a >>> 12) <<< 12).toNat = a.toNat / 4096 * 4096 := by
  have hlt := a.toNat_lt
  rw [UInt32.toNat_shiftLeft, UInt32.toNat_shiftRight]
  show (_ >>> 12) <<< 12 % 2 ^ 32 = _
  rw [Nat.shiftRight_eq_div_pow, Nat.shiftLeft_eq]
  omega

theorem page_of_aligned {a : UInt32} (h : a.toNat % 4096 = 0) : (a >>> 12) <<< 12 = a := by
  rw [← UInt32.toNat_inj, toNat_page]
  omega

theorem page_add_low {p c : UInt32} (hp : p.toNat % 4096 = 0) (hc : c.toNat < 4096) :
    ((p + c) >>> 12) <<< 12 = p := by
  rw [← UInt32.toNat_inj, toNat_page, add_low_toNat hp hc]
  omega

/-! ### Where the tables are -/

theorem add_low_phys {a : UInt32} (h : a.toNat + 4096 < 2 ^ 32) : (a + 4096).toNat = a.toNat + 4096 :=
  toNat_add_of_lt h

/-- The `i`-th of the tables. -/
def tableAt (tables : UInt32) (i : ℕ) : UInt32 := tables + UInt32.ofNat i * 4096

/-- Where the entry of page number `q` is. -/
def pteAddr (tables : UInt32) (q : ℕ) : UInt32 := tables + 4 * UInt32.ofNat q

/-- The directory at `pd` and the 1024 tables after one another from `tables` on are in place: both
copies of the directory point at the tables, present, writable and for the kernel only. -/
structure PageTables (m : Mem) (pd tables : UInt32) : Prop where
  pd_aligned : pd.toNat % 4096 = 0
  aligned : tables.toNat % 4096 = 0
  above : pd.toNat + 8196 ≤ tables.toNat
  fits : tables.toNat + 4 * 2 ^ 20 ≤ 2 ^ 32
  entries : ∀ i < 1024, m.load32 (pd + 4 * UInt32.ofNat i) = tableAt tables i + 3
  physEntries : ∀ i < 1024, m.load32 (pd + 4096 + 4 * UInt32.ofNat i) = tableAt tables i + 3

/-- The addresses of the directory and of the tables. -/
def tableSpace (pd tables : UInt32) : Set UInt32 := span pd 8196 ∪ span tables (4 * 2 ^ 20)

theorem toNat_tableAt {tables : UInt32} (h : tables.toNat + 4 * 2 ^ 20 ≤ 2 ^ 32) {i : ℕ} (hi : i < 1024) :
    (tableAt tables i).toNat = tables.toNat + i * 4096 := by
  rw [tableAt, UInt32.toNat_add, UInt32.toNat_mul, UInt32.toNat_ofNat']
  show (_ + _ % 2 ^ 32 * 4096 % 2 ^ 32) % 2 ^ 32 = _
  omega

section PageTables

variable {m m' : Mem} {pd tables : UInt32}

/-- The directory entry names its table. -/
theorem PageTables.page_entry (h : PageTables m pd tables) {i : ℕ} (hi : i < 1024) :
    ((tableAt tables i + 3) >>> 12) <<< 12 = tableAt tables i := by
  refine page_add_low ?_ (by decide)
  rw [toNat_tableAt h.fits hi]
  have := h.aligned
  omega

theorem PageTables.entry_ne_zero (h : PageTables m pd tables) {i : ℕ} (hi : i < 1024) :
    tableAt tables i + 3 ≠ 0 := by
  intro h0
  have := congrArg UInt32.toNat h0
  rw [add_low_toNat (by rw [toNat_tableAt h.fits hi]; have := h.aligned; omega) (by decide)] at this
  exact absurd this (by show _ + 3 ≠ 0; omega)

/-- The entry of an address, found through its table. -/
theorem PageTables.entry_addr (h : PageTables m pd tables) (a : UInt32) :
    tableAt tables (a.toNat / 2 ^ 22) + (4 : UInt32) * ((a >>> 12) &&& 0x03FF) =
    pteAddr tables (a.toNat / 4096) := by
  have hlt := a.toNat_lt
  have hfits := h.fits
  have hindex : (a >>> 12) &&& (0x03FF : UInt32) = UInt32.ofNat (a.toNat / 4096 % 1024) := by
    rw [← UInt32.toNat_inj, toNat_pteIndex, UInt32.toNat_ofNat']
    omega
  have htable := toNat_tableAt hfits (i := a.toNat / 2 ^ 22) (by omega)
  rw [← UInt32.toNat_inj, pteAddr, hindex, toNat_word (by omega), toNat_word (by omega), htable]
  omega

theorem PageTables.load_pde (h : PageTables m pd tables) (a : UInt32) :
    m.load32 (pd + (4 : UInt32) * (a >>> 22)) = tableAt tables (a.toNat / 2 ^ 22) + 3 := by
  have hlt := a.toNat_lt
  have hindex : a >>> 22 = UInt32.ofNat (a.toNat / 2 ^ 22) := by
    rw [← UInt32.toNat_inj, toNat_pdeIndex, UInt32.toNat_ofNat']
    omega
  rw [hindex, h.entries _ (by omega)]

/-- The tables stay in place when the directory is not written. -/
theorem PageTables.of_eqOn (h : PageTables m pd tables) (he : Set.EqOn m' m (span pd 8196)) :
    PageTables m' pd tables := by
  have hab := h.above
  have hfits := h.fits
  have hload : ∀ a : UInt32, pd.toNat ≤ a.toNat → a.toNat + 4 ≤ pd.toNat + 8196 → m'.load32 a = m.load32 a :=
    fun a hlo hhi => Mem.load32_congr (he.mono (span_subset_span (by omega) hlo hhi))
  refine ⟨h.pd_aligned, h.aligned, hab, hfits, fun i hi => ?_, fun i hi => ?_⟩
  · have := toNat_word (a := pd) (i := i) (by omega)
    rw [hload _ (by omega) (by omega), h.entries i hi]
  · have hphys : (pd + 4096).toNat = pd.toNat + 4096 := add_low_phys (by omega)
    have := toNat_word (a := pd + 4096) (i := i) (by omega)
    rw [hload _ (by omega) (by omega), h.physEntries i hi]

/-- With the tables in place, `ptm_map_addr` does not abort, and its entry is in the array. -/
theorem PageTables.ptmMapAddr {s : Kernel} (h : PageTables s.mem s.pd tables) (addr physAddr : UInt32)
    (isKernel isWritable : Bool) : ptmMapAddr addr physAddr isKernel isWritable s =
      .ok ⟨⟩ (ptmWriteEntry (pteAddr tables (addr.toNat / 4096)) (pteOf physAddr isKernel isWritable)
        (s.emit (.mapAddr s.pd addr))) := by
  have hlt := addr.toNat_lt
  have htable : addr.toNat / 2 ^ 22 < 1024 := by omega
  simp only [JurasOS.ptmMapAddr, Kernel.emit_mem, Kernel.emit_pd, h.load_pde, h.entry_ne_zero htable,
    if_false, h.page_entry htable, h.entry_addr]

theorem PageTables.pteAddr_subset (h : PageTables m pd tables) {q : ℕ} (hq : q < 2 ^ 20) :
    span (pteAddr tables q) 4 ⊆ span tables (4 * 2 ^ 20) := span_word_subset h.fits hq

theorem PageTables.disjoint (h : PageTables m pd tables) :
    Disjoint (span pd 8196) (span tables (4 * 2 ^ 20)) := by
  have := h.above
  have := h.fits
  exact disjoint_span (by omega) (by omega) (Or.inl (by omega))

/-- Writing an entry leaves the tables in place. -/
theorem PageTables.store_pte (h : PageTables m pd tables) {q : ℕ} (hq : q < 2 ^ 20) (v : UInt32) :
    PageTables (m.store32 (pteAddr tables q) v) pd tables := by
  refine h.of_eqOn fun a ha => m.eqOn_store32 _ _ fun hmem => ?_
  exact Set.disjoint_left.mp h.disjoint ha (h.pteAddr_subset hq hmem)

theorem page_lt (addr : UInt32) : addr.toNat / 4096 < 2 ^ 20 := by
  have := addr.toNat_lt
  omega

theorem PageTables.ptmWriteEntry {s : Kernel} (h : PageTables s.mem s.pd tables) {q : ℕ} (hq : q < 2 ^ 20)
    (v : UInt32) :
    PageTables (ptmWriteEntry (pteAddr tables q) v s).mem s.pd tables := by
  rw [JurasOS.ptmWriteEntry]
  split
  · exact h.store_pte hq v
  · exact h

/-- The first entry written stays: what the array holds after an entry is written. -/
theorem PageTables.load_ptmWriteEntry {s : Kernel} (h : PageTables s.mem s.pd tables) {q j : ℕ}
    (hq : q < 2 ^ 20) (hj : j < 2 ^ 20) (v : UInt32) :
    (JurasOS.ptmWriteEntry (pteAddr tables q) v s).mem.load32 (pteAddr tables j) =
      if j = q ∧ s.mem.load32 (pteAddr tables q) = 0 then v else s.mem.load32 (pteAddr tables j) := by
  rw [JurasOS.ptmWriteEntry]
  by_cases h0 : s.mem.load32 (pteAddr tables q) = 0
  · simp only [h0, if_true, and_true]
    exact Mem.load32_store32_word h.fits hq hj s.mem v
  · rw [if_neg h0, if_neg (by tauto)]

/-- The events of mapping pages: the calls, and the entries that they write. -/
def MapEvent (pd tables : UInt32) : Event → Prop
  | .mapAddr pd' _ => pd' = pd
  | .pteWrite a => ∃ q < 2 ^ 20, a = pteAddr tables q
  | _ => False

/-- What mapping pages leaves as it was. -/
structure MapFrame (tables : UInt32) (s s' : Kernel) : Prop where
  same : s' = { s with mem := s'.mem, trace := s'.trace }
  mem : Set.EqOn s'.mem s.mem (span tables (4 * 2 ^ 20))ᶜ
  trace : ∃ es, s'.trace = es ++ s.trace ∧ ∀ e ∈ es, MapEvent s.pd tables e

theorem MapFrame.refl (tables : UInt32) (s : Kernel) : MapFrame tables s s :=
  ⟨rfl, fun _ _ => rfl, [], rfl, fun _ h => absurd h List.not_mem_nil⟩

theorem MapFrame.pd_eq {s s' : Kernel} (h : MapFrame tables s s') : s'.pd = s.pd := by rw [h.same]

theorem MapFrame.trans {s t u : Kernel} (h : MapFrame tables s t) (h' : MapFrame tables t u) :
    MapFrame tables s u := by
  obtain ⟨es, hes, hall⟩ := h.trace
  obtain ⟨es', hes', hall'⟩ := h'.trace
  refine ⟨by rw [h'.same, h.same], h'.mem.trans h.mem, es' ++ es, by rw [hes', hes, List.append_assoc], ?_⟩
  intro e he
  rcases List.mem_append.mp he with he | he
  · exact h.pd_eq ▸ hall' e he
  · exact hall e he

theorem ptmWriteEntry_same (entry pte : UInt32) (s : Kernel) :
    ptmWriteEntry entry pte s = { s with
      mem := (ptmWriteEntry entry pte s).mem, trace := (ptmWriteEntry entry pte s).trace } := by
  rw [ptmWriteEntry]
  split <;> rfl

theorem ptmWriteEntry_eqOn (entry pte : UInt32) (s : Kernel) :
    Set.EqOn (ptmWriteEntry entry pte s).mem s.mem (span entry 4)ᶜ := by
  rw [ptmWriteEntry]
  split
  · exact s.mem.eqOn_store32 _ _
  · exact fun _ _ => rfl

theorem ptmWriteEntry_trace (entry pte : UInt32) (s : Kernel) :
    ∃ es, (ptmWriteEntry entry pte s).trace = es ++ s.trace ∧ ∀ e ∈ es, e = .pteWrite entry := by
  rw [ptmWriteEntry]
  split
  · exact ⟨[.pteWrite entry], rfl, fun e he => List.mem_singleton.mp he⟩
  · exact ⟨[], rfl, fun e he => absurd he List.not_mem_nil⟩

/-- **With the tables in place `ptm_map_addr` does not abort**: it leaves them in place, writes to
the tables only, and changes the entry of its page only, if that was zero. -/
theorem PageTables.ptmMapAddr_ok {s : Kernel} (h : PageTables s.mem s.pd tables) (addr physAddr : UInt32)
    (isKernel isWritable : Bool) : ∃ s', JurasOS.ptmMapAddr addr physAddr isKernel isWritable s = .ok ⟨⟩ s' ∧
      PageTables s'.mem s'.pd tables ∧ MapFrame tables s s' ∧
      ∀ j < 2 ^ 20, s'.mem.load32 (pteAddr tables j) =
        if j = addr.toNat / 4096 ∧ s.mem.load32 (pteAddr tables (addr.toNat / 4096)) = 0 then
          pteOf physAddr isKernel isWritable
        else s.mem.load32 (pteAddr tables j) := by
  have hin : PageTables (s.emit (.mapAddr s.pd addr)).mem (s.emit (.mapAddr s.pd addr)).pd tables := h
  have hq := page_lt addr
  refine ⟨_, h.ptmMapAddr .., ?_, ⟨?_, ?_, ?_⟩, fun j hj => hin.load_ptmWriteEntry hq hj _⟩
  · rw [ptmWriteEntry_same]
    exact hin.ptmWriteEntry hq _
  · rw [ptmWriteEntry_same]
    rfl
  · refine (ptmWriteEntry_eqOn _ _ _).mono ?_
    exact Set.compl_subset_compl.mpr (h.pteAddr_subset hq)
  · obtain ⟨es, hes, hall⟩ := ptmWriteEntry_trace (pteAddr tables (addr.toNat / 4096))
      (pteOf physAddr isKernel isWritable) (s.emit (.mapAddr s.pd addr))
    refine ⟨es ++ [.mapAddr s.pd addr],
      by rw [hes, Kernel.emit_trace, List.append_assoc, List.singleton_append], ?_⟩
    intro e he
    rcases List.mem_append.mp he with he | he
    · rw [hall e he]
      exact ⟨_, hq, rfl⟩
    · rw [List.mem_singleton.mp he]
      rfl

/-! ### The walk over the tables -/

theorem PageTables.cr3_page (h : PageTables m pd tables) :
    (pd + 4096) &&& (0xFFFFF000 : UInt32) = pd + 4096 := by
  have := h.above
  have := h.fits
  have := h.pd_aligned
  rw [and_page, page_of_aligned]
  rw [add_low_phys (by omega)]
  omega

theorem PageTables.walkDirectory (h : PageTables m pd tables) (v : UInt32) :
    walkDirectory m (pd + 4096) v = tableAt tables (v.toNat / 2 ^ 22) + 3 := by
  have hlt := v.toNat_lt
  have hindex : v >>> 22 = UInt32.ofNat (v.toNat / 2 ^ 22) := by
    rw [← UInt32.toNat_inj, toNat_pdeIndex, UInt32.toNat_ofNat']
    omega
  simp only [JurasOS.walkDirectory, h.cr3_page, hindex]
  exact h.physEntries _ (by omega)

/-- The low bits of a frame are clear. -/
theorem and_of_low {p c b : UInt32} (hp : p.toNat % 4096 = 0) (hc : c.toNat < 4096) (hb : b.toNat < 4096) :
    (p + c) &&& b = c &&& b := by
  rw [← or_low hp hc, ← UInt32.toNat_inj]
  simp only [UInt32.toNat_and, UInt32.toNat_or]
  rw [Nat.and_or_distrib_right, show p.toNat = 2 ^ 12 * (p.toNat / 4096) by omega,
    show 2 ^ 12 * (p.toNat / 4096) &&& b.toNat = 0 from ?_, Nat.zero_or]
  refine Nat.eq_of_testBit_eq fun i => ?_
  rw [Nat.testBit_and, Nat.testBit_two_pow_mul, Nat.zero_testBit]
  by_cases hi : 12 ≤ i
  · have hpow : 2 ^ 12 ≤ 2 ^ i := Nat.pow_le_pow_right (by decide) hi
    rw [Nat.testBit_lt_two_pow (by omega : b.toNat < 2 ^ i), Bool.and_false]
  · simp [hi]

theorem present_of_low {p c : UInt32} (hp : p.toNat % 4096 = 0) (hc : c.toNat < 4096) :
    (p + c) &&& 1 = c &&& 1 :=
  and_of_low hp hc (by decide)

theorem PageTables.tableAt_aligned (h : PageTables m pd tables) {i : ℕ} (hi : i < 1024) :
    (tableAt tables i).toNat % 4096 = 0 := by
  have := h.aligned
  rw [toNat_tableAt h.fits hi]
  omega

/-- The walk reads the array. -/
theorem PageTables.walkEntry (h : PageTables m pd tables) (v : UInt32) :
    walkEntry m (pd + 4096) v = some (m.load32 (pteAddr tables (v.toNat / 4096))) := by
  have hlt := v.toNat_lt
  have htable : v.toNat / 2 ^ 22 < 1024 := by omega
  have hpresent : ¬ (tableAt tables (v.toNat / 2 ^ 22) + 3) &&& 1 = 0 := by
    rw [present_of_low (h.tableAt_aligned htable) (by decide)]
    decide
  simp only [JurasOS.walkEntry, h.walkDirectory, hpresent, if_false, and_page, h.page_entry htable,
    h.entry_addr]

end PageTables

end JurasOS
