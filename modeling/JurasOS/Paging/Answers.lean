import JurasOS.Paging.Laws
import JurasOS.Paging.Requests
import Mathlib.Order.Interval.Set.Nat

/-!
# What the requests answer

Where there is room for the pages, `pfa_request_pages` returns the lowest room and
moves its bytes from the free to the used memory. Where there is none it should
refuse: return `NULL` and leave everything as it was. But its search takes the clear
frames at the end of the bitmap for a whole run, so it refuses only when the bitmap
ends with a taken frame. A page and a run of one page are requested alike.
-/

namespace JurasOS

open Machine Alloc

/-- The single-page and the multi-page requests agree, on a run of one page. -/
theorem pfaRequestPage_eq_pages :
    pfaRequestPage = pfaRequestPages 1 ∧ pfaRequestMpage = pfaRequestMpages 1 := by
  have hlock : ∀ page : UInt32, pfaLockPages page 1 = pfaLockPage page := pfaEachPage_one pfaLockPage
  have hmap : ∀ page : UInt32, timesM (1 : UInt32).toNat (fun offset => ptmMapAddr
      (page + UInt32.ofNat offset * 4096) (page + UInt32.ofNat offset * 4096) true true) =
      ptmMapAddr page page true true := by
    intro page
    rw [UInt32.toNat_one, timesM_one]
    simp
  constructor
  · rw [pfaRequestPage, pfaRequestPages, clearPage_eq]
    simp only [hlock]
  · rw [pfaRequestMpage, pfaRequestMpages, clearPage_eq]
    simp only [hlock, hmap]

/-! ### With room -/

/-- **Where there is room, the lowest is returned**: the search that skips past a taken frame agrees with the
plain one, and the frames of the run, and only these, are marked and counted. -/
theorem pfaRequestPages_lowest {s : Kernel} {pageCount : UInt32}
    (hsmall : s.pfa.pageBitmap.size.toNat * 8 ≤ 2 ^ 20) (hcount : 0 < pageCount.toNat)
    (hroom : ∃ j, Room s.taken (s.pfa.pageBitmap.size.toNat * 8) pageCount.toNat j) :
    ∃ index page s', Room s.taken (s.pfa.pageBitmap.size.toNat * 8) pageCount.toNat index ∧
      (∀ k < index, ¬ Room s.taken (s.pfa.pageBitmap.size.toNat * 8) pageCount.toNat k) ∧
      clearPages pageCount s = firstRoom s.taken (s.pfa.pageBitmap.size.toNat * 8) pageCount.toNat ∧
      pfaRequestPages pageCount s = .ok (some page) s' ∧ page.toNat = 4096 * index ∧
      Marks true (Set.Ico index (index + pageCount.toNat)) s s' ∧
      s'.pfa = { s.pfa with
        freeMemory := s.pfa.freeMemory - pageCount * 4096
        usedMemory := s.pfa.usedMemory + pageCount * 4096 } := by
  have hlength : s.pfa.pageBitmap.length = s.pfa.pageBitmap.size.toNat * 8 := Bitmap.length_eq (by omega)
  rw [← hlength] at hsmall hroom ⊢
  have hplain := findRun_eq_firstRoom hcount hroom
  obtain ⟨j, hj⟩ := hroom
  obtain ⟨index, hsearch, -, hindex, hmin⟩ := findRun_of_room hcount hj
  have hin := hindex.1
  have hframe : (UInt32.ofNat index * 4096).toNat / 4096 = index := toNat_frame (by omega)
  have hframes : frames (UInt32.ofNat index * 4096) pageCount = Set.Ico index (index + pageCount.toNat) := by
    rw [frames_eq (by omega), hframe]
  have hlock := PageOp.lock.pages_tallied (UInt32.ofNat index * 4096) pageCount s
  rw [hframes] at hlock
  refine ⟨index, UInt32.ofNat index * 4096, _, hindex, hmin, hplain, ?_, ?_, hlock.marks, ?_⟩
  · rw [pfaRequestPages, pfaRequest_of_some hsearch]
    rfl
  · rw [UInt32.toNat_mul, UInt32.toNat_ofNat']
    show _ % 2 ^ 32 * 4096 % 2 ^ 32 = _
    omega
  · -- none of the frames was taken, so each is counted
    have hall : {f ∈ Set.Ico index (index + pageCount.toNat) | s.taken f ≠ PageOp.lock.value} =
        Set.Ico index (index + pageCount.toNat) := by
      ext f
      simp only [Set.mem_ofPred_eq, and_iff_left_iff_imp]
      intro hf
      rw [hindex.2 f hf.1 hf.2]
      exact Bool.false_ne_true
    rw [hlock.tally, hall, PageOp.moved_iterate, Set.ncard_Ico_nat, Nat.add_sub_cancel_left, PageOp.moved,
      UInt32.ofNat_toNat]
    simp [PageOp.freeChange, PageOp.usedChange, PageOp.reservedChange, sub_eq_add_neg]

/-- A bitmap of one byte. -/
def byteKernel (b : UInt8) : Kernel :=
  { Kernel.loaded with
    mem := fun a => if a = 0x100000 then b else 0
    pfa := ⟨⟨1, 0x100000⟩, 0, 0, 0, false⟩ }

/-- The frames 1 and 4 to 7 are clear, so two pages are found at the frame 4. -/
theorem pfaRequestPages_lowest_fragmented :
    ∃ s', pfaRequestPages 2 (byteKernel 0b10110000) = .ok (some 0x4000) s' ∧
      Marks true (Set.Ico 4 6) (byteKernel 0b10110000) s' := by
  have hroom : Room (byteKernel 0b10110000).taken 8 2 4 := by
    refine ⟨by decide, fun k hk hk' => ?_⟩
    interval_cases k <;> decide
  obtain ⟨index, page, s', hindex, hmin, -, hrun, hpage, hmarks, -⟩ :=
    @pfaRequestPages_lowest (byteKernel 0b10110000) 2 (by decide) (by decide) ⟨4, hroom⟩
  have hfirst : firstRoom (byteKernel 0b10110000).taken 8 2 = some 4 := by decide
  have hfour : index = 4 := by
    have hsome := (firstRoom_eq_some (by decide)).mpr ⟨hindex, hmin⟩
    exact Option.some_inj.mp (hsome.symm.trans hfirst)
  rw [hfour] at hpage hmarks
  have heq : page = 0x4000 := UInt32.toNat_inj.mp hpage
  exact ⟨s', heq ▸ hrun, hmarks⟩

/-! ### Without room -/

/-- From `s` to `t` nothing changed but the trace. -/
def Stays (s t : Kernel) : Prop := t = { s with trace := t.trace }

/-- The request refuses: it returns `NULL`, and leaves everything as it was. -/
def Refuses (q : PfaRequest) (s : Kernel) : Prop := ∃ r s', q.run s = .ok r s' ∧ r.getD 0 = 0 ∧ Stays s s'

/-- Where the entry of an address is, in the table that the directory names. -/
def entryAddr (m : Mem) (pd addr : UInt32) : UInt32 :=
  ((m.load32 (pd + (4 : UInt32) * (addr >>> 22)) >>> 12) <<< 12) + (4 : UInt32) * ((addr >>> 12) &&& 0x03FF)

/-- The page of an address has a table, and its entry is there. -/
def EntryThere (m : Mem) (pd addr : UInt32) : Prop :=
  m.load32 (pd + (4 : UInt32) * (addr >>> 22)) ≠ 0 ∧ m.load32 (entryAddr m pd addr) ≠ 0

/-- From `s` to `t` pages were mapped: memory bits were set, and the variables are as they were. -/
structure Mapped (s t : Kernel) : Prop where
  same : t = { s with mem := t.mem, trace := t.trace }
  mem : s.mem.Grows t.mem

section Mapped

variable {s t u : Kernel}

instance : Std.Refl Mapped := ⟨fun s => ⟨rfl, Mem.Grows.refl s.mem⟩⟩

instance : IsTrans Kernel Mapped := ⟨fun _ _ _ h h' => ⟨by rw [h'.same, h.same], h.mem.trans h'.mem⟩⟩

theorem Stays.trans (h : Stays s t) (h' : Stays t u) : Stays s u := by
  rw [Stays, h', h]

/-- Mapping that leaves the memory as it was changes nothing. -/
theorem Mapped.stays (h : Mapped s t) (hmem : t.mem = s.mem) : Stays s t := by
  rw [Stays, h.same, hmem]

theorem ptmMapAddr_mapped (addr physAddr : UInt32) (isKernel isWritable : Bool) :
    Along Mapped (ptmMapAddr addr physAddr isKernel isWritable) := by
  intro s
  refine ⟨?_, (ptmMapAddr_grew addr physAddr isKernel isWritable s).mem⟩
  simp only [ptmMapAddr]
  split
  · rfl
  · rw [stop, ptmWriteEntry_same]
    rfl

theorem pteOf_ne_zero (physAddr : UInt32) (isKernel isWritable : Bool) :
    pteOf physAddr isKernel isWritable ≠ 0 := by
  simp [pteOf]

/-- **A page is mapped without any change exactly when its entry is there.** -/
theorem ptmMapAddr_stays_iff (addr physAddr : UInt32) (isKernel isWritable : Bool) (s : Kernel) :
    (∃ t, ptmMapAddr addr physAddr isKernel isWritable s = .ok ⟨⟩ t ∧ t.mem = s.mem) ↔
      EntryThere s.mem s.pd addr := by
  obtain ⟨t, ht⟩ : ∃ t, t = s.emit (.mapAddr s.pd addr) := ⟨_, rfl⟩
  have hmem : t.mem = s.mem := by rw [ht, Kernel.emit_mem]
  have hrun : ptmMapAddr addr physAddr isKernel isWritable s =
      if s.mem.load32 (s.pd + (4 : UInt32) * (addr >>> 22)) = 0 then .error .abort t
      else .ok ⟨⟩ (ptmWriteEntry (entryAddr s.mem s.pd addr) (pteOf physAddr isKernel isWritable) t) := by
    rw [ht]
    rfl
  rw [hrun, EntryThere]
  by_cases hpde : s.mem.load32 (s.pd + (4 : UInt32) * (addr >>> 22)) = 0
  · simp [hpde]
  · rw [if_neg hpde]
    constructor
    · rintro ⟨u, hu, hstays⟩
      refine ⟨hpde, fun hentry => pteOf_ne_zero physAddr isKernel isWritable ?_⟩
      cases hu
      rw [ptmWriteEntry, hmem, if_pos hentry] at hstays
      calc pteOf physAddr isKernel isWritable
        _ = (s.mem.store32 (entryAddr s.mem s.pd addr) (pteOf physAddr isKernel isWritable)).load32
              (entryAddr s.mem s.pd addr) := (Mem.load32_store32 ..).symm
        _ = s.mem.load32 (entryAddr s.mem s.pd addr) := congrArg (Mem.load32 · _) hstays
        _ = 0 := hentry
    · rintro ⟨-, hentry⟩
      refine ⟨_, rfl, ?_⟩
      rw [ptmWriteEntry, hmem, if_neg hentry, hmem]

/-- Mapping the pages of a block changes nothing exactly when their entries are there. -/
theorem ptmMapAddr_pages_stays_iff (page : UInt32) (n : ℕ) (s : Kernel) :
    (∃ t, timesM n (fun offset => ptmMapAddr (page + UInt32.ofNat offset * 4096)
        (page + UInt32.ofNat offset * 4096) true true) s = .ok ⟨⟩ t ∧ Stays s t) ↔
      ∀ k < n, EntryThere s.mem s.pd (page + UInt32.ofNat k * 4096) := by
  induction n with
  | zero => exact ⟨fun _ k hk => absurd hk (Nat.not_lt_zero k), fun _ => ⟨s, rfl, rfl⟩⟩
  | succ n ih =>
    constructor
    · rintro ⟨t, ht, hstays⟩
      obtain ⟨_, u, hu, hlast⟩ := bind_eq_ok.mp ht
      have hsu := (Along.timesM fun _ => ptmMapAddr_mapped _ _ _ _ : Along Mapped _).of_ok hu
      have hut := (ptmMapAddr_mapped _ _ _ _).of_ok hlast
      -- what grows twice and ends where it began did not grow
      have hmem : u.mem = s.mem := by
        refine (hsu.mem.antisymm ?_).symm
        have := hut.mem
        rwa [hstays] at this
      have hstay := hsu.stays hmem
      intro k hk
      rcases Nat.lt_succ_iff_lt_or_eq.mp hk with hlt | rfl
      · exact ih.mp ⟨u, hu, hstay⟩ k hlt
      · have hentry := (ptmMapAddr_stays_iff _ _ _ _ u).mp ⟨t, hlast, by rw [hmem, hstays]⟩
        rwa [hstay] at hentry
    · intro h
      obtain ⟨u, hu, hstays⟩ := ih.mpr fun k hk => h k (by omega)
      have hentry := h n (Nat.lt_succ_self n)
      obtain ⟨t, ht, hmem⟩ := (ptmMapAddr_stays_iff _ (page + UInt32.ofNat n * 4096) true true u).mpr (by
        rwa [hstays])
      have hstay := ((ptmMapAddr_mapped _ _ _ _).of_ok ht).stays hmem
      exact ⟨t, (bind_of_ok hu).trans ht, hstays.trans hstay⟩

theorem Stays.taken (h : Stays s t) : t.taken = s.taken := by rw [h]; rfl

/-- Locking pages whose frames are taken changes nothing. -/
theorem pfaLockPages_eq_self {address pageCount : UInt32}
    (h : ∀ f ∈ frames address pageCount, s.taken f = true) : pfaLockPages address pageCount s = s := by
  have hnone : {f ∈ frames address pageCount | s.taken f ≠ true} = ∅ := by
    ext f
    simp only [Set.mem_ofPred_eq, Set.mem_empty_iff_false, iff_false, not_and, not_not]
    exact h f
  have hself : Tallied true (PageOp.lock.moved 1) (frames address pageCount) s s := by
    refine ⟨⟨rfl, rfl, rfl, fun f hf _ => h f hf, fun _ _ _ => rfl, fun _ _ => rfl⟩, fun f => frames_lt, ?_⟩
    rw [hnone, Set.ncard_empty]
    rfl
  exact (PageOp.lock.pages_tallied address pageCount s).unique hself

/-- A page number is that of `NULL` when it is a multiple of `2 ^ 20`. -/
theorem frame_eq_null_iff {index : ℕ} : UInt32.ofNat index * 4096 = 0 ↔ 2 ^ 20 ∣ index := by
  rw [← UInt32.toNat_inj, UInt32.toNat_mul, UInt32.toNat_ofNat']
  show _ % 2 ^ 32 * 4096 % 2 ^ 32 = 0 ↔ _
  omega

/-- What a request maps before it locks. -/
theorem PfaRequest.mapPages_mapped (q : PfaRequest) (page : UInt32) : Along Mapped (q.mapPages page) := by
  cases q with
  | page | pages => exact Along.pure _
  | mpage => exact ptmMapAddr_mapped _ _ _ _
  | mpages pageCount => exact Along.timesM fun _ => ptmMapAddr_mapped _ _ _ _

/-- A request that finds nothing refuses. -/
theorem PfaRequest.refuses_of_none {q : PfaRequest} (hsearch : clearPages q.count s = none) : Refuses q s :=
  ⟨none, s, PfaRequest.run_of_none hsearch, rfl, rfl⟩

/-- **A request that finds pages refuses exactly when** their address is `NULL`, and mapping and locking the
pages there changes nothing. -/
theorem PfaRequest.refuses_iff {q : PfaRequest} {i : ℕ} (hsearch : clearPages q.count s = some i) :
    Refuses q s ↔ 2 ^ 20 ∣ i ∧ (∀ f ∈ frames 0 q.count, s.taken f = true) ∧
      ∃ t, q.mapPages 0 s = .ok ⟨⟩ t ∧ Stays s t := by
  constructor
  · rintro ⟨r, t, hrun, hnull, hstays⟩
    rw [PfaRequest.run_of_some hsearch, bind_eq_ok] at hrun
    obtain ⟨_, t', hgrant, hpure⟩ := hrun
    cases hpure
    rw [Option.getD_some] at hnull
    rw [hnull] at hgrant
    -- the pages are mapped, and then locked
    obtain ⟨u, hu, rfl⟩ := PfaRequest.of_grant hgrant
    have hmapped := (q.mapPages_mapped 0).of_ok hu
    have hmem : u.mem = s.mem := by
      refine (hmapped.mem.antisymm ?_).symm
      have hgrows := pfaLockPages_grows 0 q.count u
      rwa [hstays] at hgrows
    refine ⟨frame_eq_null_iff.mp hnull, fun f hf => ?_, u, hu, hmapped.stays hmem⟩
    have hlt := frames_lt hf
    rw [← hstays.taken]
    exact (pfaLockPages_marks 0 q.count u).inside f hf (by omega)
  · rintro ⟨hdvd, htaken, u, hu, hstays⟩
    have hnull := frame_eq_null_iff.mpr hdvd
    have hlocked : pfaLockPages 0 q.count u = u := pfaLockPages_eq_self fun f hf => by
      rw [hstays.taken]
      exact htaken f hf
    refine ⟨some 0, u, ?_, rfl, hstays⟩
    rw [PfaRequest.run_of_some hsearch, hnull, bind_of_ok (PfaRequest.grant_of_mapPages hu), hlocked,
      pure_apply]

end Mapped

/-- **The requests refuse, when there is no room, exactly when** the bitmap ends with a taken frame. Where it
ends with clear ones, they are taken for the run; in a bitmap of more than `2 ^ 20` frames the address of the
first of them may wrap to `NULL`, and all that the request would then do may be done. -/
theorem pfaRequestPages_refuse_iff (s : Kernel) (pageCount : UInt32) :
    ((∀ j, ¬ Room s.taken s.pfa.pageBitmap.length pageCount.toNat j) →
        Refuses (.pages pageCount) s ∧ Refuses (.mpages pageCount) s) ↔
      (∃ j, Room s.taken s.pfa.pageBitmap.length pageCount.toNat j) ∨
        ∀ i, ClearTail s.taken s.pfa.pageBitmap.length i → 2 ^ 20 ∣ i ∧
          (∀ f ∈ frames 0 pageCount, s.taken f = true) ∧
          ∀ k < pageCount.toNat, EntryThere s.mem s.pd (UInt32.ofNat k * 4096) := by
  constructor
  · intro h
    by_cases hroom : ∃ j, Room s.taken s.pfa.pageBitmap.length pageCount.toNat j
    · exact Or.inl hroom
    refine Or.inr fun i htail => ?_
    have hnone := not_exists.mp hroom
    have hsearch : clearPages pageCount s = some i := (findRun_eq_some_of_no_room hnone).mpr htail
    obtain ⟨hdvd, htaken, hmap⟩ := (PfaRequest.refuses_iff (q := .mpages pageCount) hsearch).mp (h hnone).2
    refine ⟨hdvd, htaken, fun k hk => ?_⟩
    have hentry := (ptmMapAddr_pages_stays_iff 0 pageCount.toNat s).mp hmap k hk
    rwa [UInt32.zero_add] at hentry
  · rintro (hroom | htail) hnone
    · exact absurd hroom (not_exists.mpr hnone)
    cases hsearch : clearPages pageCount s with
    | none => exact ⟨PfaRequest.refuses_of_none hsearch, PfaRequest.refuses_of_none hsearch⟩
    | some i =>
      obtain ⟨hdvd, htaken, hthere⟩ := htail i ((findRun_eq_some_of_no_room hnone).mp hsearch)
      have hmap := (ptmMapAddr_pages_stays_iff 0 pageCount.toNat s).mpr fun k hk => by
        rw [UInt32.zero_add]
        exact hthere k hk
      exact ⟨(PfaRequest.refuses_iff (q := .pages pageCount) hsearch).mpr ⟨hdvd, htaken, s, rfl, rfl⟩,
        (PfaRequest.refuses_iff (q := .mpages pageCount) hsearch).mpr ⟨hdvd, htaken, hmap⟩⟩

/-- Seven frames are clear, and eight pages asked for: the request returns the frame 1 and sets a bit of
the byte after the bitmap. -/
theorem pfaRequestPages_past_end :
    (∀ j, ¬ Room (byteKernel 0b10000000).taken (byteKernel 0b10000000).pfa.pageBitmap.length 8 j) ∧
      ∃ s', pfaRequestPages 8 (byteKernel 0b10000000) = .ok (some 0x1000) s' ∧
        s'.mem 0x100001 ≠ (byteKernel 0b10000000).mem 0x100001 := by
  have hlength : (byteKernel 0b10000000).pfa.pageBitmap.length = 8 := by decide
  have htaken : (byteKernel 0b10000000).taken 0 = true := by decide
  rw [hlength]
  have hnone : ∀ j, ¬ Room (byteKernel 0b10000000).taken 8 8 j := by
    rintro j ⟨hj, hclear⟩
    have := hclear 0 (by omega) (by omega)
    rw [htaken] at this
    cases this
  have htail : ClearTail (byteKernel 0b10000000).taken 8 1 := by
    refine ⟨by decide, fun k hk hk' => ?_, fun j hj hclear => ?_⟩
    · interval_cases k <;> decide
    · have := hclear 0 (by omega) (by omega)
      rw [htaken] at this
      cases this
  have hsearch : clearPages 8 (byteKernel 0b10000000) = some 1 := by
    rw [← hlength] at hnone htail
    exact (findRun_eq_some_of_no_room hnone).mpr htail
  refine ⟨hnone, pfaLockPages 0x1000 8 (byteKernel 0b10000000), ?_, fun hsame => ?_⟩
  · rw [pfaRequestPages, pfaRequest_of_some hsearch]
    rfl
  · have hmarks := pfaLockPages_marks 0x1000 8 (byteKernel 0b10000000)
    have hbit := hmarks.inside 8 ⟨7, by decide, by decide⟩ (by decide)
    rw [Kernel.taken, hmarks.bitmap, Bitmap.bits_of_zero hsame] at hbit
    cases hbit

end JurasOS
