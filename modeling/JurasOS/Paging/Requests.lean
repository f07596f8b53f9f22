import JurasOS.Paging.Tables

/-!
# `page_frame_allocator.c`: the requests

The four requests search the bitmap for a clear frame or for a run of them, and
lock what they find; the two `mpage` requests map it first. Each is `pfaRequest`
with its own search and its own grant. A request for one page searches as the
request for a run of one does, so what follows is said of all four at once.

Two things are said of a request. Whatever the memory holds, it only sets bits
(`Grew`). With the page tables in place, clear of the bitmap, it does not halt and
marks exactly the frames that it hands out (`PfaReady`).
-/

namespace JurasOS

open Machine Alloc

/-- The loop of the four requests: what the search finds is granted and returned. `none` is the
`NULL` after the loop. -/
def pfaRequest (search : Kernel → Option ℕ) (grant : UInt32 → KernelM PUnit) : KernelM (Option UInt32) := do
  match search (← get) with
  | none => pure none
  | some index =>
    let page := UInt32.ofNat index * 4096
    grant page
    pure (some page)

/-- The search of `pfa_request_page` and `pfa_request_mpage`. -/
def clearPage (s : Kernel) : Option ℕ := firstClear s.taken s.pfa.pageBitmap.length

/-- The search of `pfa_request_pages` and `pfa_request_mpages`. -/
def clearPages (pageCount : UInt32) (s : Kernel) : Option ℕ :=
  findRun s.taken s.pfa.pageBitmap.length pageCount.toNat 0

/-- `pfa_request_page`. -/
def pfaRequestPage : KernelM (Option UInt32) :=
  pfaRequest clearPage fun page => modify (pfaLockPage page)

/-- `pfa_request_pages`. -/
def pfaRequestPages (pageCount : UInt32) : KernelM (Option UInt32) :=
  pfaRequest (clearPages pageCount) fun page => modify (pfaLockPages page pageCount)

/-- `pfa_request_mpage`. -/
def pfaRequestMpage : KernelM (Option UInt32) :=
  pfaRequest clearPage fun page => do
    ptmMapAddr page page true true
    modify (pfaLockPage page)

/-- `pfa_request_mpages`. -/
def pfaRequestMpages (pageCount : UInt32) : KernelM (Option UInt32) :=
  pfaRequest (clearPages pageCount) fun page => do
    timesM pageCount.toNat fun offset =>
      ptmMapAddr (page + UInt32.ofNat offset * 4096) (page + UInt32.ofNat offset * 4096) true true
    modify (pfaLockPages page pageCount)

/-- A call of one of the four requests. -/
inductive PfaRequest where
  | page
  | pages (pageCount : UInt32)
  | mpage
  | mpages (pageCount : UInt32)
  deriving DecidableEq

/-- The call. -/
def PfaRequest.run : PfaRequest → KernelM (Option UInt32)
  | .page => pfaRequestPage
  | .pages pageCount => pfaRequestPages pageCount
  | .mpage => pfaRequestMpage
  | .mpages pageCount => pfaRequestMpages pageCount

/-- The number of pages asked for. -/
def PfaRequest.count : PfaRequest → UInt32
  | .page | .mpage => 1
  | .pages pageCount | .mpages pageCount => pageCount

/-- What the call does with the pages it has found. -/
def PfaRequest.grant : PfaRequest → UInt32 → KernelM PUnit
  | .page, address => modify (pfaLockPage address)
  | .pages pageCount, address => modify (pfaLockPages address pageCount)
  | .mpage, address => do
    ptmMapAddr address address true true
    modify (pfaLockPage address)
  | .mpages pageCount, address => do
    timesM pageCount.toNat fun offset =>
      ptmMapAddr (address + UInt32.ofNat offset * 4096) (address + UInt32.ofNat offset * 4096) true true
    modify (pfaLockPages address pageCount)

/-- What the call maps before it locks. -/
def PfaRequest.mapPages : PfaRequest → UInt32 → KernelM PUnit
  | .page, _ | .pages _, _ => pure ⟨⟩
  | .mpage, address => ptmMapAddr address address true true
  | .mpages pageCount, address => timesM pageCount.toNat fun offset =>
    ptmMapAddr (address + UInt32.ofNat offset * 4096) (address + UInt32.ofNat offset * 4096) true true

/-! ### The search -/

theorem pfaRequest_of_none {search : Kernel → Option ℕ} {grant : UInt32 → KernelM PUnit} {s : Kernel}
    (h : search s = none) : pfaRequest search grant s = .ok none s := by
  show (match search s with | none => _ | some index => _ : KernelM (Option UInt32)) s = _
  rw [h]
  rfl

theorem pfaRequest_of_some {search : Kernel → Option ℕ} {grant : UInt32 → KernelM PUnit} {s : Kernel}
    {index : ℕ} (h : search s = some index) : pfaRequest search grant s =
      (grant (UInt32.ofNat index * 4096) >>= fun _ => pure (some (UInt32.ofNat index * 4096))) s := by
  show (match search s with | none => _ | some index => _ : KernelM (Option UInt32)) s = _
  rw [h]

theorem clearPage_eq : clearPage = clearPages 1 :=
  funext fun s => firstClear_eq_findRun s.pfa.pageBitmap.length

/-- The four requests are one. -/
theorem PfaRequest.run_eq (q : PfaRequest) : q.run = pfaRequest (clearPages q.count) q.grant := by
  cases q with
  | page => rw [PfaRequest.run, pfaRequestPage, clearPage_eq]; rfl
  | pages pageCount => rfl
  | mpage => rw [PfaRequest.run, pfaRequestMpage, clearPage_eq]; rfl
  | mpages pageCount => rfl

section PfaRequest

variable {q : PfaRequest} {s s' : Kernel} {page : UInt32}

theorem PfaRequest.run_of_none (h : clearPages q.count s = none) : q.run s = .ok none s := by
  rw [q.run_eq, pfaRequest_of_none h]

theorem PfaRequest.run_of_some {index : ℕ} (h : clearPages q.count s = some index) :
    q.run s = (q.grant (UInt32.ofNat index * 4096) >>= fun _ => pure (some (UInt32.ofNat index * 4096)))
    s := by
  rw [q.run_eq, pfaRequest_of_some h]

/-- A request that returns `NULL` did nothing. -/
theorem PfaRequest.eq_of_null (h : q.run s = .ok none s') : s' = s := by
  cases hsearch : clearPages q.count s with
  | none =>
    rw [PfaRequest.run_of_none hsearch] at h
    cases h
    rfl
  | some index =>
    rw [PfaRequest.run_of_some hsearch, bind_eq_ok] at h
    obtain ⟨_, t, -, ht⟩ := h
    cases ht

/-- A request that returns a page found it, and granted it. -/
theorem PfaRequest.of_run_some (h : q.run s = .ok (some page) s') :
    ∃ index, clearPages q.count s = some index ∧ page = UInt32.ofNat index * 4096 ∧
    q.grant page s = .ok ⟨⟩ s' := by
  cases hsearch : clearPages q.count s with
  | none =>
    rw [PfaRequest.run_of_none hsearch] at h
    cases h
  | some index =>
    rw [PfaRequest.run_of_some hsearch, bind_eq_ok] at h
    obtain ⟨_, t, ht, h⟩ := h
    cases h
    exact ⟨index, rfl, rfl, ht⟩

/-- A grant maps pages, then locks them. -/
theorem PfaRequest.grant_eq (q : PfaRequest) (address : UInt32) :
    q.grant address = (q.mapPages address >>= fun _ => modify (pfaLockPages address q.count)) := by
  have hone : pfaLockPages address 1 = pfaLockPage address := pfaEachPage_one pfaLockPage address
  cases q with
  | page =>
    show modify (pfaLockPage address) = modify (pfaLockPages address 1)
    rw [hone]
  | pages pageCount => rfl
  | mpage =>
    show _ = (ptmMapAddr address address true true >>= fun _ => modify (pfaLockPages address 1))
    rw [hone]
    rfl
  | mpages pageCount => rfl

theorem PfaRequest.grant_of_mapPages (h : q.mapPages page s = .ok ⟨⟩ s') :
    q.grant page s = .ok ⟨⟩ (pfaLockPages page q.count s') := by
  rw [q.grant_eq, bind_of_ok h, modify_apply]

theorem PfaRequest.of_grant (h : q.grant page s = .ok ⟨⟩ s') :
    ∃ t, q.mapPages page s = .ok ⟨⟩ t ∧ s' = pfaLockPages page q.count t := by
  rw [q.grant_eq, bind_eq_ok] at h
  obtain ⟨_, t, ht, hlock⟩ := h
  cases hlock
  exact ⟨t, ht, rfl⟩

/-- The frames of the block of pages at an address. -/
def blockFrames (address pageCount : UInt32) : Set ℕ :=
  Set.Ico (address.toNat / 4096) (address.toNat / 4096 + pageCount.toNat)

theorem blockFrames_one (address : UInt32) : blockFrames address 1 = {address.toNat / 4096} := by
  ext f
  rw [blockFrames, Set.mem_Ico, UInt32.toNat_one, Set.mem_singleton_iff]
  omega

/-- **A request returns clear frames**, as far as there are frames in the bitmap. -/
theorem PfaRequest.clear_of_run_some (hsmall : s.pfa.pageBitmap.length ≤ 2 ^ 20)
    (h : q.run s = .ok (some page) s') :
    page.toNat / 4096 < s.pfa.pageBitmap.length ∧
      ∀ f ∈ blockFrames page q.count, f < s.pfa.pageBitmap.length → s.taken f = false := by
  obtain ⟨index, hsearch, rfl, -⟩ := PfaRequest.of_run_some h
  obtain ⟨-, ⟨hlt, hclear⟩, -⟩ := findRun_eq_some.mp hsearch
  rw [blockFrames, toNat_frame (by omega)]
  exact ⟨hlt, fun f hf hfN => hclear f hf.1 (lt_min hf.2 hfN)⟩

/-- A block that a request returns ends in the bitmap, when a whole run of its length was clear
in the bitmap or the last frame was taken. -/
theorem PfaRequest.inside_of_run_some (hsmall : s.pfa.pageBitmap.length ≤ 2 ^ 20)
    (hsafe : (∃ j, Room s.taken s.pfa.pageBitmap.length q.count.toNat j) ∨
      s.taken (s.pfa.pageBitmap.length - 1) = true)
    (h : q.run s = .ok (some page) s') : page.toNat / 4096 + q.count.toNat ≤ s.pfa.pageBitmap.length := by
  obtain ⟨index, hsearch, rfl, -⟩ := PfaRequest.of_run_some h
  obtain ⟨-, ⟨hlt, -⟩, -⟩ := findRun_eq_some.mp hsearch
  rw [toNat_frame (by omega)]
  exact findRun_le hsafe hsearch

end PfaRequest

/-! ### Requests only set bits -/

/-- From `s` to `s'` memory bits were set and none cleared, and the bitmap stayed where it is. -/
structure Grew (s s' : Kernel) : Prop where
  mem : s.mem.Grows s'.mem
  bitmap : s'.pfa.pageBitmap = s.pfa.pageBitmap

instance : Std.Refl Grew := ⟨fun s => ⟨Mem.Grows.refl s.mem, rfl⟩⟩

instance : IsTrans Kernel Grew := ⟨fun _ _ _ h h' => ⟨h.mem.trans h'.mem, h'.bitmap.trans h.bitmap⟩⟩

theorem Grew.taken {s s' : Kernel} (h : Grew s s') {f : ℕ} (hf : s.taken f = true) : s'.taken f = true := by
  rw [Kernel.taken, h.bitmap]
  exact Bitmap.bits_grow h.mem hf

theorem pfaLockPages_grew (address pageCount : UInt32) :
    Along Grew (modify (pfaLockPages address pageCount) : KernelM PUnit) :=
  Along.modify fun s =>
    ⟨pfaLockPages_grows address pageCount s, (pfaLockPages_marks address pageCount s).bitmap⟩

/-- `ptm_map_addr` writes an entry over a zero only. -/
theorem ptmMapAddr_grew (addr physAddr : UInt32) (isKernel isWritable : Bool) :
    Along Grew (ptmMapAddr addr physAddr isKernel isWritable) := by
  intro s
  simp only [ptmMapAddr]
  split
  · exact ⟨Mem.Grows.refl _, rfl⟩
  · simp only [stop, ptmWriteEntry]
    split
    · exact ⟨Mem.grows_store32 _ ‹_›, rfl⟩
    · exact ⟨Mem.Grows.refl _, rfl⟩

theorem PfaRequest.mapPages_grew (q : PfaRequest) (page : UInt32) : Along Grew (q.mapPages page) := by
  cases q with
  | page | pages => exact Along.pure _
  | mpage => exact ptmMapAddr_grew page page true true
  | mpages pageCount => exact Along.timesM fun _ => ptmMapAddr_grew _ _ _ _

theorem PfaRequest.grant_grew (q : PfaRequest) (page : UInt32) : Along Grew (q.grant page) := by
  rw [q.grant_eq]
  exact (q.mapPages_grew page).bind fun _ => pfaLockPages_grew page q.count

/-- **A request only sets bits**, whatever the memory holds. -/
theorem PfaRequest.run_grew (q : PfaRequest) : Along Grew q.run := by
  rw [q.run_eq]
  refine Along.get.bind fun s => ?_
  cases clearPages q.count s with
  | none => exact Along.pure _
  | some index => exact (q.grant_grew _).bind fun _ => Along.pure _

/-! ### Requests with the page tables in place -/

/-- The page tables are in place, clear of a bitmap of at most `2 ^ 20` frames. -/
structure PfaReady (s : Kernel) (tables : UInt32) : Prop where
  inPlace : PageTables s.mem s.pd tables
  apart : Disjoint (tableSpace s.pd tables) (span s.pfa.pageBitmap.buffer s.pfa.pageBitmap.size.toNat)
  small : s.pfa.pageBitmap.size.toNat * 8 ≤ 2 ^ 20

section PfaReady

variable {s s' : Kernel} {tables : UInt32}

theorem PfaReady.length_le (h : PfaReady s tables) : s.pfa.pageBitmap.length ≤ 2 ^ 20 := by
  have := h.small
  rw [Bitmap.length_eq (by omega)]
  exact this

/-- The bytes of frames in the bitmap are clear of the page tables. -/
theorem PfaReady.bytes_apart (h : PfaReady s tables) {F : Set ℕ} (hF : F ⊆ Set.Iio s.pfa.pageBitmap.length) :
    Disjoint (tableSpace s.pd tables) (s.pfa.pageBitmap.bytes F) := by
  refine h.apart.mono_right ?_
  rintro a ⟨f, hf, rfl⟩
  exact Bitmap.byteAddr_mem_span (hF hf)

/-- Marking frames of the bitmap leaves the page tables in place. -/
theorem PfaReady.marks (h : PfaReady s tables) {value : Bool} {F : Set ℕ} (hm : Marks value F s s')
    (hF : F ⊆ Set.Iio s.pfa.pageBitmap.length) : PfaReady s' tables := by
  have hpd : s'.pd = s.pd := by rw [hm.same]
  refine ⟨?_, by rw [hpd, hm.bitmap]; exact h.apart, by rw [hm.bitmap]; exact h.small⟩
  rw [hpd]
  refine h.inPlace.of_eqOn (hm.mem.mono fun a ha => ?_)
  exact Set.disjoint_left.mp (h.bytes_apart hF) (Or.inl ha)

/-- Mapping pages leaves the bitmap as it is. -/
theorem PfaReady.taken_of_mapFrame (h : PfaReady s tables) (hm : MapFrame tables s s') :
    s'.pfa.pageBitmap = s.pfa.pageBitmap ∧ ∀ f < s.pfa.pageBitmap.length, s'.taken f = s.taken f := by
  have hpfa : s'.pfa = s.pfa := by rw [hm.same]
  refine ⟨by rw [hpfa], fun f hf => ?_⟩
  rw [Kernel.taken, Kernel.taken, hpfa]
  refine Bitmap.bits_congr (hm.mem ?_)
  intro hmem
  exact Set.disjoint_left.mp (h.bytes_apart (F := {f}) (by simpa using hf)) (Or.inr hmem) ⟨f, rfl, rfl⟩

theorem PfaReady.marked_of_mapFrame (h : PfaReady s tables) (hm : MapFrame tables s s') :
    s'.marked = s.marked := by
  obtain ⟨hbitmap, htaken⟩ := h.taken_of_mapFrame hm
  ext f
  show (f < s'.pfa.pageBitmap.length ∧ s'.taken f = true) ↔ (f < s.pfa.pageBitmap.length ∧ s.taken f = true)
  rw [hbitmap]
  exact and_congr_right fun hf => by rw [htaken f hf]

theorem PfaReady.mapFrame (h : PfaReady s tables) (hm : MapFrame tables s s')
    (ht : PageTables s'.mem s'.pd tables) :
    PfaReady s' tables := by
  rw [hm.pd_eq] at ht
  refine ⟨hm.pd_eq ▸ ht, ?_, ?_⟩
  · rw [hm.pd_eq, (h.taken_of_mapFrame hm).1]
    exact h.apart
  · rw [(h.taken_of_mapFrame hm).1]
    exact h.small

/-- The loop of `pfa_request_mpages` that maps the pages of a block. -/
theorem PageTables.ptmMapAddr_pages (h : PageTables s.mem s.pd tables) (page pageCount : UInt32) :
    ∃ s', timesM pageCount.toNat (fun offset => JurasOS.ptmMapAddr (page + UInt32.ofNat offset * 4096)
        (page + UInt32.ofNat offset * 4096) true true) s = .ok ⟨⟩ s' ∧
      PageTables s'.mem s'.pd tables ∧ MapFrame tables s s' := by
  refine timesM_inv (P := fun _ t => PageTables t.mem t.pd tables ∧
    MapFrame tables s t) ⟨h, MapFrame.refl tables s⟩ ?_
  rintro offset - t ⟨ht, hst⟩
  obtain ⟨u, hu, hin, hframe, -⟩ := ht.ptmMapAddr_ok (page + UInt32.ofNat offset * 4096)
    (page + UInt32.ofNat offset * 4096) true true
  exact ⟨u, hu, hin, hst.trans hframe⟩

/-- With the tables in place a request maps its pages, and does not halt. -/
theorem PageTables.mapPages (h : PageTables s.mem s.pd tables) (q : PfaRequest) (page : UInt32) :
    ∃ s', q.mapPages page s = .ok ⟨⟩ s' ∧ PageTables s'.mem s'.pd tables ∧ MapFrame tables s s' := by
  cases q with
  | page | pages => exact ⟨s, rfl, h, MapFrame.refl tables s⟩
  | mpage =>
    obtain ⟨s', hrun, hin, hframe, -⟩ := h.ptmMapAddr_ok page page true true
    exact ⟨s', hrun, hin, hframe⟩
  | mpages pageCount => exact h.ptmMapAddr_pages page pageCount

/-- Locking after mapping marks the block. -/
theorem PfaReady.lock (h : PfaReady s tables) {t : Kernel} (ht : PageTables t.mem t.pd tables)
    (hm : MapFrame tables s t) {F : Set ℕ} (hF : F ⊆ Set.Iio s.pfa.pageBitmap.length)
    (hl : Marks true F t s') :
    PfaReady s' tables ∧ s'.pfa.pageBitmap = s.pfa.pageBitmap ∧ s'.marked = s.marked ∪ F := by
  have hbitmap := (h.taken_of_mapFrame hm).1
  refine ⟨(h.mapFrame hm ht).marks hl (by rwa [hbitmap]), hl.bitmap.trans hbitmap, ?_⟩
  rw [hl.marked_union, hbitmap, Set.inter_eq_left.mpr hF, h.marked_of_mapFrame hm]

/-- **A grant of frames in the bitmap marks them**, and does not halt. -/
theorem PfaReady.grant (h : PfaReady s tables) (q : PfaRequest) {page : UInt32}
    (hpage : page.toNat / 4096 + q.count.toNat ≤ s.pfa.pageBitmap.length) :
    ∃ s', q.grant page s = .ok ⟨⟩ s' ∧ PfaReady s' tables ∧ s'.pfa.pageBitmap = s.pfa.pageBitmap ∧
      s'.marked = s.marked ∪ blockFrames page q.count := by
  have hsmall := h.length_le
  have hF : blockFrames page q.count ⊆ Set.Iio s.pfa.pageBitmap.length := by
    intro f hf
    have := hf.2
    exact Set.mem_Iio.mpr (by omega)
  obtain ⟨t, ht, hin, hframe⟩ := h.inPlace.mapPages q page
  have hlock := pfaLockPages_marks page q.count t
  rw [frames_eq (by omega)] at hlock
  exact ⟨_, PfaRequest.grant_of_mapPages ht, h.lock hin hframe hF hlock⟩

/-- A request for which there is room does not halt, and returns a block of the bitmap. -/
theorem PfaReady.run_of_room (h : PfaReady s tables) {q : PfaRequest} (hcount : 0 < q.count.toNat) {j : ℕ}
    (hroom : Room s.taken s.pfa.pageBitmap.length q.count.toNat j) :
    ∃ page s', q.run s = .ok (some page) s' ∧
    page.toNat / 4096 + q.count.toNat ≤ s.pfa.pageBitmap.length := by
  have hsmall := h.length_le
  obtain ⟨index, hsearch, -, ⟨hinside, -⟩, -⟩ := findRun_of_room hcount hroom
  have hpage : (UInt32.ofNat index * 4096).toNat / 4096 + q.count.toNat ≤ s.pfa.pageBitmap.length := by
    rwa [toNat_frame (by omega)]
  obtain ⟨s', hgrant, -⟩ := h.grant q hpage
  exact ⟨_, s', by rw [PfaRequest.run_of_some hsearch, bind_of_ok hgrant, pure_apply], hpage⟩

end PfaReady

end JurasOS
