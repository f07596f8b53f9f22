import JurasOS.Paging.Counters
import JurasOS.Paging.Runs

/-!
# Calls of the page frame allocator

A call is an operation on a page, an operation on a run of pages, or a request.
When its frames are in the bitmap, it applies one operation to them: a request
locks those that its search finds.
-/

namespace JurasOS

open Machine Alloc

/-- A call of the allocator. -/
inductive PfaCall where
  | page (op : PageOp) (address : UInt32)
  | pages (op : PageOp) (address pageCount : UInt32)
  | request (q : PfaRequest)
  deriving DecidableEq

/-- What the call does. -/
def PfaCall.run : PfaCall → Kernel → Kernel
  | .page op address, s => op.page address s
  | .pages op address pageCount, s => op.pages address pageCount s
  | .request q, s => stop (q.run s)

/-- The operation that the call applies to its frames. -/
def PfaCall.op : PfaCall → PageOp
  | .page op _ | .pages op _ _ => op
  | .request _ => .lock

/-- The frames of the call. Those of a request are the ones that its search finds. -/
def PfaCall.frames : PfaCall → Kernel → Set ℕ
  | .page _ address, _ => {address.toNat / 4096}
  | .pages _ address pageCount, _ => JurasOS.frames address pageCount
  | .request q, s => (clearPages q.count s).elim ∅ fun index => Set.Ico index (index + q.count.toNat)

/-- The call maps pages. -/
def PfaCall.Maps : PfaCall → Prop
  | .request .mpage | .request (.mpages _) => True
  | _ => False

/-- The frames of the call are in the bitmap; and the page tables are in place, clear of it, when it
maps pages. -/
def PfaCall.InRange (c : PfaCall) (s : Kernel) : Prop :=
  c.frames s ⊆ Set.Iio s.pfa.pageBitmap.length ∧ (c.Maps → ∃ tables, PfaReady s tables)

section PfaCall

variable {s t : Kernel}

/-- Locking the pages that a search has found applies to their frames. -/
theorem pfaLockPages_applied {index : ℕ} {pageCount : UInt32}
    (hin : index + pageCount.toNat ≤ s.pfa.pageBitmap.length) (hlt : index < 2 ^ 20)
    (hsmall : index + pageCount.toNat ≤ 2 ^ 20) :
    Applied .lock (Set.Ico index (index + pageCount.toNat)) s
    (pfaLockPages (UInt32.ofNat index * 4096) pageCount s) := by
  have hframe := toNat_frame hlt
  have hframes : frames (UInt32.ofNat index * 4096) pageCount = Set.Ico index (index + pageCount.toNat) := by
    rw [frames_eq (by rwa [hframe]), hframe]
  rw [← hframes]
  refine (PageOp.lock.pages_tallied _ pageCount s).applied ?_
  rw [hframes]
  exact fun f hf => lt_of_lt_of_le hf.2 hin

/-- A request locks what its search finds. -/
theorem PfaRequest.run_applied (q : PfaRequest) {index : ℕ} (hsearch : clearPages q.count s = some index)
    (hsmall : s.pfa.pageBitmap.length ≤ 2 ^ 20) (hin : PfaCall.InRange (.request q) s) :
    Applied .lock (Set.Ico index (index + q.count.toNat)) s (stop (q.run s)) := by
  obtain ⟨hframes, hmaps⟩ := hin
  obtain ⟨-, ⟨hlt, -⟩, -⟩ := findRun_eq_some.mp hsearch
  have hinside : index + q.count.toNat ≤ s.pfa.pageBitmap.length := by
    by_contra hover
    rw [PfaCall.frames, hsearch] at hframes
    have : s.pfa.pageBitmap.length < s.pfa.pageBitmap.length := hframes ⟨by omega, by omega⟩
    omega
  obtain ⟨t, ht, hpfa, hmarked⟩ : ∃ t, q.mapPages (UInt32.ofNat index * 4096) s = .ok ⟨⟩ t ∧
      t.pfa = s.pfa ∧ t.marked = s.marked := by
    by_cases hmap : (PfaCall.request q).Maps
    · obtain ⟨tables, hready⟩ := hmaps hmap
      obtain ⟨t, ht, -, hframe⟩ := hready.inPlace.mapPages q (UInt32.ofNat index * 4096)
      exact ⟨t, ht, by rw [hframe.same], hready.marked_of_mapFrame hframe⟩
    · cases q with
      | page | pages => exact ⟨s, rfl, rfl, rfl⟩
      | mpage | mpages => exact absurd trivial hmap
  rw [PfaRequest.run_of_some hsearch, bind_of_ok (PfaRequest.grant_of_mapPages ht), pure_apply]
  exact (pfaLockPages_applied (by rwa [hpfa]) (by omega) (by omega)).of_same hpfa hmarked

/-- **A call applies its operation to its frames**, and changes nothing else of the bitmap or the counters. -/
theorem PfaCall.run_applied (c : PfaCall) (hsmall : s.pfa.pageBitmap.length ≤ 2 ^ 20) (hin : c.InRange s) :
    Applied c.op (c.frames s) s (c.run s) := by
  cases c with
  | page op address => exact (op.page_tallied address s).applied hin.1
  | pages op address pageCount => exact (op.pages_tallied address pageCount s).applied hin.1
  | request q =>
    cases hsearch : clearPages q.count s with
    | none =>
      rw [PfaCall.run, PfaRequest.run_of_none hsearch, PfaCall.frames, hsearch]
      exact Applied.empty .lock s
    | some index =>
      rw [PfaCall.frames, hsearch]
      exact q.run_applied hsearch hsmall hin

end PfaCall

end JurasOS
