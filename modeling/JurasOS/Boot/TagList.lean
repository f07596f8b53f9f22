import JurasOS.Boot.Tags

/-!
# A list of tags in memory

The boot information as a boot loader lays it out: tags after one another, each
padded to a multiple of eight bytes, and an end tag after the last. `load_tags`
reads the header of each of them once, in order, and nothing else of them, so each
of the seven pointers is left at the last tag of its type.
-/

namespace JurasOS

open Machine

/-- `struct multiboot_tag`: the header of a tag. -/
structure MultibootTag where
  type : UInt32
  size : UInt32

/-- The bytes from the tag to the next one. -/
def MultibootTag.padded (tag : MultibootTag) : ℕ := (tag.size.toNat + 7) / 8 * 8

/-- The tags lie in memory from `a` on, none of them an end tag, with an end tag after them. -/
def LaidOut (m : Mem) : ℕ → List MultibootTag → Prop
  | a, [] => a + 8 ≤ 2 ^ 32 ∧ m.load32 (UInt32.ofNat a) = 0
  | a, tag :: tags =>
    m.load32 (UInt32.ofNat a) = tag.type ∧ m.load32 (UInt32.ofNat a + 4) = tag.size ∧ tag.type ≠ 0 ∧
      8 ≤ tag.size.toNat ∧ LaidOut m (a + tag.padded) tags

/-- The tags with their addresses, the first one at `a`. -/
def placed : ℕ → List MultibootTag → List (MultibootTag × UInt32)
  | _, [] => []
  | a, tag :: tags => (tag, UInt32.ofNat a) :: placed (a + tag.padded) tags

/-- The headers that are read, from `a` on: of each tag, and of the end tag. -/
def headersRead : ℕ → List MultibootTag → List Event
  | a, [] => [.tagHeader (UInt32.ofNat a)]
  | a, tag :: tags => .tagHeader (UInt32.ofNat a) :: headersRead (a + tag.padded) tags

/-- The address of the last tag of a type, or `before` when there is none. -/
def lastTag (type before : UInt32) (tags : List (MultibootTag × UInt32)) : UInt32 :=
  ((tags.filter fun p => p.1.type = type).getLast?.map Prod.snd).getD before

section LaidOut

variable {m : Mem} {a : ℕ} {tags : List MultibootTag}

theorem lastTag_cons (type before : UInt32) (p : MultibootTag × UInt32)
    (tags : List (MultibootTag × UInt32)) :
    lastTag type before (p :: tags) = lastTag type (if p.1.type = type then p.2 else before) tags := by
  by_cases h : p.1.type = type
  · cases hlast : (tags.filter fun p => p.1.type = type).getLast? <;>
      simp [lastTag, h, List.getLast?_cons, hlast]
  · simp [lastTag, h]

/-- What `record` leaves in each field. -/
theorem MultibootTagsInfo.record_eq (info : MultibootTagsInfo) (type tag : UInt32) :
    info.record type tag =
      ⟨if type = 4 then tag else info.basicMeminfo, if type = 5 then tag else info.biosBootdev,
        if type = 3 then tag else info.modules, if type = 9 then tag else info.elfSymbols,
        if type = 6 then tag else info.memoryMap, if type = 14 then tag else info.acpiOld,
        if type = 15 then tag else info.acpiNew⟩ := by
  rw [MultibootTagsInfo.record]
  split_ifs <;> simp_all

theorem LaidOut.fits (h : LaidOut m a tags) : a + 8 ≤ 2 ^ 32 := by
  induction tags generalizing a with
  | nil => exact h.1
  | cons tag tags ih =>
    have := ih h.2.2.2.2
    omega

theorem mask_eight : ∀ i < 32, (~~~7#32).getLsbD i = decide (3 ≤ i) := by decide

/-- The mask of the size rounds it down. -/
theorem toNat_and_not_seven (x : UInt32) : (x &&& ~~~(7 : UInt32)).toNat = x.toNat / 8 * 8 := by
  have hmask : x &&& ~~~(7 : UInt32) = (x >>> 3) <<< 3 := by
    rw [← UInt32.toBitVec_inj]
    show x.toBitVec &&& ~~~7#32 = (x.toBitVec >>> 3) <<< 3
    ext i hi
    rw [← BitVec.getLsbD_eq_getElem, ← BitVec.getLsbD_eq_getElem, BitVec.getLsbD_and, mask_eight i hi,
      BitVec.getLsbD_shiftLeft, BitVec.getLsbD_ushiftRight]
    by_cases h : 3 ≤ i
    · simp [h, hi, Nat.not_lt.mpr h]
    · simp [h, Nat.lt_of_not_le h]
  have hlt := x.toNat_lt
  rw [hmask, UInt32.toNat_shiftLeft, UInt32.toNat_shiftRight]
  show (_ >>> 3) <<< 3 % 2 ^ 32 = _
  rw [Nat.shiftRight_eq_div_pow, Nat.shiftLeft_eq]
  omega

/-- The loop goes on to the next tag of the list. -/
theorem LaidOut.nextTag_eq {tag : MultibootTag} (h : LaidOut m a (tag :: tags)) :
    nextTag (UInt32.ofNat a) tag.size = UInt32.ofNat (a + tag.padded) := by
  have hfits := LaidOut.fits h.2.2.2.2
  have hpadded : ((tag.size + 7) &&& ~~~(7 : UInt32)).toNat = tag.padded := by
    rw [MultibootTag.padded] at hfits ⊢
    have hsum : (tag.size + 7).toNat = tag.size.toNat + 7 := toNat_add_ofNat (i := 7) (by omega)
    rw [toNat_and_not_seven, hsum]
  rw [nextTag, UInt32.ofNat_add, ← hpadded, UInt32.ofNat_toNat]

/-- The loop of `load_tags` over a list of tags. -/
theorem LaidOut.loopM_tagStep {s : Kernel} (h : LaidOut s.mem a tags) {fuel : ℕ}
    (hfuel : tags.length < fuel) :
    ∃ t, loopM .running tagStep fuel (UInt32.ofNat a) s = .ok ⟨⟩ t ∧
      t.tags = ⟨lastTag 4 s.tags.basicMeminfo (placed a tags), lastTag 5 s.tags.biosBootdev (placed a tags),
        lastTag 3 s.tags.modules (placed a tags), lastTag 9 s.tags.elfSymbols (placed a tags),
        lastTag 6 s.tags.memoryMap (placed a tags), lastTag 14 s.tags.acpiOld (placed a tags),
        lastTag 15 s.tags.acpiNew (placed a tags)⟩ ∧
      t.trace = (headersRead a tags).reverse ++ s.trace := by
  induction tags generalizing a s fuel with
  | nil =>
    obtain ⟨fuel, rfl⟩ := Nat.exists_eq_succ_of_ne_zero (Nat.ne_of_gt (Nat.zero_lt_of_lt hfuel))
    exact ⟨_, bind_of_ok (tagStep_of_end h.2), rfl, rfl⟩
  | cons tag tags ih =>
    obtain ⟨fuel, rfl⟩ := Nat.exists_eq_succ_of_ne_zero (Nat.ne_of_gt (Nat.zero_lt_of_lt hfuel))
    have hnext := h.nextTag_eq
    obtain ⟨htype, hsize, hne, -, hrest⟩ := h
    obtain ⟨t, hrun, hinfo, htrace⟩ :=
      ih (s := { s.emit (.tagHeader (UInt32.ofNat a)) with tags := s.tags.record tag.type (UInt32.ofNat a) })
        hrest (Nat.lt_of_succ_lt_succ hfuel)
    have hstep := tagStep_of_tag (s := s) (htype ▸ hne)
    rw [hsize, hnext, htype] at hstep
    refine ⟨t, (bind_of_ok hstep).trans hrun, ?_, ?_⟩
    · rw [hinfo, MultibootTagsInfo.record_eq]
      simp only [placed, lastTag_cons]
    · rw [htrace]
      simp [headersRead]

/-- `load_tags` is the loop, from the first tag on, with the pointers cleared. -/
theorem loadTags_eq_loopM (fuel : ℕ) (addr : UInt32) (s : Kernel) :
    loadTags fuel addr s =
      loopM .running tagStep fuel (UInt32.ofNat (addr.toNat + 8)) { s with
        tags := ⟨0, 0, 0, 0, 0, 0, 0⟩ } := by
  have haddr : UInt32.ofNat (addr.toNat + 8) = addr + 8 := by
    rw [UInt32.ofNat_add, UInt32.ofNat_toNat]
    rfl
  rw [haddr]
  exact bind_of_ok (modify_apply ..)

/-- **`load_tags` over a list of tags** ends, having read the header of each tag once, in their order, and
leaves each of the seven pointers at the last tag of its type, or `NULL` if there is none. -/
theorem loadTags_lastTags {s : Kernel} {addr : UInt32} (h : LaidOut s.mem (addr.toNat + 8) tags) {fuel : ℕ}
    (hfuel : tags.length < fuel) :
    ∃ t, loadTags fuel addr s = .ok ⟨⟩ t ∧
      t.tags = ⟨lastTag 4 0 (placed (addr.toNat + 8) tags), lastTag 5 0 (placed (addr.toNat + 8) tags),
        lastTag 3 0 (placed (addr.toNat + 8) tags), lastTag 9 0 (placed (addr.toNat + 8) tags),
        lastTag 6 0 (placed (addr.toNat + 8) tags), lastTag 14 0 (placed (addr.toNat + 8) tags),
        lastTag 15 0 (placed (addr.toNat + 8) tags)⟩ ∧
      t.trace = (headersRead (addr.toNat + 8) tags).reverse ++ s.trace := by
  rw [loadTags_eq_loopM]
  exact h.loopM_tagStep (s := { s with tags := ⟨0, 0, 0, 0, 0, 0, 0⟩ }) hfuel

/-- A block at `0x1000` with three tags: one of nine bytes, whose contents look like a tag, one of an
unknown type, and another one of the first type. -/
def tagListKernel : Kernel :=
  { Kernel.loaded with
    mem := fun a => ([40, 0, 0, 0, 0, 0, 0, 0, 4, 0, 0, 0, 9, 0, 0, 0, 15, 0, 0, 0, 8, 0, 0, 0,
      77, 0, 0, 0, 8, 0, 0, 0, 4, 0, 0, 0, 8] : List UInt8).getD (a - 0x1000).toNat 0 }

theorem loadTags_lastTags_tagListKernel : ∃ t, loadTags 4 0x1000 tagListKernel = .ok ⟨⟩ t ∧
    t.tags = ⟨0x1020, 0, 0, 0, 0, 0, 0⟩ := by
  have hlist : LaidOut tagListKernel.mem ((0x1000 : UInt32).toNat + 8) [⟨4, 9⟩, ⟨77, 8⟩, ⟨4, 8⟩] := by
    refine ⟨?_, ?_, ?_, ?_, ?_, ?_, ?_, ?_, ?_, ?_, ?_, ?_, ?_, ?_⟩ <;> decide
  obtain ⟨t, hrun, hinfo, -⟩ := loadTags_lastTags hlist (by decide : 3 < 4)
  exact ⟨t, hrun, hinfo⟩

end LaidOut

end JurasOS
