import JurasOS.Kernel.State

/-!
# `tags.c`

`load_tags` walks the tags of the boot information to the end tag, and keeps a
pointer to the last tag of each kind it knows.
-/

namespace JurasOS

open Machine

/-- The branches of `load_tags` on the type of a tag. -/
def MultibootTagsInfo.record (info : MultibootTagsInfo) (type tag : UInt32) : MultibootTagsInfo :=
  if type = 4 then { info with basicMeminfo := tag } -- MULTIBOOT_TAG_TYPE_BASIC_MEMINFO
  else if type = 5 then { info with biosBootdev := tag } -- MULTIBOOT_TAG_TYPE_BOOTDEV
  else if type = 3 then { info with modules := tag } -- MULTIBOOT_TAG_TYPE_MODULE
  else if type = 9 then { info with elfSymbols := tag } -- MULTIBOOT_TAG_TYPE_ELF_SECTIONS
  else if type = 6 then { info with memoryMap := tag } -- MULTIBOOT_TAG_TYPE_MMAP
  else if type = 14 then { info with acpiOld := tag } -- MULTIBOOT_TAG_TYPE_ACPI_OLD
  else if type = 15 then { info with acpiNew := tag } -- MULTIBOOT_TAG_TYPE_ACPI_NEW
  else info

/-- The address of the tag after one of this size. -/
def nextTag (tag size : UInt32) : UInt32 := tag + ((size + 7) &&& ~~~7)

/-- An iteration of the loop of `load_tags`. -/
def tagStep (tag : UInt32) : KernelM (UInt32 ⊕ PUnit) := do
  modify (Kernel.emit (.tagHeader tag))
  let s ← get
  let type := s.mem.load32 tag
  if type = 0 then pure (.inr ⟨⟩) -- MULTIBOOT_TAG_TYPE_END
  else
    modify fun s => { s with tags := s.tags.record type tag }
    pure (.inl (nextTag tag (s.mem.load32 (tag + 4))))

/-- `load_tags`, on the kernel's own `tags`. -/
def loadTags (fuel : ℕ) (addr : UInt32) : KernelM PUnit := do
  modify fun s => { s with tags := ⟨0, 0, 0, 0, 0, 0, 0⟩ }
  loopM .running tagStep fuel (addr + 8)

/-- What is found from a tag on, within `n` tags. -/
def tagsFrom (m : Mem) : ℕ → UInt32 → MultibootTagsInfo → Option MultibootTagsInfo
  | 0, _, _ => none
  | n + 1, tag, info =>
    if m.load32 tag = 0 then some info
    else tagsFrom m n (nextTag tag (m.load32 (tag + 4))) (info.record (m.load32 tag) tag)

section loadTags

variable {s t : Kernel} {addr tag : UInt32} {fuel : ℕ}

theorem tagStep_of_end (h : s.mem.load32 tag = 0) :
    tagStep tag s = .ok (.inr ⟨⟩) (s.emit (.tagHeader tag)) := by
  rw [tagStep, bind_of_ok (modify_apply ..), bind_of_ok (get_apply _), Kernel.emit_mem, if_pos h, pure_apply]

theorem tagStep_of_tag (h : s.mem.load32 tag ≠ 0) :
    tagStep tag s = .ok (.inl (nextTag tag (s.mem.load32 (tag + 4))))
      { s.emit (.tagHeader tag) with tags := s.tags.record (s.mem.load32 tag) tag } := by
  rw [tagStep, bind_of_ok (modify_apply ..), bind_of_ok (get_apply _), Kernel.emit_mem, if_neg h]
  rfl

theorem loopM_tagStep {info : MultibootTagsInfo} (h : tagsFrom s.mem fuel tag s.tags = some info) :
    ∃ t, loopM .running tagStep fuel tag s = .ok ⟨⟩ t ∧ t.tags = info := by
  induction fuel generalizing tag s with
  | zero => cases h
  | succ fuel ih =>
    rw [tagsFrom] at h
    split at h
    · next hend =>
      cases h
      exact ⟨_, bind_of_ok (tagStep_of_end hend), rfl⟩
    · next htag =>
      obtain ⟨t, ht, hinfo⟩ :=
        ih (s := { s.emit (.tagHeader tag) with tags := s.tags.record (s.mem.load32 tag) tag }) h
      exact ⟨t, (bind_of_ok (tagStep_of_tag htag)).trans ht, hinfo⟩

/-- `load_tags` finds the tags, if it comes to the end tag. -/
theorem loadTags_ok {info : MultibootTagsInfo} (addr : UInt32)
    (h : tagsFrom s.mem fuel (addr + 8) ⟨0, 0, 0, 0, 0, 0, 0⟩ = some info) :
    ∃ t, loadTags fuel addr s = .ok ⟨⟩ t ∧ t.tags = info := by
  rw [loadTags, bind_of_ok (modify_apply ..)]
  exact loopM_tagStep h

/-- Only the tags, and the trace, changed. -/
def TagsChanged (s t : Kernel) : Prop := t = { s with tags := t.tags, trace := t.trace }

instance : Std.Refl TagsChanged := ⟨fun _ => rfl⟩

instance : IsTrans Kernel TagsChanged := ⟨fun s t u h h' => by rw [TagsChanged, h', h]⟩

/-- An iteration goes along a relation that writing down a tag goes along. -/
theorem tagStep_along {R : Kernel → Kernel → Prop} [Std.Refl R] [IsTrans Kernel R]
    (hemit : ∀ s tag, R s (s.emit (.tagHeader tag)))
    (htags : ∀ (s : Kernel) tags, R s { s with tags := tags }) (tag : UInt32) : Along R (tagStep tag) := by
  refine Along.bind (Along.modify fun s => hemit s tag) fun _ => Along.bind Along.get fun s => ?_
  exact (Along.pure _).ite (Along.bind (Along.modify fun s => htags s _) fun _ => Along.pure _)

/-- And so does the loop. -/
theorem loadTags_along {R : Kernel → Kernel → Prop} [Std.Refl R] [IsTrans Kernel R]
    (hemit : ∀ s tag, R s (s.emit (.tagHeader tag)))
    (htags : ∀ (s : Kernel) tags, R s { s with tags := tags }) (fuel : ℕ) (addr : UInt32) :
    Along R (loadTags fuel addr) :=
  Along.bind (Along.modify fun s => htags s _) fun _ => Along.loopM (tagStep_along hemit htags) fuel _

theorem loadTags_same (h : loadTags fuel addr s = .ok ⟨⟩ t) : TagsChanged s t :=
  (loadTags_along (R := TagsChanged) (fun _ _ => rfl) (fun _ _ => rfl) fuel addr).of_ok h

theorem loadTags_emits : Along (Emits fun e => ∃ tag, e = .tagHeader tag) (loadTags fuel addr) :=
  loadTags_along (fun s tag => emits_emit ⟨tag, rfl⟩ s) (fun _ _ => Emits.of_trace rfl) fuel addr

/-! ### Where the walk ends -/

/-- A list of tags from `tag` on, with each tag where `In` says: the end tag, or a tag and the list
after it. -/
inductive TagsIn (m : Mem) (In : UInt32 → Prop) : UInt32 → Prop
  /-- The end tag. -/
  | last {tag : UInt32} : In tag → m.load32 tag = 0 → TagsIn m In tag
  /-- A tag, and the list after it. -/
  | next {tag : UInt32} : In tag → m.load32 tag ≠ 0 → TagsIn m In (nextTag tag (m.load32 (tag + 4))) →
      TagsIn m In tag

/-- The header of a tag that was read is where `In` says. -/
def HeaderIn (In : UInt32 → Prop) (e : Event) : Prop := ∀ tag, e = .tagHeader tag → In tag

/-- The header of the tag, of eight bytes, is in the information block at `addr`, whose first word
is its size. -/
def InBlock (m : Mem) (addr tag : UInt32) : Prop :=
  addr.toNat ≤ tag.toNat ∧ tag.toNat + 8 ≤ addr.toNat + (m.load32 addr).toNat

theorem tagStep_goesOn (tag : UInt32) : Along GoesOn (tagStep tag) :=
  tagStep_along (fun s _ => emits_emit trivial s) (fun _ _ => Emits.of_trace rfl) tag

/-- The loop ends, having read headers where `In` says, exactly when there is a list of tags there. -/
theorem loopM_tagStep_iff {In : UInt32 → Prop} :
    (∃ fuel t, loopM .running tagStep fuel tag s = .ok ⟨⟩ t ∧ Emits (HeaderIn In) s t) ↔
    TagsIn s.mem In tag := by
  constructor
  · rintro ⟨fuel, t, hrun, hin⟩
    induction fuel generalizing tag s with
    | zero => cases hrun
    | succ fuel ih =>
      by_cases hend : s.mem.load32 tag = 0
      · have hrun' := (bind_of_ok (tagStep_of_end hend)).symm.trans hrun
        cases hrun'
        exact .last ((Emits.of_first rfl (Emits.refl _) hin).1 tag rfl) hend
      · have hrun' : loopM .running tagStep fuel (nextTag tag (s.mem.load32 (tag + 4)))
            { s.emit (.tagHeader tag) with tags := s.tags.record (s.mem.load32 tag) tag } = .ok ⟨⟩ t :=
          (bind_of_ok (tagStep_of_tag hend)).symm.trans hrun
        have hrest := (Along.loopM tagStep_goesOn fuel _).of_ok hrun'
        obtain ⟨hhead, htail⟩ := Emits.of_first rfl hrest hin
        have hlist := ih hrun' htail
        exact .next (hhead tag rfl) hend hlist
  · intro h
    obtain ⟨m, hm⟩ : ∃ m, m = s.mem := ⟨_, rfl⟩
    rw [← hm] at h
    induction h generalizing s with
    | @last tag htag hend =>
      subst hm
      exact ⟨1, _, bind_of_ok (tagStep_of_end hend), emits_emit (by rintro _ ⟨⟩; exact htag) s⟩
    | @next tag htag hne _ ih =>
      subst hm
      obtain ⟨fuel, t, hrun, hin⟩ :=
        ih (s := { s.emit (.tagHeader tag) with tags := s.tags.record (s.mem.load32 tag) tag }) rfl
      refine ⟨fuel + 1, t, (bind_of_ok (tagStep_of_tag hne)).trans hrun, Emits.trans ?_ hin⟩
      exact ⟨[.tagHeader tag], rfl, fun e he => by rw [List.mem_singleton.mp he]; rintro _ ⟨⟩; exact htag⟩

/-- **`load_tags` ends, and reads tag headers in the information block only, exactly when** the block holds
a list of tags: each with its header in the block, and the last one an end tag. The size of the block is
never read. -/
theorem loadTags_ends_iff (s : Kernel) (addr : UInt32) :
    (∃ fuel t, loadTags fuel addr s = .ok ⟨⟩ t ∧ Emits (HeaderIn (InBlock s.mem addr)) s t) ↔
      TagsIn s.mem (InBlock s.mem addr) (addr + 8) := by
  rw [← loopM_tagStep_iff (s := { s with tags := ⟨0, 0, 0, 0, 0, 0, 0⟩ })]
  refine exists_congr fun fuel => exists_congr fun t => ?_
  rw [loadTags, bind_of_ok (modify_apply ..)]
  rfl

/-- A block of sixteen bytes at `0x1000`, with one tag, of this type and of no size. -/
def blockKernel (type : UInt8) : Kernel :=
  { Kernel.loaded with
    mem := fun a => ([16, 0, 0, 0, 0, 0, 0, 0, type] : List UInt8).getD (a - 0x1000).toNat 0 }

/-- A tag of size zero is its own successor. -/
theorem loadTags_never_ends : ¬ ∃ fuel t, loadTags fuel 0x1000 (blockKernel 1) = .ok ⟨⟩ t := by
  rintro ⟨fuel, t, hrun⟩
  have hnone : ∀ tag, TagsIn (blockKernel 1).mem (fun _ => True) tag → tag ≠ 0x1008 := by
    intro tag htags
    induction htags with
    | last _ hend =>
      rintro rfl
      exact absurd hend (by decide)
    | next _ _ _ ih =>
      rintro rfl
      exact ih (by decide)
  rw [loadTags, bind_of_ok (modify_apply ..)] at hrun
  have htags :=
    loopM_tagStep_iff.mp ⟨fuel, t, hrun,
    (Along.loopM tagStep_goesOn fuel _).of_ok hrun |>.mono fun _ _ _ _ => trivial⟩
  exact hnone _ htags (by decide)

end loadTags

end JurasOS
