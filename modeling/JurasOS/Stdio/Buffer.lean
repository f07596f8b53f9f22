import JurasOS.Stdio.Items
import JurasOS.Stdio.Keeps

/-!
# `snprintf`

A run with a buffer of `count` bytes writes in these bytes only, for every format and
all arguments. For a well-formed format, that lies off the buffer with all it needs,
the buffer holds what fits of the output, with a NUL, and the length of the whole
output is returned: so a run without a buffer measures how long one must be.
-/

namespace JurasOS

open Machine Text

/-- From `s` to `t` nothing changed but these bytes. -/
def WritesIn (buffer : UInt32) (n : ℕ) (s t : Kernel) : Prop :=
  t = { s with mem := t.mem } ∧ Set.EqOn t.mem s.mem (span buffer n)ᶜ

section WritesIn

variable {buffer maxlen : UInt32} {n : ℕ} {s t u : Kernel}

instance : Std.Refl (WritesIn buffer n) := ⟨fun _ => ⟨rfl, fun _ _ => rfl⟩⟩

instance : IsTrans Kernel (WritesIn buffer n) :=
  ⟨fun _ _ _ h h' => ⟨by rw [h'.1, h.1], h'.2.trans h.2⟩⟩

theorem writesIn_outBuffer (c : UInt8) (idx : UInt32) (s : Kernel) :
    WritesIn buffer maxlen.toNat s (outBuffer c buffer idx maxlen s) := by
  rw [outBuffer]
  by_cases hidx : idx < maxlen
  · rw [if_pos hidx]
    refine ⟨rfl, fun b hb => Mem.store8_of_ne (fun h => hb ?_) _ _⟩
    rw [UInt32.lt_iff_toNat_lt] at hidx
    rwa [h, mem_span, UInt32.add_comm, UInt32.add_sub_cancel]
  · rw [if_neg hidx]
    exact Std.Refl.refl s

theorem writesIn_sinkOf : (sinkOf outBuffer buffer maxlen).Keeps (WritesIn buffer maxlen.toNat) := by
  intro c idx s
  by_cases hnull : buffer = 0
  · rw [sinkOf, if_pos hnull]
    exact Std.Refl.refl s
  · rw [sinkOf, if_neg hnull]
    exact writesIn_outBuffer c idx s

end WritesIn

/-- **`snprintf` writes in its buffer only**: for every format and all arguments, and whether the run
ends or not. -/
theorem snprintf_writesIn (fl : Floats) (fuel : ℕ) (buffer count format va : UInt32) (s : Kernel) :
    WritesIn buffer count.toNat s (stop (snprintf fl fuel buffer count format va s)) :=
  vsnprintf_along fl fuel outBuffer buffer count format va writesIn_sinkOf s

/-! ### What the buffer holds -/

/-- The byte of a buffer of `n` bytes that characters are put out to from index `i` on. -/
def bufferByte (m : Mem) (buffer : UInt32) (n i : ℕ) (cs : List UInt8) (a : UInt32) : UInt8 :=
  let k := (a - buffer).toNat
  if i ≤ k ∧ k < i + cs.length ∧ k < n then cs.getD (k - i) 0 else m a

section buffer

variable {buffer maxlen format va : UInt32} {s t : Kernel} {cs : List UInt8} {fl : Floats} {items : List Item}

/-- The byte that is written lies at the index, if that is in the buffer. -/
theorem outBuffer_mem (c : UInt8) (idx : UInt32) (b : UInt32) : (outBuffer c buffer idx maxlen s).mem b =
    if (b - buffer).toNat = idx.toNat ∧ idx.toNat < maxlen.toNat then c else s.mem b := by
  rw [outBuffer]
  by_cases hidx : idx < maxlen
  · have hidx' := UInt32.lt_iff_toNat_lt.mp hidx
    rw [if_pos hidx]
    by_cases hb : (b - buffer).toNat = idx.toNat
    · have haddr := (sub_toNat_eq idx.toNat_lt).mp hb
      rw [UInt32.ofNat_toNat] at haddr
      rw [if_pos ⟨hb, hidx'⟩, haddr]
      exact Mem.store8_self ..
    · rw [if_neg fun h => hb h.1]
      refine Mem.store8_of_ne (fun h => hb ?_) _ _
      rw [h, UInt32.add_comm, UInt32.add_sub_cancel]
  · rw [if_neg hidx, if_neg]
    rw [UInt32.lt_iff_toNat_lt] at hidx
    exact fun h => hidx h.2

theorem feed_outBuffer_mem {idx : UInt32} (hlen : idx.toNat + cs.length < 2 ^ 32) (a : UInt32) :
    (Sink.feed ⟨outBuffer, buffer, maxlen⟩ idx cs s).mem a =
      bufferByte s.mem buffer maxlen.toNat idx.toNat cs a := by
  induction cs generalizing idx s with
  | nil =>
    rw [bufferByte, if_neg (by rw [List.length_nil]; omega)]
    rfl
  | cons c cs ih =>
    rw [List.length_cons] at hlen
    have hnext : (idx + 1).toNat = idx.toNat + 1 := toNat_add_one (by omega)
    rw [Sink.feed, ih (by omega), bufferByte, bufferByte, hnext, List.length_cons]
    show (if _ then _ else (outBuffer c buffer idx maxlen s).mem a) = _
    rw [outBuffer_mem]
    by_cases hin : idx.toNat + 1 ≤ (a - buffer).toNat ∧ (a - buffer).toNat < idx.toNat + 1 + cs.length ∧
        (a - buffer).toNat < maxlen.toNat
    · have hsucc : (a - buffer).toNat - idx.toNat = (a - buffer).toNat - (idx.toNat + 1) + 1 := by omega
      rw [if_pos hin, if_pos (by omega), hsucc, List.getD_cons_succ]
    · rw [if_neg hin]
      by_cases hhere : (a - buffer).toNat = idx.toNat
      · rw [hhere, Nat.sub_self, List.getD_cons_zero]
        exact if_congr (by omega) rfl rfl
      · rw [if_neg fun h => hhere h.1, if_neg (by omega)]

/-- The bytes from an address on are those of a list when each of them is. -/
theorem bytes_of_getD {m : Mem} {bs : List UInt8} {a : UInt32}
    (h : ∀ i < bs.length, m (a + UInt32.ofNat i) = bs.getD i 0) : m.Bytes a bs := by
  induction bs generalizing a with
  | nil => trivial
  | cons b bs ih =>
    refine ⟨by simpa using h 0 (by simp), ih fun i hi => ?_⟩
    have := h (i + 1) (by rw [List.length_cons]; omega)
    rwa [add_ofNat_succ, List.getD_cons_succ] at this

/-- A buffer after a run: what fits of the output, and a NUL. -/
theorem terminate_outBuffer_mem (hlen : cs.length < 2 ^ 32) (hcount : maxlen ≠ 0) (a : UInt32) :
    (Sink.terminate ⟨outBuffer, buffer, maxlen⟩ (UInt32.ofNat cs.length)
      (Sink.feed ⟨outBuffer, buffer, maxlen⟩ 0 cs s)).mem a =
      if (a - buffer).toNat = min cs.length (maxlen.toNat - 1) then 0
      else bufferByte s.mem buffer maxlen.toNat 0 cs a := by
  have hpos : maxlen.toNat ≠ 0 := fun h => hcount (UInt32.toNat_inj.mp h)
  have hone : (1 : UInt32) ≤ maxlen := by
    rw [UInt32.le_iff_toNat_le, UInt32.toNat_one]
    omega
  have hindex : (UInt32.ofNat cs.length).toNat = cs.length := by
    rw [UInt32.toNat_ofNat']
    omega
  have hlast : (if UInt32.ofNat cs.length < maxlen then UInt32.ofNat cs.length else maxlen - 1).toNat =
      min cs.length (maxlen.toNat - 1) := by
    by_cases hfits : UInt32.ofNat cs.length < maxlen
    · rw [if_pos hfits]
      rw [UInt32.lt_iff_toNat_lt] at hfits
      omega
    · rw [if_neg hfits, UInt32.toNat_sub_of_le _ _ hone, UInt32.toNat_one]
      rw [UInt32.lt_iff_toNat_lt] at hfits
      omega
  have hzero : (0 : UInt32).toNat = 0 := rfl
  show (outBuffer 0 buffer _ maxlen _).mem a = _
  rw [outBuffer_mem, hlast, feed_outBuffer_mem (by omega), hzero]
  exact if_congr (by omega) rfl rfl

theorem terminate_outBuffer_bytes (hlen : cs.length < 2 ^ 32) (hcount : maxlen ≠ 0) :
    (Sink.terminate ⟨outBuffer, buffer, maxlen⟩ (UInt32.ofNat cs.length)
      (Sink.feed ⟨outBuffer, buffer, maxlen⟩ 0 cs s)).mem.Bytes buffer (cs.take (maxlen.toNat - 1) ++ [0]) := by
  have hlt := maxlen.toNat_lt
  refine bytes_of_getD fun i hi => ?_
  rw [List.length_append, List.length_take, List.length_singleton] at hi
  have hoff : (buffer + UInt32.ofNat i - buffer).toNat = i := (sub_toNat_eq (by omega)).mpr rfl
  rw [terminate_outBuffer_mem hlen hcount, bufferByte, hoff, List.getD_eq_getElem?_getD,
    List.getD_eq_getElem?_getD, List.getElem?_append, List.length_take]
  by_cases hlast : i = min cs.length (maxlen.toNat - 1)
  · rw [if_pos hlast, if_neg (by omega), hlast, Nat.min_comm, Nat.sub_self]
    rfl
  · rw [if_neg hlast, if_pos (by omega), if_pos (by omega), List.getElem?_take_of_lt (by omega),
      Nat.sub_zero]

/-- A format that lies off the buffer stays as its output is put there. -/
theorem holds_feed (h : HoldsFormat s.mem format va items)
    (hoff : Disjoint (formatPlaces format va items) (span buffer maxlen.toNat)) (cs : List UInt8) :
    HoldsFormat ((sinkOf outBuffer buffer maxlen).feed 0 cs s).mem format va items :=
  h.congr ((writesIn_sinkOf.feed 0 cs s).2.mono fun _ ha => Set.disjoint_left.mp hoff ha)

/-- A run with a buffer, of a format that lies off it: its output is put out to the buffer, and a NUL. -/
theorem snprintf_eq {fuel : ℕ} (hfuel : formatSize items < fuel) (hnull : buffer ≠ 0)
    (h : HoldsFormat s.mem format va items)
    (hoff : Disjoint (formatPlaces format va items) (span buffer maxlen.toNat)) :
    snprintf fl fuel buffer maxlen format va s = .ok (UInt32.ofNat (formatChars fl items).length)
      (Sink.terminate ⟨outBuffer, buffer, maxlen⟩ (UInt32.ofNat (formatChars fl items).length)
        (Sink.feed ⟨outBuffer, buffer, maxlen⟩ 0 (formatChars fl items) s)) := by
  have hsink : sinkOf outBuffer buffer maxlen = ⟨outBuffer, buffer, maxlen⟩ := by
    rw [sinkOf, if_neg hnull]
  have hrun := vsnprintf_prints fl items hfuel outBuffer buffer maxlen format va s
    fun cs _ => holds_feed h hoff cs
  rwa [hsink] at hrun

/-- The bytes of a buffer that has room for the output and a NUL. -/
theorem snprintf_bytes {fuel : ℕ} (hfuel : formatSize items < fuel) (hnull : buffer ≠ 0)
    (h : HoldsFormat s.mem format va items)
    (hoff : Disjoint (formatPlaces format va items) (span buffer maxlen.toNat))
    (hroom : (formatChars fl items).length < maxlen.toNat) :
    ∃ t, snprintf fl fuel buffer maxlen format va s = .ok (UInt32.ofNat (formatChars fl items).length) t ∧
      t.mem.Bytes buffer (formatChars fl items ++ [0]) := by
  have hlt := maxlen.toNat_lt
  have hne : maxlen ≠ 0 := by
    rintro rfl
    exact Nat.not_lt_zero _ hroom
  refine ⟨_, snprintf_eq hfuel hnull h hoff, ?_⟩
  convert terminate_outBuffer_bytes (s := s) (hroom.trans hlt) hne using 2
  exact (List.take_of_length_le (by omega)).symm

end buffer

/-- **What `snprintf` leaves**: of a well-formed format that lies off the buffer, as many characters as
fit before a NUL, and the length of them all is returned. No byte after the NUL is written. -/
theorem snprintf_prints (fl : Floats) (items : List Item) {fuel : ℕ} (hfuel : formatSize items < fuel)
    (buffer count format va : UInt32) (s : Kernel) (hnull : buffer ≠ 0)
    (hlen : (formatChars fl items).length < 2 ^ 32) (h : HoldsFormat s.mem format va items)
    (hoff : Disjoint (formatPlaces format va items) (span buffer count.toNat)) :
    ∃ t, snprintf fl fuel buffer count format va s = .ok (UInt32.ofNat (formatChars fl items).length) t ∧
      WritesIn buffer (min ((formatChars fl items).length + 1) count.toNat) s t ∧
      (count ≠ 0 → t.mem.Bytes buffer ((formatChars fl items).take (count.toNat - 1) ++ [0])) := by
  have hrun : snprintf fl fuel buffer count format va s = _ := snprintf_eq hfuel hnull h hoff
  have hall := vsnprintf_along fl fuel outBuffer buffer count format va writesIn_sinkOf s
  rw [snprintf] at hrun
  rw [hrun] at hall
  refine ⟨_, hrun, ⟨hall.1, fun a ha => ?_⟩, fun hcount => terminate_outBuffer_bytes hlen hcount⟩
  by_cases hcount : count = 0
  · exact hall.2 (by rw [hcount, Set.mem_compl_iff, mem_span]; exact Nat.not_lt_zero _)
  · rw [Set.mem_compl_iff, mem_span] at ha
    have hpos : count.toNat ≠ 0 := fun h => hcount (UInt32.toNat_inj.mp h)
    rw [terminate_outBuffer_mem hlen hcount, bufferByte, if_neg (by omega), if_neg (by omega)]

/-- Of eight characters and a NUL five fit a buffer of six bytes. -/
theorem snprintf_prints_answer :
    ∃ t, snprintf noFloats 100 0x5000 6 0x1000 0x2000 answerKernel = .ok 8 t ∧
      WritesIn 0x5000 6 answerKernel t ∧ t.mem.Bytes 0x5000 (bytes "   42" ++ [0]) := by
  have hoff : Disjoint (formatPlaces 0x1000 0x2000 answerItems) (span 0x5000 (6 : UInt32).toNat) :=
    (disjoint_span (by decide) (by decide) (by decide)).mono_left answer_places
  obtain ⟨t, hrun, hwrites, hbytes⟩ := snprintf_prints noFloats answerItems (by decide : _ < 100) 0x5000 6
    0x1000 0x2000 answerKernel (by decide) (by rw [answer_chars]; decide) holds_answer hoff
  rw [answer_chars] at hrun hwrites hbytes
  exact ⟨t, hrun, hwrites, hbytes (by decide)⟩

/-- **A run without a buffer measures the output**: it changes nothing, and a buffer of one byte more
than it returns holds the whole output of a second run. -/
theorem snprintf_measures (fl : Floats) (items : List Item) {fuel : ℕ} (hfuel : formatSize items < fuel)
    (buffer format va : UInt32) (s : Kernel) (hnull : buffer ≠ 0)
    (hlen : (formatChars fl items).length + 1 < 2 ^ 32) (h : HoldsFormat s.mem format va items)
    (hoff : Disjoint (formatPlaces format va items) (span buffer ((formatChars fl items).length + 1))) :
    ∃ n t, snprintf fl fuel 0 0 format va s = .ok n s ∧
      snprintf fl fuel buffer (n + 1) format va s = .ok n t ∧
      t.mem.Bytes buffer (formatChars fl items ++ [0]) := by
  have hnothing : ∀ idx cs, Sink.feed ⟨outNull, 0, 0⟩ idx cs s = s := by
    intro idx cs
    induction cs generalizing idx with
    | nil => rfl
    | cons c cs ih => exact ih _
  have hmeasure : snprintf fl fuel 0 0 format va s = .ok (UInt32.ofNat (formatChars fl items).length) s := by
    refine (vsnprintf_prints fl items hfuel outBuffer 0 0 format va s fun cs _ => ?_).trans ?_
    · exact (hnothing 0 cs).symm ▸ h
    · exact congrArg (EStateM.Result.ok _) (hnothing 0 _)
  have hcount : (UInt32.ofNat (formatChars fl items).length + 1).toNat = (formatChars fl items).length + 1 := by
    rw [UInt32.toNat_add, UInt32.toNat_ofNat', UInt32.toNat_one]
    omega
  have hroom : (formatChars fl items).length < (UInt32.ofNat (formatChars fl items).length + 1).toNat := by
    rw [hcount]
    exact Nat.lt_succ_self _
  obtain ⟨t, hrun, hbytes⟩ := snprintf_bytes hfuel hnull h (by rwa [hcount]) hroom
  exact ⟨_, t, hmeasure, hrun, hbytes⟩

theorem snprintf_measures_answer :
    ∃ n t, snprintf noFloats 100 0 0 0x1000 0x2000 answerKernel = .ok n answerKernel ∧
      snprintf noFloats 100 0x5000 (n + 1) 0x1000 0x2000 answerKernel = .ok n t ∧
      t.mem.Bytes 0x5000 (bytes "   42|ok" ++ [0]) := by
  have hlen : (formatChars noFloats answerItems).length + 1 = 9 := by
    rw [answer_chars]
    decide
  have hoff : Disjoint (formatPlaces 0x1000 0x2000 answerItems) (span 0x5000 9) :=
    (disjoint_span (by decide) (by decide) (by decide)).mono_left answer_places
  rw [← answer_chars]
  exact snprintf_measures noFloats answerItems (by decide) 0x5000 0x1000 0x2000 answerKernel (by decide)
    (by rw [hlen]; decide) holds_answer (by rwa [hlen])

end JurasOS
