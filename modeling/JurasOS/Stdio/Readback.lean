import JurasOS.Stdio.Buffer
import JurasOS.Stdio.Hash

/-!
# Reading back what a directive prints

What the specifiers `d`, `i`, `u`, `x`, `X` and `p` put out is read back as the number
of the argument, and is as wide as the field, but where the buffer of a conversion is
too short: each theorem says exactly where. The lengths `ll` and `j` have no support in
the library as it is built: their numbers are not put out at all.
-/

namespace JurasOS

open Machine Text

section integers

variable {c : UInt8} {flags : Flags} {arg : UInt32}

theorem intValue_lt (c : UInt8) (flags : Flags) (arg : UInt32) : (intValue c flags arg).natAbs < 10 ^ 10 := by
  have hlt := arg.toNat_lt
  have hsigned := arg.toInt32.le_toInt
  have hsigned' := arg.toInt32.toInt_lt
  have hshort := (signedArg flags arg).le_toInt
  have hshort' := (signedArg flags arg).toInt_lt
  have hunsigned := (unsignedArg flags arg).toNat_lt
  rw [intValue]
  split_ifs <;> omega

theorem intValue_nonneg (hc : isSigned c = false) : 0 ≤ intValue c flags arg := by
  rw [intValue, hc]
  split_ifs <;> first | exact Int.natCast_nonneg _ | contradiction

theorem intFlags_left : (intFlags c flags).left = flags.left := by
  rw [intFlags]
  split_ifs <;> rfl

theorem intFlags_precision : (intFlags c flags).precision = flags.precision := by
  rw [intFlags]
  split_ifs <;> rfl

theorem intFlags_zeropad : (intFlags c flags).zeropad = (flags.zeropad && !flags.precision) := by
  rw [intFlags]
  split_ifs with _ _ _ h <;> simp_all

theorem intFlags_hash (hdec : intBase c = 10) : (intFlags c flags).hash = false := by
  rw [intFlags, if_pos hdec]
  split_ifs <;> rfl

theorem intFlags_hex (hhex : intBase c = 16) : isSigned c = false ∧ (intFlags c flags).hash = flags.hash ∧
    (intFlags c flags).plus = false ∧ (intFlags c flags).space = false := by
  have hsigned : isSigned c = false := by
    by_contra h
    rw [Bool.not_eq_false, isSigned, Bool.or_eq_true, decide_eq_true_eq, decide_eq_true_eq] at h
    rcases h with rfl | rfl <;> exact absurd hhex (by decide)
  have hten : ¬ intBase c = 10 := by
    rw [hhex]
    decide
  simp only [intFlags, hten, hsigned, if_false, Bool.not_false, if_true]
  refine ⟨trivial, ?_, ?_, ?_⟩ <;> split_ifs <;> rfl

end integers

/-- The digits of a number below `10 ^ 10` are fewer than the buffer takes. -/
theorem length_valueDigits_lt {value : ℕ} (hvalue : value < 10 ^ 10) (flags : Flags) :
    (valueDigits value 10 flags).length < 32 := by
  by_cases hzero : value = 0
  · rw [hzero, valueDigits, someDigits_zero]
    split_ifs <;> decide
  · have hlen : (Nat.digits 10 value).length ≤ 10 := (Nat.digits_length_le_iff (by decide) value).mpr hvalue
    rw [length_valueDigits (by decide) hzero (by omega)]
    omega

section directive

variable (fl : Floats) (d : Directive)

/-- The buffer of a conversion has no room for the sign: the digits, with their zeros, fill it. -/
def Directive.NoRoom : Prop :=
  d.evalFlags.left = false ∧ (32 ≤ d.evalPrecision.2.toNat ∨
    d.evalFlags.zeropad = true ∧ d.evalFlags.precision = false ∧ 33 ≤ d.evalWidth.2.toNat)

theorem paddedLength_full {n : ℕ} (hn : n < 32) {c : UInt8} :
    32 ≤ paddedLength n true d.evalPrecision.2 d.evalWidth.2 (intFlags c d.evalFlags) ↔ d.NoRoom := by
  rw [paddedLength, Directive.NoRoom, intFlags_left, intFlags_zeropad, zeroWidth, if_pos (Or.inl rfl)]
  cases d.evalFlags.left with
  | true => simp [hn]
  | false =>
    cases d.evalFlags.zeropad <;> cases d.evalFlags.precision <;> simp <;> omega

/-- Of a number with the length `ll` or `j` nothing is put out. -/
theorem chars_longLong (c : {c // c ∈ bytes "diuxXob"}) (arg : UInt32) (hconv : d.conv = .int c arg)
    (hlong : d.evalFlags.longLong = true) : d.chars fl = [] := by
  rw [Directive.chars, hconv, Conv.chars, if_pos hlong]

theorem chars_int (c : {c // c ∈ bytes "diuxXob"}) (arg : UInt32) (hconv : d.conv = .int c arg)
    (hlong : d.evalFlags.longLong = false) :
    d.chars fl = ntoaChars (intValue c.1 d.evalFlags arg).natAbs (intValue c.1 d.evalFlags arg < 0)
      (intBase c.1) d.evalPrecision.2 d.evalWidth.2 (intFlags c.1 d.evalFlags) := by
  rw [Directive.chars, hconv, Conv.chars, if_neg (Bool.eq_false_iff.mp hlong)]

/-- **A decimal number is read back**, whatever the flags, the width and the precision are: unless it is
negative, and the buffer has no room for its sign. -/
theorem readInt_directive (c : {c // c ∈ bytes "diuxXob"}) (arg : UInt32) (hconv : d.conv = .int c arg)
    (hdec : intBase c.1 = 10) (hlong : d.evalFlags.longLong = false) :
    readInt 10 (d.chars fl) = intValue c.1 d.evalFlags arg ↔
      ¬ (intValue c.1 d.evalFlags arg < 0 ∧ d.NoRoom) := by
  obtain ⟨v, hv⟩ : ∃ v, v = intValue c.1 d.evalFlags arg := ⟨_, rfl⟩
  have hlt : v.natAbs < 10 ^ 10 := hv ▸ intValue_lt c.1 d.evalFlags arg
  have hchars : d.chars fl = ntoaChars v.natAbs (v < 0) 10 d.evalPrecision.2 d.evalWidth.2
      (intFlags c.1 d.evalFlags) := by
    rw [chars_int fl d c arg hconv hlong, ← hv, hdec]
  have hread := readInt_ntoaChars v.natAbs (v < 0) 10 d.evalPrecision.2 d.evalWidth.2 (intFlags c.1 d.evalFlags)
    (by decide) (intFlags_hash hdec) (hlt.trans (by decide))
  have hten : (10 : UInt32).toNat = 10 := rfl
  rw [hten] at hread
  rw [← hv, hchars]
  by_cases hneg : v < 0
  · have hne : v.natAbs ≠ 0 := by omega
    have habs : -(v.natAbs : ℤ) = v := by omega
    rw [decide_eq_true hneg, if_pos rfl, habs, paddedLength_full d (length_valueDigits_lt hlt _)] at hread
    rw [decide_eq_true hneg, hread]
    simp [hneg, hne]
  · have habs : (v.natAbs : ℤ) = v := by omega
    rw [decide_eq_false hneg, if_neg Bool.false_ne_true, habs] at hread
    rw [decide_eq_false hneg, hread]
    simp [hneg]

/-- **A number with a hash is read back** exactly when its prefix fits its field. -/
theorem readHex_directive (c : {c // c ∈ bytes "diuxXob"}) (arg : UInt32) (hconv : d.conv = .int c arg)
    (hhex : intBase c.1 = 16) (hlong : d.evalFlags.longLong = false) (hhash : d.evalFlags.hash = true)
    (hprec : d.evalFlags.precision = false) (hvalue : intValue c.1 d.evalFlags arg ≠ 0) :
    readHex (d.chars fl) = some (intValue c.1 d.evalFlags arg).natAbs ↔
      HexFits (Nat.digits 16 (intValue c.1 d.evalFlags arg).natAbs).length d.evalWidth.2 d.evalFlags := by
  obtain ⟨v, hv⟩ : ∃ v, v = intValue c.1 d.evalFlags arg := ⟨_, rfl⟩
  obtain ⟨hsigned, hhash', hsign⟩ := @intFlags_hex c.1 d.evalFlags hhex
  have hneg : ¬ v < 0 := not_lt.mpr (hv ▸ intValue_nonneg hsigned)
  have hlt : v.natAbs < 10 ^ 10 := hv ▸ intValue_lt c.1 d.evalFlags arg
  have hchars : d.chars fl = ntoaChars v.natAbs false 16 0 d.evalWidth.2 (intFlags c.1 d.evalFlags) := by
    rw [chars_int fl d c arg hconv hlong, ← hv, hhex, decide_eq_false hneg,
      d.evalPrecision_of_not_precision hprec]
  rw [hchars, ← hv, readHex_ntoaChars v.natAbs _ _ (by omega) (hlt.trans (by decide)) (by rw [hhash', hhash])
    (by rw [intFlags_precision, hprec]) hsign, HexFits, HexFits, intFlags_zeropad, intFlags_left, hprec]
  simp

/-- **A pointer with a hash loses its digits**: its field of eight is full of them. -/
theorem readHex_pointer (arg : UInt32) (hconv : d.conv = .ptr arg) (hhash : d.evalFlags.hash = true)
    (hprec : d.evalFlags.precision = false) (hsign : d.evalFlags.plus = false ∧ d.evalFlags.space = false)
    (harg : arg ≠ 0) :
    readHex (d.chars fl) = some arg.toNat ↔
      if d.evalFlags.left then arg.toNat < 2 ^ 28 else arg.toNat < 2 ^ 24 := by
  have hlt := arg.toNat_lt
  have hne : arg.toNat ≠ 0 := fun h => harg (UInt32.toNat_inj.mp h)
  have hchars : d.chars fl = ntoaChars arg.toNat false 16 0 8
      { d.evalFlags with zeropad := true, uppercase := true } := by
    rw [Directive.chars, hconv, Conv.chars, d.evalPrecision_of_not_precision hprec]
  have hdigits : ∀ k, (Nat.digits 16 arg.toNat).length ≤ k ↔ arg.toNat < 16 ^ k :=
    fun k => Nat.digits_length_le_iff (by decide) arg.toNat
  have h8 := hdigits 8
  have h7 := hdigits 7
  have h6 := hdigits 6
  have height : (8 : UInt32).toNat = 8 := rfl
  rw [hchars, readHex_ntoaChars arg.toNat 8 { d.evalFlags with zeropad := true, uppercase := true } hne
    (by omega) hhash hprec hsign, HexFits, height]
  cases d.evalFlags.left with
  | true =>
    simp only [Bool.not_true, Bool.false_eq_true, and_false, if_false, if_true]
    omega
  | false =>
    simp only [Bool.not_false, and_self, if_true, Bool.false_eq_true, if_false]
    omega

theorem width_le_inField (flags : Flags) (width : UInt32) (cs : List UInt8) :
    width.toNat ≤ (inField flags width cs).length := by
  rw [inField]
  split_ifs <;> rw [List.length_append, spaces, List.length_replicate] <;> omega

/-- What makes a number narrower than its field: a length without support, or a field that is padded with
zeros and wider than the buffer. -/
def Directive.Narrow : Prop :=
  if d.evalFlags.longLong then 0 < d.evalWidth.2.toNat
  else d.evalFlags.zeropad = true ∧ d.evalFlags.precision = false ∧ d.evalFlags.left = false ∧
    32 < d.evalWidth.2.toNat

/-- **A number is as wide as its field**, unless the field is padded with zeros and wider than the
buffer; a character and a string always are. -/
theorem width_le_directive (hconv : (∃ c arg, d.conv = .int c arg) ∨ (∃ arg, d.conv = .char arg) ∨
      ∃ s string, d.conv = .str s string) :
    d.evalWidth.2.toNat ≤ (d.chars fl).length ↔
      ¬ ((∃ c arg, d.conv = .int c arg) ∧ d.Narrow) := by
  rcases hconv with ⟨c, arg, hconv⟩ | ⟨arg, hconv⟩ | ⟨s, string, hconv⟩
  · rw [Directive.Narrow]
    cases hlong : d.evalFlags.longLong with
    | true =>
      rw [chars_longLong fl d c arg hconv hlong]
      simp [hconv]
    | false =>
      rw [chars_int fl d c arg hconv hlong, width_le_ntoaChars, intFlags_zeropad, intFlags_left]
      simp [hconv, and_assoc]
  · rw [Directive.chars, hconv]
    exact iff_of_true (width_le_inField _ _ _) fun ⟨⟨c, a, h⟩, _⟩ => by cases h
  · rw [Directive.chars, hconv]
    exact iff_of_true (width_le_inField _ _ _) fun ⟨⟨c, a, h⟩, _⟩ => by cases h

/-! ### What is read from the buffer -/

theorem formatChars_directive : formatChars fl [.directive d] = d.chars fl := List.flatMap_singleton ..

variable {fl d} {fuel : ℕ} {buffer count format va : UInt32} {s : Kernel}

/-- A directive in a buffer that has room for what it puts out. -/
theorem snprintf_directive (hfuel : d.size + 1 < fuel) (hnull : buffer ≠ 0)
    (h : HoldsFormat s.mem format va [.directive d])
    (hoff : Disjoint (formatPlaces format va [.directive d]) (span buffer count.toNat))
    (hroom : (d.chars fl).length < count.toNat) :
    ∃ t, snprintf fl fuel buffer count format va s = .ok (UInt32.ofNat (d.chars fl).length) t ∧
      t.mem.Bytes buffer (d.chars fl ++ [0]) := by
  rw [← formatChars_directive] at hroom ⊢
  exact snprintf_bytes hfuel hnull h hoff hroom

end directive

/-- **A decimal number is read back from the buffer**, whatever the flags, the width and the precision are:
unless it is negative, and the digits leave its sign no room in the buffer of the conversion. With the length
`ll` or `j` the buffer is empty. -/
theorem snprintf_readInt (fl : Floats) (d : Directive) {fuel : ℕ} (hfuel : d.size + 1 < fuel)
    (buffer count format va : UInt32) (s : Kernel) (hnull : buffer ≠ 0)
    (h : HoldsFormat s.mem format va [.directive d])
    (hoff : Disjoint (formatPlaces format va [.directive d]) (span buffer count.toNat))
    (hroom : (d.chars fl).length < count.toNat) (c : {c // c ∈ bytes "diuxXob"}) (arg : UInt32)
    (hconv : d.conv = .int c arg) (hdec : intBase c.1 = 10) :
    ∃ cs t, snprintf fl fuel buffer count format va s = .ok (UInt32.ofNat cs.length) t ∧
      t.mem.Bytes buffer (cs ++ [0]) ∧
      if d.evalFlags.longLong then cs = []
      else (readInt 10 cs = intValue c.1 d.evalFlags arg ↔ ¬ (intValue c.1 d.evalFlags arg < 0 ∧ d.NoRoom)) := by
  obtain ⟨t, hrun, hbytes⟩ := snprintf_directive hfuel hnull h hoff hroom
  refine ⟨d.chars fl, t, hrun, hbytes, ?_⟩
  split
  · next hlong => exact chars_longLong fl d c arg hconv hlong
  · next hlong => exact readInt_directive fl d c arg hconv hdec (Bool.eq_false_iff.mpr hlong)

/-- A kernel with the format of a directive and its arguments. -/
def directiveKernel (d : Directive) : Kernel := formatKernel Kernel.loaded.mem [.directive d]

theorem head_star_six (ds : List (Fin 10)) (h : Field.star 6 = .digits ds) : ds.head? ≠ some 0 :=
  Field.head_star h

/-- `%0*d`, with 6 and -42. -/
def signDirective : Directive :=
  ⟨[.zeropad], .star 6, head_star_six, none, .none, .int ⟨ascii 'd', d_mem_intLetters⟩ 0xFFFFFFD6⟩

theorem holds_signDirective :
    HoldsFormat (directiveKernel signDirective).mem 0x1000 0x2000 [.directive signDirective] where
  text := ⟨rfl, rfl, rfl, rfl, rfl, trivial⟩
  words := ⟨rfl, rfl, trivial⟩
  strings := List.forall_mem_singleton.mpr trivial

/-- The format and the arguments of a directive without strings are off a buffer. -/
theorem disjoint_places {d : Directive} (hplaces : d.conv.places = ∅) (htext : d.text.length ≤ 0x100)
    (hwords : d.words.length ≤ 0x100) :
    Disjoint (formatPlaces 0x1000 0x2000 [.directive d]) (span 0x5000 (20 : UInt32).toNat) := by
  have hfar : Disjoint (span 0x1000 0x2000) (span 0x5000 (20 : UInt32).toNat) :=
    disjoint_span (by decide) (by decide) (by decide)
  have htext' : (formatText [.directive d]).length = d.text.length + 1 :=
    congrArg List.length (List.append_nil _)
  have hwords' : (formatWords [.directive d]).length = d.words.length :=
    congrArg List.length (List.append_nil _)
  refine hfar.mono_left ?_
  rintro a ((ha | ha) | ⟨item, hitem, ha⟩)
  · exact span_mono (by omega) ha
  · refine span_offset_subset (a := 0x1000) (i := 0x1000) ?_ ha
    show 0x1000 + _ ≤ 0x2000
    omega
  · rw [List.mem_singleton.mp hitem, Item.places, hplaces] at ha
    exact ha.elim

theorem snprintf_readInt_sign :
    ∃ cs t, snprintf noFloats 100 0x5000 20 0x1000 0x2000 (directiveKernel signDirective) =
      .ok (UInt32.ofNat cs.length) t ∧ t.mem.Bytes 0x5000 (cs ++ [0]) ∧ readInt 10 cs = -42 := by
  have hneg : intValue (ascii 'd') signDirective.evalFlags 0xFFFFFFD6 = -42 := by decide
  obtain ⟨cs, t, hrun, hbytes, hread⟩ := snprintf_readInt noFloats signDirective (by decide : _ < 100)
    0x5000 20 0x1000 0x2000 _ (by decide) holds_signDirective
    (disjoint_places rfl (by decide) (by decide)) (by decide) _ _ rfl (by decide)
  rw [if_neg (by decide)] at hread
  refine ⟨cs, t, hrun, hbytes, (hread.mpr ?_).trans hneg⟩
  rintro ⟨-, -, hprec | ⟨-, -, hwidth⟩⟩
  · exact absurd hprec (by decide)
  · exact absurd hwidth (by decide)

/-- **A number with a hash is read back from the buffer** exactly when its prefix fits its field. With the
length `ll` or `j` the buffer is empty. -/
theorem snprintf_readHex (fl : Floats) (d : Directive) {fuel : ℕ} (hfuel : d.size + 1 < fuel)
    (buffer count format va : UInt32) (s : Kernel) (hnull : buffer ≠ 0)
    (h : HoldsFormat s.mem format va [.directive d])
    (hoff : Disjoint (formatPlaces format va [.directive d]) (span buffer count.toNat))
    (hroom : (d.chars fl).length < count.toNat) (c : {c // c ∈ bytes "diuxXob"}) (arg : UInt32)
    (hconv : d.conv = .int c arg) (hhex : intBase c.1 = 16) (hhash : d.evalFlags.hash = true)
    (hprec : d.evalFlags.precision = false) (hvalue : intValue c.1 d.evalFlags arg ≠ 0) :
    ∃ cs t, snprintf fl fuel buffer count format va s = .ok (UInt32.ofNat cs.length) t ∧
      t.mem.Bytes buffer (cs ++ [0]) ∧
      if d.evalFlags.longLong then cs = []
      else (readHex cs = some (intValue c.1 d.evalFlags arg).natAbs ↔
        HexFits (Nat.digits 16 (intValue c.1 d.evalFlags arg).natAbs).length d.evalWidth.2 d.evalFlags) := by
  obtain ⟨t, hrun, hbytes⟩ := snprintf_directive hfuel hnull h hoff hroom
  refine ⟨d.chars fl, t, hrun, hbytes, ?_⟩
  split
  · next hlong => exact chars_longLong fl d c arg hconv hlong
  · next hlong =>
    exact readHex_directive fl d c arg hconv hhex (Bool.eq_false_iff.mpr hlong) hhash hprec hvalue

/-- `%#*X`, with 6 and `0xBEEF`. -/
def hashDirective : Directive :=
  ⟨[.hash], .star 6, head_star_six, none, .none, .int ⟨ascii 'X', hex_mem_intLetters⟩ 0xBEEF⟩

theorem holds_hashDirective :
    HoldsFormat (directiveKernel hashDirective).mem 0x1000 0x2000 [.directive hashDirective] where
  text := ⟨rfl, rfl, rfl, rfl, rfl, trivial⟩
  words := ⟨rfl, rfl, trivial⟩
  strings := List.forall_mem_singleton.mpr trivial

theorem snprintf_readHex_hash :
    ∃ cs t, snprintf noFloats 100 0x5000 20 0x1000 0x2000 (directiveKernel hashDirective) =
      .ok (UInt32.ofNat cs.length) t ∧ t.mem.Bytes 0x5000 (cs ++ [0]) ∧ readHex cs = some 0xBEEF := by
  have hvalue : intValue (ascii 'X') hashDirective.evalFlags 0xBEEF = 0xBEEF := by decide
  obtain ⟨cs, t, hrun, hbytes, hread⟩ := snprintf_readHex noFloats hashDirective (by decide : _ < 100)
    0x5000 20 0x1000 0x2000 _ (by decide) holds_hashDirective
    (disjoint_places rfl (by decide) (by decide)) (by decide) _ _ rfl (by decide) rfl rfl (by decide)
  have hfits : HexFits 4 hashDirective.evalWidth.2 hashDirective.evalFlags := by
    rw [HexFits, if_neg (by decide)]
    decide
  have hdigits : (Nat.digits 16 (0xBEEF : ℤ).natAbs).length = 4 := by decide
  rw [if_neg (by decide), hvalue, hdigits] at hread
  exact ⟨cs, t, hrun, hbytes, hread.mpr hfits⟩

/-- **A pointer with a hash is read back from the buffer** exactly when it is short: else the prefix of its
field of eight takes its first digits away. -/
theorem snprintf_readPointer (fl : Floats) (d : Directive) {fuel : ℕ} (hfuel : d.size + 1 < fuel)
    (buffer count format va : UInt32) (s : Kernel) (hnull : buffer ≠ 0)
    (h : HoldsFormat s.mem format va [.directive d])
    (hoff : Disjoint (formatPlaces format va [.directive d]) (span buffer count.toNat))
    (hroom : (d.chars fl).length < count.toNat) (arg : UInt32) (hconv : d.conv = .ptr arg)
    (hhash : d.evalFlags.hash = true) (hprec : d.evalFlags.precision = false)
    (hsign : d.evalFlags.plus = false ∧ d.evalFlags.space = false) (harg : arg ≠ 0) :
    ∃ cs t, snprintf fl fuel buffer count format va s = .ok (UInt32.ofNat cs.length) t ∧
      t.mem.Bytes buffer (cs ++ [0]) ∧
      (readHex cs = some arg.toNat ↔ if d.evalFlags.left then arg.toNat < 2 ^ 28 else arg.toNat < 2 ^ 24) := by
  obtain ⟨t, hrun, hbytes⟩ := snprintf_directive hfuel hnull h hoff hroom
  exact ⟨d.chars fl, t, hrun, hbytes, readHex_pointer fl d arg hconv hhash hprec hsign harg⟩

theorem head_star_zero (ds : List (Fin 10)) (h : Field.star 0 = .digits ds) : ds.head? ≠ some 0 :=
  Field.head_star h

/-- `%-#*p`, with 0 and `0xBEEF`. -/
def pointerDirective : Directive :=
  ⟨[.left, .hash], .star 0, head_star_zero, none, .none, .ptr 0xBEEF⟩

theorem holds_pointerDirective :
    HoldsFormat (directiveKernel pointerDirective).mem 0x1000 0x2000
      [.directive pointerDirective] where
  text := ⟨rfl, rfl, rfl, rfl, rfl, rfl, trivial⟩
  words := ⟨rfl, rfl, trivial⟩
  strings := List.forall_mem_singleton.mpr trivial

theorem snprintf_readPointer_short :
    ∃ cs t, snprintf noFloats 100 0x5000 20 0x1000 0x2000 (directiveKernel pointerDirective) =
      .ok (UInt32.ofNat cs.length) t ∧ t.mem.Bytes 0x5000 (cs ++ [0]) ∧ readHex cs = some 0xBEEF := by
  obtain ⟨cs, t, hrun, hbytes, hread⟩ := snprintf_readPointer noFloats pointerDirective (by decide : _ < 100)
    0x5000 20 0x1000 0x2000 _ (by decide) holds_pointerDirective
    (disjoint_places rfl (by decide) (by decide)) (by decide) 0xBEEF rfl rfl rfl ⟨rfl, rfl⟩ (by decide)
  exact ⟨cs, t, hrun, hbytes, hread.mpr (by decide)⟩

/-- **A number, a character or a string is as wide as its field**, unless it is a number whose field is padded
with zeros on the left, without a precision, and wider than the buffer of the conversion, or one with the length
`ll` or `j` and a width. -/
theorem snprintf_width (fl : Floats) (d : Directive) {fuel : ℕ} (hfuel : d.size + 1 < fuel)
    (buffer count format va : UInt32) (s : Kernel) (hnull : buffer ≠ 0)
    (h : HoldsFormat s.mem format va [.directive d])
    (hoff : Disjoint (formatPlaces format va [.directive d]) (span buffer count.toNat))
    (hroom : (d.chars fl).length < count.toNat)
    (hconv : (∃ c arg, d.conv = .int c arg) ∨ (∃ arg, d.conv = .char arg) ∨
      ∃ s string, d.conv = .str s string) :
    ∃ n t, snprintf fl fuel buffer count format va s = .ok n t ∧
      (d.evalWidth.2 ≤ n ↔ ¬ ((∃ c arg, d.conv = .int c arg) ∧ d.Narrow)) := by
  have hlt := count.toNat_lt
  obtain ⟨t, hrun, -⟩ := snprintf_directive hfuel hnull h hoff hroom
  refine ⟨_, t, hrun, ?_⟩
  rw [UInt32.le_iff_toNat_le, UInt32.toNat_ofNat', Nat.mod_eq_of_lt (by omega)]
  exact width_le_directive fl d hconv

theorem snprintf_width_sign :
    ∃ n t, snprintf noFloats 100 0x5000 20 0x1000 0x2000 (directiveKernel signDirective) =
      .ok n t ∧ 6 ≤ n := by
  obtain ⟨n, t, hrun, hwidth⟩ := snprintf_width noFloats signDirective (by decide : _ < 100)
    0x5000 20 0x1000 0x2000 _ (by decide) holds_signDirective
    (disjoint_places rfl (by decide) (by decide)) (by decide) (Or.inl ⟨_, _, rfl⟩)
  refine ⟨n, t, hrun, hwidth.mpr fun ⟨_, hnarrow⟩ => ?_⟩
  rw [Directive.Narrow, if_neg (by decide)] at hnarrow
  exact absurd hnarrow.2.2.2 (by decide)

end JurasOS
