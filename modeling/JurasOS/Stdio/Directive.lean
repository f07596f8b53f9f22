import JurasOS.Stdio.Scan

/-!
# What a format prints

A format is a list of characters and directives. Each directive stands for a text of
the format, for words of the arguments, and for the characters that it puts out; that
is how `_vsnprintf` reads it and what it puts out, in the order of the format.
-/

namespace JurasOS

open Machine Text

/-- The characters of a string in memory, before its NUL. -/
structure CString where
  chars : List UInt8
  no_nul : 0 ∉ chars
  length_lt : chars.length < 2 ^ 32

/-- A specifier and its argument. A string comes with the characters it points to. -/
inductive Conv where
  | int (c : {c // c ∈ bytes "diuxXob"}) (arg : UInt32)
  | fixed (c : {c // c ∈ bytes "fF"}) (arg : UInt64)
  | exp (c : {c // c ∈ bytes "eEgG"}) (arg : UInt64)
  | char (arg : UInt32)
  | str (s : UInt32) (string : CString)
  | ptr (arg : UInt32)
  | other (c : {c // c ∉ bytes "0123456789-+ #*.lhtjzdiuxXobfFeEgGcsp"})

/-- The character of a specifier. -/
def Conv.letter : Conv → UInt8
  | .int c _ => c
  | .fixed c _ => c
  | .exp c _ => c
  | .char _ => ascii 'c'
  | .str _ _ => ascii 's'
  | .ptr _ => ascii 'p'
  | .other c => c

/-- The words of a `double`. -/
def longWords (arg : UInt64) : List UInt32 := [arg.toUInt32, (arg >>> 32).toUInt32]

/-- The arguments that a specifier takes: a `long long` has no support, and is not taken. -/
def Conv.words (flags : Flags) : Conv → List UInt32
  | .int _ arg => if flags.longLong then [] else [arg]
  | .fixed _ arg | .exp _ arg => longWords arg
  | .char arg | .ptr arg => [arg]
  | .str s _ => [s]
  | .other _ => []

/-- The strings that a specifier points to are in memory. -/
def Conv.Strings (m : Mem) : Conv → Prop
  | .str s string => m.Bytes s (string.chars ++ [0])
  | _ => True

/-- The addresses of the strings that a specifier points to. -/
def Conv.places : Conv → Set UInt32
  | .str s string => span s (string.chars.length + 1)
  | _ => ∅

/-- The iterations that a specifier needs. -/
def Conv.size : Conv → ℕ
  | .str _ string => string.chars.length
  | _ => 0

/-- The integer that an argument stands for. -/
def intValue (c : UInt8) (flags : Flags) (arg : UInt32) : ℤ :=
  if isSigned c then
    if flags.long then arg.toInt32.toInt else (signedArg flags arg).toInt
  else
    if flags.long then arg.toNat else (unsignedArg flags arg).toNat

/-- Characters in a field. -/
def inField (flags : Flags) (width : UInt32) (cs : List UInt8) : List UInt8 :=
  if flags.left then cs ++ spaces (width.toNat - cs.length) else spaces (width.toNat - cs.length) ++ cs

/-- What a specifier puts out. -/
def Conv.chars (fl : Floats) (flags : Flags) (width precision : UInt32) : Conv → List UInt8
  | .int c arg =>
    let value := intValue c flags arg
    if flags.longLong then []
    else ntoaChars value.natAbs (value < 0) (intBase c) precision width (intFlags c flags)
  | .fixed c arg =>
    fl.ftoa arg precision width (if c.1 = ascii 'F' then { flags with uppercase := true } else flags)
  | .exp c arg =>
    let flags := if c.1 = ascii 'g' ∨ c.1 = ascii 'G' then { flags with adaptExp := true } else flags
    fl.etoa arg precision width
      (if c.1 = ascii 'E' ∨ c.1 = ascii 'G' then { flags with uppercase := true } else flags)
  | .char arg => inField flags width [arg.toUInt8]
  | .str _ string =>
    inField flags width (if flags.precision then string.chars.take precision.toNat else string.chars)
  | .ptr arg =>
    ntoaChars arg.toNat false 16 precision 8 { flags with zeropad := true, uppercase := true }
  | .other c => [c.1]

/-! ### Integers -/

section integers

variable {c : UInt8} {flags : Flags}

@[simp] theorem intFlags_longLong : (intFlags c flags).longLong = flags.longLong := by
  rw [intFlags]
  split_ifs <;> rfl

@[simp] theorem intFlags_long : (intFlags c flags).long = flags.long := by
  rw [intFlags]
  split_ifs <;> rfl

@[simp] theorem intFlags_short : (intFlags c flags).short = flags.short := by
  rw [intFlags]
  split_ifs <;> rfl

@[simp] theorem intFlags_char : (intFlags c flags).char = flags.char := by
  rw [intFlags]
  split_ifs <;> rfl

theorem magnitude_eq (value : Int32) : (magnitude value).toNat = value.toInt.natAbs := by
  have hlt := value.toUInt32.toNat_lt
  have hint : value.toInt =
      if 2 * value.toUInt32.toNat < 2 ^ 32 then (value.toUInt32.toNat : ℤ) else value.toUInt32.toNat - 2 ^ 32 :=
    BitVec.toInt_eq_toNat_cond value.toBitVec
  rw [magnitude]
  by_cases hpos : 0 < value
  · rw [if_pos hpos]
    rw [Int32.lt_iff_toInt_lt, Int32.toInt_zero] at hpos
    split_ifs at hint <;> omega
  · rw [if_neg hpos, Int32.toUInt32_sub, UInt32.toNat_sub]
    rw [Int32.lt_iff_toInt_lt, Int32.toInt_zero] at hpos
    have hzero : (0 : Int32).toUInt32.toNat = 0 := rfl
    split_ifs at hint <;> omega

theorem negative_eq (value : Int32) : decide (value < 0) = decide (value.toInt < 0) := by
  simp [Int32.lt_iff_toInt_lt]

end integers

/-! ### Putting out -/

/-- `x` takes words and puts characters out, without moving in the format. -/
def Prints (o : Sink) (x : PrintM PUnit) (words : List UInt32) (cs : List UInt8) (p : PrintState) : Prop :=
  x p = .ok ⟨⟩ ((p.skip 0 words.length).puts o cs)

section Prints

variable {o : Sink} {flags : Flags} {width precision : UInt32} {p : PrintState}

theorem vaArg_of_words {w : UInt32} (h : p.kernel.mem.Words p.va [w]) : vaArg p = .ok w (p.skip 0 1) := by
  show EStateM.Result.ok (p.kernel.mem.load32 p.va) { p with va := p.va + 4 } =
    EStateM.Result.ok w { p with format := p.format + 0, va := p.va + 4 }
  rw [h.1, UInt32.add_zero]

theorem vaArg64_of_words {arg : UInt64} (h : p.kernel.mem.Words p.va (longWords arg)) :
    vaArg64 p = .ok arg (p.skip 0 2) := by
  show EStateM.Result.ok (p.kernel.mem.load64 p.va) { p with va := p.va + 8 } =
    EStateM.Result.ok arg { p with format := p.format + 0, va := p.va + 8 }
  rw [Mem.load64_eq h.1 h.2.1, UInt32.add_zero]

/-- An integer is put out as `intValue` has it, and a `long long` not at all. -/
theorem convertInt_prints (c : UInt8) (arg : UInt32)
    (h : p.kernel.mem.Words p.va (if flags.longLong then [] else [arg])) :
    Prints o (convertInt o c flags width precision) (if flags.longLong then [] else [arg])
      (if flags.longLong then []
        else ntoaChars (intValue c flags arg).natAbs (intValue c flags arg < 0) (intBase c) precision width
          (intFlags c flags)) p := by
  have hshort : signedArg (intFlags c flags) = signedArg flags := by
    funext a
    simp [signedArg]
  have hushort : unsignedArg (intFlags c flags) = unsignedArg flags := by
    funext a
    simp [unsignedArg]
  have hnat : ∀ n : ℕ, decide ((n : ℤ) < 0) = false := fun n => by simp
  rw [Prints, convertInt, intValue]
  simp only [intFlags_longLong, intFlags_long, hshort, hushort]
  cases hll : flags.longLong with
  | true =>
    simp only [if_true, ite_self, pure_apply, List.length_nil, PrintState.skip_zero, PrintState.puts_nil]
  | false =>
    rw [hll, if_neg Bool.false_ne_true] at h
    cases hsigned : isSigned c <;> cases hl : flags.long <;>
      simp only [if_true, if_false, Bool.false_eq_true, bind_of_ok (vaArg_of_words h), modify_apply, ntoaLong,
        ntoa_eq, magnitude_eq, negative_eq, hnat, Int.natAbs_natCast] <;> rfl

/-! ### Strings -/

theorem strnlen_of_bytes {m : Mem} {cs : List UInt8} (hcs : 0 ∉ cs) {s : UInt32} (h : m.Bytes s (cs ++ [0]))
    (n : ℕ) : strnlen m s n = min cs.length n := by
  induction n generalizing cs s with
  | zero => simp [strnlen]
  | succ n ih =>
    cases cs with
    | nil =>
      rw [strnlen, if_pos h.1, List.length_nil, Nat.zero_min]
    | cons c cs =>
      obtain ⟨hc, hcs⟩ := List.ne_and_not_mem_of_not_mem_cons hcs
      rw [strnlen, h.1, if_neg (Ne.symm hc), ih hcs h.2, List.length_cons]
      omega

/-- The characters of a string that a precision lets through. -/
def cut (flags : Flags) (precision : UInt32) (cs : List UInt8) : List UInt8 :=
  if flags.precision then cs.take precision.toNat else cs

theorem cut_cons (hmore : (!flags.precision) = true ∨ precision ≠ 0) (c : UInt8) (cs : List UInt8) :
    cut flags precision (c :: cs) =
      c :: cut flags (if flags.precision then precision - 1 else precision) cs := by
  rw [cut, cut]
  cases hflag : flags.precision with
  | false => rfl
  | true =>
    have hne : precision ≠ 0 := by
      simpa [hflag] using hmore
    have hpos : precision.toNat ≠ 0 := fun h => hne (UInt32.toNat_inj.mp h)
    have hone : (1 : UInt32) ≤ precision := by
      rw [UInt32.le_iff_toNat_le, UInt32.toNat_one]
      omega
    have hsucc : precision.toNat = (precision - 1).toNat + 1 := by
      rw [UInt32.toNat_sub_of_le _ _ hone, UInt32.toNat_one]
      omega
    rw [if_pos rfl, if_pos rfl, if_pos rfl, hsucc, List.take_succ_cons]

theorem cut_of_done (hdone : ¬ ((!flags.precision) = true ∨ precision ≠ 0)) (cs : List UInt8) :
    cut flags precision cs = [] := by
  rw [not_or, not_not] at hdone
  rw [cut, if_pos (by simpa using hdone.1), hdone.2]
  rfl

theorem putSpaces_apply (side : Bool) (l : ℕ) (p : PrintState) :
    putSpaces o side l width p = .ok ⟨⟩ (p.puts o (if side then spaces (width.toNat - l) else [])) := by
  cases side with
  | true => exact congrArg (EStateM.Result.ok PUnit.unit) (PrintState.times_put o (ascii ' ') p _)
  | false => rw [if_neg Bool.false_ne_true, PrintState.puts_nil]; rfl

/-- The loop puts out a string that stays in memory as it is put out. -/
theorem stringLoop_prints {cs : List UInt8} (hcs : 0 ∉ cs) {fuel : ℕ} (hfuel : cs.length < fuel)
    {s precision : UInt32} {p : PrintState}
    (h : ∀ ds, ds <+: cut flags precision cs → (o.feed p.idx ds p.kernel).mem.Bytes s (cs ++ [0])) :
    loopM .running (stringStep o flags) fuel (s, precision) p =
      .ok ⟨⟩ (p.puts o (cut flags precision cs)) := by
  obtain ⟨fuel, rfl⟩ : ∃ n, fuel = n + 1 := ⟨fuel - 1, by omega⟩
  have hmem : p.kernel.mem.Bytes s (cs ++ [0]) := h [] List.nil_prefix
  induction cs generalizing s precision p fuel with
  | nil =>
    have hcut : cut flags precision [] = [] := by simp [cut]
    have hstep : stringStep o flags (s, precision) p = .ok (.inr ⟨⟩) p := by
      rw [stringStep, bind_of_ok (get_apply p), if_neg fun h => h.1 hmem.1]
      rfl
    rw [hcut, PrintState.puts_nil]
    exact bind_of_ok hstep
  | cons c cs ih =>
    obtain ⟨hc, hcs⟩ := List.ne_and_not_mem_of_not_mem_cons hcs
    have hchar : p.kernel.mem s = c := hmem.1
    by_cases hmore : (!flags.precision) = true ∨ precision ≠ 0
    · -- the character is put out, and the loop goes on
      have hcut : cut flags precision (c :: cs) =
          c :: cut flags (if flags.precision then precision - 1 else precision) cs := cut_cons hmore c cs
      have hstep : stringStep o flags (s, precision) p =
          .ok (.inl (s + 1, if flags.precision then precision - 1 else precision)) (p.put o c) := by
        rw [stringStep, bind_of_ok (get_apply p), if_pos ⟨by rw [hchar]; exact hc.symm, hmore⟩, hchar]
        rfl
      rw [hcut] at h
      rw [hcut, ← List.singleton_append, PrintState.puts_append, PrintState.puts_singleton]
      refine (bind_of_ok hstep).trans ?_
      rw [List.length_cons] at hfuel
      obtain ⟨fuel, rfl⟩ : ∃ n, fuel = n + 1 := ⟨fuel - 1, by omega⟩
      refine ih hcs (fun ds hds => ?_) fuel (by omega) ?_
      · exact (h (c :: ds) (List.cons_prefix_cons.mpr ⟨rfl, hds⟩)).2
      · exact (h [c] (List.cons_prefix_cons.mpr ⟨rfl, List.nil_prefix⟩)).2
    · have hcut : cut flags precision (c :: cs) = [] := cut_of_done hmore _
      have hstep : stringStep o flags (s, precision) p = .ok (.inr ⟨⟩) p := by
        rw [stringStep, bind_of_ok (get_apply p), if_neg fun h => hmore h.2]
        rfl
      rw [hcut, PrintState.puts_nil]
      exact bind_of_ok hstep

/-- The length that a string is padded by is that of the characters put out. -/
theorem length_cut {m : Mem} {cs : List UInt8} (hcs : 0 ∉ cs) (hlen : cs.length < 2 ^ 32) {s : UInt32}
    (h : m.Bytes s (cs ++ [0])) (hprec : flags.precision = false → precision = 0) :
    (if flags.precision then
      min (strnlen m s (if precision ≠ 0 then precision.toNat else 2 ^ 32 - 1)) precision.toNat
      else strnlen m s (if precision ≠ 0 then precision.toNat else 2 ^ 32 - 1)) =
      (cut flags precision cs).length := by
  rw [strnlen_of_bytes hcs h, cut]
  cases hflag : flags.precision with
  | false =>
    rw [hprec hflag]
    simp only [Bool.false_eq_true, if_false, ne_eq, not_true_eq_false]
    omega
  | true =>
    simp only [if_true, List.length_take]
    by_cases hzero : precision = 0
    · rw [hzero, UInt32.toNat_zero]
      omega
    · rw [if_pos hzero]
      omega

theorem inField_eq (cs : List UInt8) : inField flags width cs =
    (if !flags.left then spaces (width.toNat - cs.length) else []) ++
      (cs ++ if flags.left then spaces (width.toNat - cs.length) else []) := by
  rw [inField]
  cases flags.left <;> simp

/-- A string is put out in its field. -/
theorem convertString_prints {s : UInt32} (string : CString) {fuel : ℕ} (hfuel : string.chars.length < fuel)
    (hprec : flags.precision = false → precision = 0) (h : p.kernel.mem.Words p.va [s])
    (hstr : ∀ ds, ds <+: inField flags width (cut flags precision string.chars) →
      (o.feed p.idx ds p.kernel).mem.Bytes s (string.chars ++ [0])) :
    Prints o (convertString o fuel flags width precision) [s]
      (inField flags width (cut flags precision string.chars)) p := by
  rw [inField_eq] at hstr
  have hmem : p.kernel.mem.Bytes s (string.chars ++ [0]) := hstr [] List.nil_prefix
  have hlen := length_cut string.no_nul string.length_lt hmem hprec
  have hbefore : putSpaces o (!flags.left) (cut flags precision string.chars).length width (p.skip 0 1) = _ :=
    putSpaces_apply ..
  have hloop : loopM .running (stringStep o flags) fuel (s, precision) ((p.skip 0 1).puts o
      (if !flags.left then spaces (width.toNat - (cut flags precision string.chars).length) else [])) = _ :=
    stringLoop_prints string.no_nul hfuel fun ds hds => by
      rw [PrintState.puts_idx, PrintState.puts_kernel, PrintState.skip_idx, PrintState.skip_kernel,
        ← Sink.feed_append]
      exact hstr _ ((List.prefix_append_right_inj _).mpr (hds.trans (List.prefix_append _ _)))
  rw [Prints, convertString, bind_of_ok (vaArg_of_words h), bind_of_ok (get_apply _), PrintState.skip_kernel,
    hlen,
    bind_of_ok hbefore, bind_of_ok hloop, putSpaces_apply, inField_eq, PrintState.puts_append,
    PrintState.puts_append]
  rfl

/-- A character is put out in its field. Its argument is read after the spaces before it. -/
theorem convertChar_prints {arg : UInt32}
    (h : ∀ ds, ds <+: inField flags width [arg.toUInt8] → (o.feed p.idx ds p.kernel).mem.Words p.va [arg]) :
    Prints o (convertChar o flags width) [arg] (inField flags width [arg.toUInt8]) p := by
  rw [inField_eq] at h
  have hbefore : putSpaces o (!flags.left) 1 width p = _ := putSpaces_apply ..
  have harg := vaArg_of_words
    (p := p.puts o (if !flags.left then spaces (width.toNat - 1) else [])) (h _ (List.prefix_append _ _))
  rw [Prints, convertChar, bind_of_ok hbefore, bind_of_ok harg, bind_of_ok (modify_apply _ _), putSpaces_apply,
    inField_eq, PrintState.puts_append, PrintState.puts_append]
  rfl

theorem notMem_of_all {l l' : List UInt8} (h : l.all (fun c => !l'.contains c) = true) {c : UInt8}
    (hc : c ∈ l) :
    c ∉ l' := by
  simpa using List.all_eq_true.mp h c hc

theorem mem_of_all {l l' : List UInt8} (h : l.all (fun c => l'.contains c) = true) {c : UInt8} (hc : c ∈ l) :
    c ∈ l' := by
  simpa using List.all_eq_true.mp h c hc

/-- What a specifier puts out, in whatever memory its arguments stay as it is put out. -/
theorem convertBy_prints (fl : Floats) (conv : Conv) {fuel : ℕ} (hfuel : conv.size < fuel)
    (hprec : flags.precision = false → precision = 0)
    (h : ∀ ds, ds <+: conv.chars fl flags width precision →
      (o.feed p.idx ds p.kernel).mem.Words p.va (conv.words flags) ∧
        conv.Strings (o.feed p.idx ds p.kernel).mem) :
    Prints o (convertBy fl o fuel conv.letter flags width precision) (conv.words flags)
      (conv.chars fl flags width precision) p := by
  have hwords : p.kernel.mem.Words p.va (conv.words flags) := (h [] List.nil_prefix).1
  cases conv with
  | int c arg =>
    rw [convertBy, Conv.letter, if_pos c.2]
    exact convertInt_prints c.1 arg hwords
  | fixed c arg =>
    rw [convertBy, Conv.letter, if_neg (notMem_of_all (by decide) c.2), if_pos c.2, Prints, convertFixed,
      bind_of_ok (vaArg64_of_words hwords)]
    rfl
  | exp c arg =>
    rw [convertBy, Conv.letter, if_neg (notMem_of_all (by decide) c.2), if_neg (notMem_of_all (by decide) c.2),
      if_pos c.2, Prints, convertExp, bind_of_ok (vaArg64_of_words hwords)]
    rfl
  | char arg =>
    rw [convertBy, Conv.letter, if_neg (by decide), if_neg (by decide), if_neg (by decide), if_pos rfl]
    exact convertChar_prints fun ds hds => (h ds hds).1
  | str s string =>
    rw [convertBy, Conv.letter, if_neg (by decide), if_neg (by decide), if_neg (by decide), if_neg (by decide),
      if_pos rfl]
    exact convertString_prints string hfuel hprec hwords fun ds hds => (h ds hds).2
  | ptr arg =>
    rw [convertBy, Conv.letter, if_neg (by decide), if_neg (by decide), if_neg (by decide), if_neg (by decide),
      if_neg (by decide), if_pos rfl, Prints, convertPointer, bind_of_ok (vaArg_of_words hwords), modify_apply,
      ntoaLong, ntoa_eq]
    rfl
  | other c =>
    have hnot : ∀ {l : List UInt8}, l.all (fun d =>
        (bytes "0123456789-+ #*.lhtjzdiuxXobfFeEgGcsp").contains d) = true → c.1 ∉ l :=
      fun h hc => c.2 (mem_of_all h hc)
    have hne : ∀ {d : UInt8}, d ∈ bytes "0123456789-+ #*.lhtjzdiuxXobfFeEgGcsp" → c.1 ≠ d :=
      fun hd => ne_of_notMem c.2 hd
    rw [convertBy, Conv.letter, if_neg (hnot (by decide)), if_neg (hnot (by decide)), if_neg (hnot (by decide)),
      if_neg (hne (by decide)), if_neg (hne (by decide)), if_neg (hne (by decide)), Prints, modify_apply,
      ← PrintState.puts_singleton]
    show _ = EStateM.Result.ok _ ((p.skip 0 0).puts o [c.1])
    rw [PrintState.skip_zero]

end Prints

/-! ### Directives -/

/-- A directive. Its width does not begin with a zero, which would be a flag. -/
structure Directive where
  flags : List Flag
  width : Field
  width_head : ∀ ds, width = .digits ds → ds.head? ≠ some 0
  precision : Option Field
  length : Length
  conv : Conv

namespace Directive

variable (d : Directive)

/-- The flags and the width of a directive. -/
def evalWidth : Flags × UInt32 := d.width.width (d.flags.foldl Flag.set {})

/-- The flags and the precision of a directive. -/
def evalPrecision : Flags × UInt32 := precisionOf d.evalWidth.1 d.precision

/-- The flags of a directive. -/
def evalFlags : Flags := d.length.set d.evalPrecision.1

/-- The text of a directive, between its `%` and its specifier. -/
def prefixText : List UInt8 :=
  d.flags.map Flag.char ++ (d.width.text ++ (precisionText d.precision ++ d.length.text))

/-- The arguments of a directive before that of its specifier. -/
def prefixWords : List UInt32 := d.width.words ++ (precisionWords d.precision ++ [])

/-- The text of a directive, after its `%`. -/
def text : List UInt8 := d.prefixText ++ [d.conv.letter]

/-- The arguments of a directive. -/
def words : List UInt32 := d.prefixWords ++ d.conv.words d.evalFlags

/-- What a directive puts out. -/
def chars (fl : Floats) : List UInt8 := d.conv.chars fl d.evalFlags d.evalWidth.2 d.evalPrecision.2

/-- The iterations that a directive needs. -/
def size : ℕ := d.text.length + d.conv.size

end Directive

section directive

variable {o : Sink} {p : PrintState}

theorem exists_digitChar {c : UInt8} (hc : isDigit c = true) : ∃ d : Fin 10, c = digitChar false d := by
  rw [isDigit, Bool.and_eq_true, decide_eq_true_eq, decide_eq_true_eq, UInt8.le_iff_toNat_le,
    UInt8.le_iff_toNat_le] at hc
  obtain ⟨hlo, hhi⟩ : 48 ≤ c.toNat ∧ c.toNat ≤ 57 := hc
  refine ⟨⟨c.toNat - 48, by omega⟩, ?_⟩
  have hdigit : ∀ d : Fin 10, (digitChar false d).toNat = 48 + d := by decide
  rw [← UInt8.toNat_inj, hdigit]
  show _ = 48 + (c.toNat - 48)
  omega

/-- A specifier is no flag, and no part of a width, a precision or a length. -/
theorem Conv.endsLength_letter (conv : Conv) : EndsLength conv.letter := by
  have hall : ∀ {l : List UInt8}, l.all (fun c => decide (EndsLength c)) = true → ∀ c : {c // c ∈ l},
      EndsLength c.1 := fun h c => by simpa using List.all_eq_true.mp h c.1 c.2
  cases conv with
  | int c arg => exact hall (by decide) c
  | fixed c arg => exact hall (by decide) c
  | exp c arg => exact hall (by decide) c
  | char arg => exact of_decide_eq_true rfl
  | str s string => exact of_decide_eq_true rfl
  | ptr arg => exact of_decide_eq_true rfl
  | other c =>
    have hdigits : ∀ d : Fin 10, digitChar false d ∈ bytes "0123456789-+ #*.lhtjzdiuxXobfFeEgGcsp" := by decide
    refine ⟨⟨⟨fun h => c.2 (mem_of_all (by decide) h), ?_, ne_of_notMem c.2 (by decide)⟩,
      ne_of_notMem c.2 (by decide)⟩, fun h => c.2 (mem_of_all (by decide) h)⟩
    by_contra hdigit
    obtain ⟨d, hd⟩ := exists_digitChar (Bool.eq_true_of_not_eq_false hdigit)
    exact c.2 (by rw [show c.1 = digitChar false d from hd]; exact hdigits d)

/-- Without a period, the precision is zero. -/
theorem Directive.evalPrecision_of_not_precision (d : Directive) (h : d.evalFlags.precision = false) :
    d.evalPrecision.2 = 0 := by
  have hflags : d.evalFlags.precision = d.evalPrecision.1.precision := by
    rw [Directive.evalFlags]
    cases d.length <;> rfl
  rw [hflags, Directive.evalPrecision] at h
  rw [Directive.evalPrecision]
  cases hprec : d.precision with
  | none => rfl
  | some field =>
    rw [hprec] at h
    cases h

theorem head_append_text {P : UInt8 → Prop} {text text' : List UInt8} (htext : ∀ c ∈ text.head?, P c)
    (htext' : ∀ c ∈ text'.head?, P c) : ∀ c ∈ (text ++ text').head?, P c := by
  cases text with
  | nil => exact htext'
  | cons c text => exact htext

/-- A directive is read up to its specifier. -/
theorem evalDirective_reads (d : Directive) {fuel : ℕ} (hfuel : d.text.length < fuel) :
    Reads (evalDirective fuel) EndsLength d.prefixText d.prefixWords
      (d.evalFlags, d.evalWidth.2, d.evalPrecision.2) := by
  rw [Directive.text, Directive.prefixText] at hfuel
  simp only [List.length_append, List.length_map] at hfuel
  have hlength : ∀ c, EndsLength c → ∀ e ∈ (d.length.text ++ [c]).head?, EndsPrecision e :=
    fun c hc => head_append d.length.head_text hc.1
  have hprecision : ∀ c, EndsLength c →
      ∀ e ∈ (precisionText d.precision ++ d.length.text ++ [c]).head?, EndsWidth e := by
    intro c hc
    rw [List.append_assoc]
    exact head_append_text (precisionText_head d.precision) fun e he => (hlength c hc e he).1
  have hwidth : ∀ c, EndsLength c →
      ∀ e ∈ (d.width.text ++ (precisionText d.precision ++ d.length.text) ++ [c]).head?, EndsFlags e := by
    intro c hc
    rw [List.append_assoc]
    exact head_append_text (Field.head_text d.width_head) fun e he => (hprecision c hc e he).1
  have hreadFlags : Reads (evalFlags fuel) EndsFlags (d.flags.map Flag.char) [] (d.flags.foldl Flag.set {}) :=
    evalFlags_reads d.flags (by omega)
  have hreadWidth : Reads (evalWidth fuel (d.flags.foldl Flag.set {})) EndsWidth d.width.text d.width.words
    d.evalWidth := evalWidth_reads d.width (by omega) _
  have hreadPrecision : Reads (evalPrecision fuel d.evalWidth.1) EndsPrecision (precisionText d.precision)
    (precisionWords d.precision) d.evalPrecision := evalPrecision_reads d.precision (by omega) _
  have hrest : Reads (evalPrecision fuel d.evalWidth.1 >>= fun x =>
      evalLength x.1 >>= fun flags => Pure.pure (flags, d.evalWidth.2, x.2)) EndsLength _ _ _ :=
    Reads.bind hreadPrecision (Reads.map (evalLength_reads d.length _)) hlength
  have hfields : Reads
      (evalWidth fuel (d.flags.foldl Flag.set {}) >>= fun x => evalPrecision fuel x.1 >>= fun y =>
      evalLength y.1 >>= fun flags => Pure.pure (flags, x.2, y.2)) EndsLength _ _ _ :=
    Reads.bind hreadWidth hrest hprecision
  show Reads (evalFlags fuel >>= _) EndsLength d.prefixText ([] ++ d.prefixWords) _
  exact Reads.bind hreadFlags hfields hwidth

/-- A directive is read to its end, and put out. -/
theorem directive_prints (fl : Floats) (d : Directive) {fuel : ℕ} (hfuel : d.size < fuel)
    (h : ∀ cs, cs <+: d.chars fl → (o.feed p.idx cs p.kernel).mem.Bytes p.format d.text ∧
      (o.feed p.idx cs p.kernel).mem.Words p.va d.words ∧ d.conv.Strings (o.feed p.idx cs p.kernel).mem) :
    directive fl o fuel p = .ok ⟨⟩ ((p.skip d.text.length d.words.length).puts o (d.chars fl)) := by
  obtain ⟨hbytes, hwords, -⟩ := h [] List.nil_prefix
  rw [Directive.size] at hfuel
  have hread : Reads (evalDirective fuel) EndsLength d.prefixText d.prefixWords _ :=
    evalDirective_reads d (by omega)
  have hletter : ∀ c ∈ [d.conv.letter].head?, EndsLength c := by
    rintro c ⟨⟩
    exact d.conv.endsLength_letter
  obtain ⟨hrun, hat⟩ := hread.then hletter (List.cons_ne_nil _ []) ⟨hbytes, hwords⟩
  have hpeek : peek (p.skip d.prefixText.length d.prefixWords.length) =
      .ok d.conv.letter (p.skip d.prefixText.length d.prefixWords.length) :=
    congrArg (EStateM.Result.ok · _) hat.head
  have hconv : Prints o (convertBy fl o fuel d.conv.letter d.evalFlags d.evalWidth.2 d.evalPrecision.2)
      (d.conv.words d.evalFlags) (d.chars fl) (p.skip d.prefixText.length d.prefixWords.length) :=
    convertBy_prints fl d.conv (by omega) d.evalPrecision_of_not_precision
      fun cs hcs => ⟨(Mem.Words.append.mp (h cs hcs).2.1).2, (h cs hcs).2.2⟩
  rw [directive, bind_of_ok hrun]
  show (peek >>= _) _ = _
  rw [bind_of_ok hpeek, bind_of_ok hconv, PrintState.skip_skip, Directive.text, Directive.words,
    List.length_append, List.length_append, Nat.add_zero]
  have hnext : p.skip (d.prefixText.length + [d.conv.letter].length)
      (d.prefixWords.length + (d.conv.words d.evalFlags).length) =
      { p.skip d.prefixText.length (d.prefixWords.length + (d.conv.words d.evalFlags).length) with
        format := (p.skip d.prefixText.length 0).format + 1 } := by
    simp only [PrintState.skip, UInt32.ofNat_add, UInt32.add_assoc]
    rfl
  rw [hnext]
  rfl

end directive

end JurasOS
