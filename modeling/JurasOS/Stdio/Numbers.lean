import JurasOS.Stdio.Ntoa
import Mathlib.Data.Nat.Digits.Lemmas

/-!
# What the numbers of `printf` are read as

The digits of a conversion are those of its number, with zeros before them as the
precision and the flags ask. The buffer of 32 characters is what goes wrong: a sign
or a prefix that does not fit is left out, zeros stop at the end of the buffer, and
the hash takes two characters off the digits when these are as long as the field.
-/

namespace JurasOS

open Machine Text

/-! ### Digits -/

/-- The digits of a number, one at least, the least significant first. -/
def someDigits (base value : ℕ) : List ℕ := value % base :: Nat.digits base (value / base)

section someDigits

variable {base value : ℕ}

theorem someDigits_of_ne_zero (hbase : 1 < base) (hvalue : value ≠ 0) :
    someDigits base value = Nat.digits base value :=
  (Nat.digits_def' hbase (Nat.pos_of_ne_zero hvalue)).symm

theorem someDigits_zero (base : ℕ) : someDigits base 0 = [0] := by
  rw [someDigits, Nat.zero_mod, Nat.zero_div, Nat.digits_zero]

theorem someDigits_lt (hbase : 1 < base) : ∀ d ∈ someDigits base value, d < base := by
  intro d hd
  rcases List.mem_cons.mp hd with rfl | hd
  · exact Nat.mod_lt _ (by omega)
  · exact Nat.digits_lt_base hbase hd

theorem length_someDigits_le (hbase : 1 < base) {k : ℕ} (hk : 0 < k) (hvalue : value < base ^ k) :
    (someDigits base value).length ≤ k := by
  by_cases hzero : value = 0
  · rw [hzero, someDigits_zero]
    exact hk
  · rw [someDigits_of_ne_zero hbase hzero]
    exact (Nat.digits_length_le_iff hbase value).mpr hvalue

theorem ofDigits_someDigits (base value : ℕ) : Nat.ofDigits base (someDigits base value) = value := by
  rw [someDigits, Nat.ofDigits_cons, Nat.ofDigits_digits]
  exact Nat.mod_add_div value base

/-- The loop writes the digits that fit, the least significant first. -/
theorem ntoaDigits_chars (hbase : 1 < base) (upper : Bool) {k : ℕ} {buf : NtoaBuf} (hk : buf.len + k = 32)
    (hpos : 0 < k) :
    (ntoaDigits base upper k value buf).chars =
      numeral upper ((someDigits base value).take k).reverse ++ buf.chars := by
  induction k generalizing value buf with
  | zero => omega
  | succ k ih =>
    have hlen : (buf.push (digitChar upper (value % base))).len = buf.len + 1 := by
      rw [NtoaBuf.len_push]
      omega
    have hchars : (buf.push (digitChar upper (value % base))).chars = _ := NtoaBuf.push_chars (by omega) _
    rw [ntoaDigits, hlen]
    rw [someDigits, List.take_succ_cons, List.reverse_cons, numeral, List.map_append, List.append_assoc]
    by_cases hmore : value / base ≠ 0 ∧ buf.len + 1 < 32
    · rw [if_pos hmore, ih (by omega) (by omega), someDigits_of_ne_zero hbase hmore.1, hchars]
      rfl
    · rw [if_neg hmore, hchars]
      have hnil : (Nat.digits base (value / base)).take k = [] := by
        by_cases hzero : value / base = 0
        · rw [hzero, Nat.digits_zero, List.take_nil]
        · obtain rfl : k = 0 := by omega
          rfl
      rw [hnil]
      rfl

end someDigits

/-! ### The digits of a conversion, and its zeros -/

/-- The digits that a conversion starts from, the most significant first. -/
def valueDigits (value base : ℕ) (flags : Flags) : List ℕ :=
  if !flags.precision ∨ value ≠ 0 then ((someDigits base value).take 32).reverse else []

/-- The width for the digits, when they are padded with zeros: a sign takes one. -/
def zeroWidth (negative : Bool) (width : UInt32) (flags : Flags) : ℕ :=
  if negative ∨ flags.plus ∨ flags.space then width.toNat - 1 else width.toNat

/-- The number of digits, with their zeros, that a conversion of `n` digits has. -/
def paddedLength (n : ℕ) (negative : Bool) (prec width : UInt32) (flags : Flags) : ℕ :=
  if flags.left then n
  else max (max n (min prec.toNat 32)) (if flags.zeropad then min (zeroWidth negative width flags) 32 else 0)

section conversion

variable {value : ℕ} {negative : Bool} {base prec width : UInt32} {flags : Flags} {buf : NtoaBuf}

theorem ntoaValue_chars (hbase : 1 < base.toNat) :
    (ntoaValue value base flags).chars = numeral flags.uppercase (valueDigits value base.toNat flags) := by
  rw [ntoaValue, valueDigits]
  by_cases hsome : !flags.precision ∨ value ≠ 0
  · rw [if_pos hsome, if_pos hsome, ntoaDigits_chars hbase flags.uppercase rfl (by decide)]
    exact List.append_nil _
  · rw [if_neg hsome, if_neg hsome]
    rfl

theorem valueDigits_lt (hbase : 1 < base.toNat) : ∀ d ∈ valueDigits value base.toNat flags, d < base.toNat := by
  intro d hd
  rw [valueDigits] at hd
  split at hd
  · exact someDigits_lt hbase d (List.mem_of_mem_take (List.mem_reverse.mp hd))
  · cases hd

theorem value_valueDigits (hbase : 1 < base.toNat) (hvalue : value < base.toNat ^ 32) :
    Text.value base.toNat (valueDigits value base.toNat flags) = value := by
  rw [valueDigits]
  split
  · rw [value_eq_ofDigits, List.reverse_reverse,
      ← Nat.ofDigits_mod_pow_eq_ofDigits_take _ (by omega) _ (someDigits_lt hbase), ofDigits_someDigits,
      Nat.mod_eq_of_lt hvalue]
  · rename_i h
    obtain rfl : value = 0 := by
      by_contra hne
      exact h (Or.inr hne)
    rfl

theorem ntoaPad_width_eq_zeroWidth (hzero : flags.zeropad = true) (hleft : flags.left = false) :
    (ntoaPad buf negative prec width flags).2.toNat = zeroWidth negative width flags := by
  rw [ntoaPad, zeroWidth, hleft, hzero]
  by_cases hsign : negative ∨ flags.plus ∨ flags.space
  · by_cases hwidth : width = 0
    · simp [hwidth]
    · have hpos : 1 ≤ width := by
        rw [UInt32.le_iff_toNat_le, UInt32.toNat_one]
        have : width.toNat ≠ 0 := fun h => hwidth (UInt32.toNat_inj.mp h)
        omega
      simp [hwidth, hsign, UInt32.toNat_sub_of_le _ _ hpos]
  · simp [hsign]

theorem ntoaPad_width (h : flags.zeropad = false ∨ flags.left = true) :
    (ntoaPad buf negative prec width flags).2 = width := by
  rw [ntoaPad]
  rcases h with h | h <;> cases hleft : flags.left <;> simp_all

theorem len_ntoaPad : (ntoaPad buf negative prec width flags).1.len =
    paddedLength buf.len negative prec width flags := by
  cases hleft : flags.left with
  | true => simp [ntoaPad, paddedLength, hleft]
  | false =>
    cases hzero : flags.zeropad with
    | false => simp [ntoaPad, paddedLength, hleft, hzero, NtoaBuf.len_padTo]
    | true =>
      have hwidth : (ntoaPad buf negative prec width flags).2.toNat = _ :=
        ntoaPad_width_eq_zeroWidth hzero hleft
      rw [paddedLength, ← hwidth]
      simp [ntoaPad, hleft, hzero, NtoaBuf.len_padTo]

/-- Zeros are all that is written before the digits. -/
theorem ntoaPad_chars : (ntoaPad buf negative prec width flags).1.chars =
    List.replicate (paddedLength buf.len negative prec width flags - buf.len) (ascii '0') ++ buf.chars := by
  have hzeros : ∃ z, (ntoaPad buf negative prec width flags).1.chars =
      List.replicate z (ascii '0') ++ buf.chars := by
    rw [ntoaPad]
    cases flags.left with
    | true => exact ⟨0, rfl⟩
    | false =>
      cases flags.zeropad with
      | false => exact ⟨_, NtoaBuf.padTo_chars prec⟩
      | true =>
        show ∃ z, ((buf.padTo prec).padTo _).chars = _
        rw [NtoaBuf.padTo_chars, NtoaBuf.padTo_chars, ← List.append_assoc, ← List.replicate_add]
        exact ⟨_, rfl⟩
  obtain ⟨z, hz⟩ := hzeros
  have hlen : (ntoaPad buf negative prec width flags).1.len = z + buf.len := by
    rw [NtoaBuf.len, hz, List.length_append, List.length_replicate, NtoaBuf.len]
  rw [hz, ← len_ntoaPad, hlen, Nat.add_sub_cancel]

/-- The digits of a conversion with their zeros. -/
def paddedDigits (value : ℕ) (negative : Bool) (base prec width : UInt32) (flags : Flags) : List ℕ :=
  let ds := valueDigits value base.toNat flags
  List.replicate (paddedLength ds.length negative prec width flags - ds.length) 0 ++ ds

theorem length_paddedDigits (value : ℕ) (negative : Bool) (base prec width : UInt32) (flags : Flags) :
    (paddedDigits value negative base prec width flags).length =
      paddedLength (valueDigits value base.toNat flags).length negative prec width flags := by
  have hle : (valueDigits value base.toNat flags).length ≤
      paddedLength (valueDigits value base.toNat flags).length negative prec width flags := by
    rw [paddedLength]
    split <;> omega
  rw [paddedDigits, List.length_append, List.length_replicate, Nat.sub_add_cancel hle]

theorem paddedDigits_lt (hbase : 1 < base.toNat) :
    ∀ d ∈ paddedDigits value negative base prec width flags, d < base.toNat := by
  intro d hd
  rcases List.mem_append.mp hd with hd | hd
  · rw [List.eq_of_mem_replicate hd]
    omega
  · exact valueDigits_lt hbase d hd

theorem value_paddedDigits (hbase : 1 < base.toNat) (hvalue : value < base.toNat ^ 32) :
    Text.value base.toNat (paddedDigits value negative base prec width flags) = value :=
  (value_zeros _ _ _).trans (value_valueDigits hbase hvalue)

theorem ntoaPad_ntoaValue (hbase : 1 < base.toNat) :
    (ntoaPad (ntoaValue value base flags) negative prec width flags).1.chars =
      numeral flags.uppercase (paddedDigits value negative base prec width flags) := by
  have hchars : (ntoaValue value base flags).chars = _ := ntoaValue_chars hbase
  have hlen : (ntoaValue value base flags).len = (valueDigits value base.toNat flags).length := by
    rw [NtoaBuf.len, hchars, numeral, List.length_map]
  rw [ntoaPad_chars, hlen, hchars, paddedDigits, numeral, numeral, List.map_append, List.map_replicate]
  rfl

/-! ### Signs -/

/-- What `_out_rev` adds is spaces. -/
theorem revChars_eq (buf : NtoaBuf) (width : UInt32) (flags : Flags) :
    ∃ before after, revChars buf width flags = spaces before ++ (buf.chars ++ spaces after) := by
  rw [revChars]
  split
  · exact ⟨0, _, rfl⟩
  · split
    · exact ⟨0, 0, (List.append_nil _).symm⟩
    · exact ⟨_, 0, congrArg _ (List.append_nil _).symm⟩

/-- The sign that a conversion writes. -/
def signChars (negative : Bool) (flags : Flags) : List UInt8 :=
  if negative then [ascii '-'] else if flags.plus then [ascii '+'] else if flags.space then [ascii ' '] else []

theorem ntoaSign_chars : (ntoaSign buf negative flags).chars =
    if buf.len < 32 then signChars negative flags ++ buf.chars else buf.chars := by
  rw [ntoaSign, signChars]
  by_cases hlen : buf.len < 32
  · rw [if_pos hlen]
    split_ifs <;> first | exact NtoaBuf.push_chars hlen _ | rfl
  · rw [if_neg hlen]
    split_ifs <;> first | exact congrArg NtoaBuf.chars (NtoaBuf.push_full (Nat.not_lt.mp hlen) _) | rfl

/-- The hash is all that a value of zero changes. -/
theorem ntoaBuffer_eq (value : ℕ) (negative : Bool) (base prec width : UInt32) (flags : Flags) :
    ntoaBuffer value negative base prec width flags =
      (ntoaSign (ntoaHash (ntoaPad (ntoaValue value base flags) negative prec width flags).1 base prec
        (ntoaPad (ntoaValue value base flags) negative prec width flags).2
        { flags with hash := flags.hash && value ≠ 0 }) negative flags,
        (ntoaPad (ntoaValue value base flags) negative prec width flags).2) := by
  rw [ntoaBuffer]
  by_cases hvalue : value = 0
  · simp only [hvalue, if_true, ne_eq, not_true_eq_false, decide_false, Bool.and_false]
    rfl
  · simp only [hvalue, if_false, ne_eq, not_false_eq_true, decide_true, Bool.and_true]

/-- The buffer of a conversion without a hash: a sign, zeros and digits. -/
theorem ntoaBuffer_chars (hbase : 1 < base.toNat) (hhash : flags.hash = false) :
    (ntoaBuffer value negative base prec width flags).1.chars =
      (if (paddedDigits value negative base prec width flags).length < 32 then signChars negative flags
        else []) ++
        numeral flags.uppercase (paddedDigits value negative base prec width flags) := by
  have hpad : (ntoaPad (ntoaValue value base flags) negative prec width flags).1.chars = _ :=
    ntoaPad_ntoaValue hbase
  have hlen : (ntoaPad (ntoaValue value base flags) negative prec width flags).1.len =
      (paddedDigits value negative base prec width flags).length := by
    rw [NtoaBuf.len, hpad, numeral, List.length_map]
  rw [ntoaBuffer_eq, ntoaHash, hhash, Bool.false_and, if_neg Bool.false_ne_true, ntoaSign_chars, hlen, hpad]
  split_ifs <;> rfl

/-- A plain conversion writes the digits of its number. -/
theorem ntoaChars_plain (hbase : 1 < base.toNat) (hvalue : value < base.toNat ^ 32) (upper : Bool) :
    ntoaChars value false base 0 0 { uppercase := upper } =
      numeral upper (someDigits base.toNat value).reverse := by
  have hlen : (someDigits base.toNat value).length ≤ 32 := length_someDigits_le hbase (by decide) hvalue
  have hdigits : paddedDigits value false base 0 0 { uppercase := upper } =
      (someDigits base.toNat value).reverse := by
    have hpadded : ∀ n, paddedLength n false 0 0 { uppercase := upper } = n := fun n => by
      simp [paddedLength]
    rw [paddedDigits]
    simp only [hpadded, Nat.sub_self, List.replicate_zero, List.nil_append]
    rw [valueDigits, if_pos (by simp), List.take_of_length_le hlen]
  have hchars : (ntoaBuffer value false base 0 0 { uppercase := upper }).1.chars = _ :=
    ntoaBuffer_chars hbase rfl
  have hwidth : (ntoaBuffer value false base 0 0 { uppercase := upper }).2 = 0 := by
    rw [ntoaBuffer_eq]
    simp [ntoaPad]
  rw [hdigits] at hchars
  show revChars (ntoaBuffer value false base 0 0 _).1 (ntoaBuffer value false base 0 0 _).2 _ = _
  rw [revChars, hwidth, hchars]
  simp [spaces, signChars]

theorem readInt_signed {sign : List UInt8} {ds : List ℕ} {upper : Bool} (hbase : base.toNat ≤ 36)
    (hds : ∀ d ∈ ds, d < base.toNat) (hsign : sign = [] ∨ sign = [ascii '+'] ∨ sign = [ascii ' '])
    (before after : ℕ) :
    readInt base.toNat (spaces before ++ (sign ++ numeral upper ds ++ spaces after)) =
      Text.value base.toNat ds := by
  rcases hsign with rfl | rfl | rfl
  · exact readInt_numeral hbase hds before after
  · exact readInt_plus hbase hds before after
  · have hread : readInt base.toNat (spaces (before + 1) ++ (numeral upper ds ++ spaces after)) = _ :=
      readInt_numeral hbase hds (before + 1) after
    rwa [spaces, List.replicate_succ', List.append_assoc] at hread

/-- **A number is read back**, in whatever field and with whatever zeros it is printed: unless it is
negative, and its digits and zeros leave the sign no room in the buffer. -/
theorem readInt_ntoaChars (value : ℕ) (negative : Bool) (base prec width : UInt32) (flags : Flags)
    (hbase : 1 < base.toNat ∧ base.toNat ≤ 36) (hhash : flags.hash = false) (hvalue : value < base.toNat ^ 32) :
    readInt base.toNat (ntoaChars value negative base prec width flags) =
        (if negative then -(value : ℤ) else value) ↔
      ¬ (negative ∧ value ≠ 0 ∧
        32 ≤ paddedLength (valueDigits value base.toNat flags).length negative prec width flags) := by
  rw [← length_paddedDigits]
  have hds : ∀ d ∈ paddedDigits value negative base prec width flags, d < base.toNat := paddedDigits_lt hbase.1
  have hval : Text.value base.toNat (paddedDigits value negative base prec width flags) = value :=
    value_paddedDigits hbase.1 hvalue
  obtain ⟨before, after, hrev⟩ := revChars_eq (ntoaBuffer value negative base prec width flags).1
    (ntoaBuffer value negative base prec width flags).2 flags
  have hchars : ntoaChars value negative base prec width flags = _ := hrev
  rw [hchars, ntoaBuffer_chars hbase.1 hhash]
  by_cases hroom : (paddedDigits value negative base prec width flags).length < 32
  · rw [if_pos hroom]
    refine iff_of_true ?_ fun h => absurd hroom (Nat.not_lt.mpr h.2.2)
    cases negative with
    | true => exact (readInt_minus hbase.2 hds before after).trans (by rw [hval]; rfl)
    | false =>
      refine (readInt_signed hbase.2 hds ?_ before after).trans (by rw [hval]; rfl)
      rw [signChars]
      split_ifs <;> simp_all
  · rw [if_neg hroom, readInt_signed hbase.2 hds (Or.inl rfl), hval]
    cases negative with
    | false => simp
    | true =>
      simp only [if_true, true_and]
      omega

/-! ### Fields -/

theorem length_revChars (buf : NtoaBuf) (width : UInt32) (flags : Flags) :
    (revChars buf width flags).length =
      if flags.zeropad ∧ !flags.left then buf.len else max buf.len width.toNat := by
  rw [revChars]
  cases flags.left <;> cases flags.zeropad <;>
    simp only [spaces, NtoaBuf.len, List.length_append, List.length_replicate, Bool.false_eq_true,
      Bool.not_true, Bool.not_false, if_true, if_false, and_true, and_false, and_self] <;> omega

/-- The number of characters that the hash takes off, to make room for the prefix. -/
def roomTaken (len : ℕ) (base prec width : UInt32) (flags : Flags) : ℕ :=
  if !flags.precision ∧ (len = prec.toNat ∨ len = width.toNat) then if base = 16 then 2 else 1 else 0

theorem ntoaRoom_chars : (ntoaRoom buf base prec width flags).chars =
    buf.chars.drop (roomTaken buf.len base prec width flags) := by
  have htail : ∀ cs : List UInt8, cs.tail.length = 0 → cs.tail = cs.drop 2 := by
    intro cs hcs
    rw [← List.drop_one, List.length_drop] at hcs
    rw [← List.drop_one, List.drop_of_length_le (by omega), List.drop_of_length_le (by omega)]
  rw [ntoaRoom, roomTaken]
  by_cases hfit : !flags.precision ∧ (buf.len = prec.toNat ∨ buf.len = width.toNat)
  · rw [if_pos hfit]
    by_cases hlen : buf.len = 0
    · rw [if_neg fun h => h.2.1 hlen, List.eq_nil_of_length_eq_zero hlen, List.drop_nil]
    · rw [if_pos ⟨hfit.1, hlen, hfit.2⟩]
      by_cases h16 : base = 16
      · by_cases hmore : buf.pop.len = 0
        · rw [if_pos h16]
          exact (congrArg NtoaBuf.chars (if_neg fun h => h.1 hmore)).trans (htail _ hmore)
        · rw [if_pos h16]
          refine (congrArg NtoaBuf.chars (if_pos ⟨hmore, h16⟩)).trans ?_
          show buf.chars.tail.tail = _
          rw [← List.drop_one, ← List.drop_one, List.drop_drop]
      · rw [if_neg h16, List.drop_one]
        exact congrArg NtoaBuf.chars (if_neg fun h => h16 h.2)
  · rw [if_neg hfit, if_neg fun h => hfit ⟨h.1, h.2.2⟩]
    rfl

theorem len_ntoaPrefix : (ntoaPrefix buf base flags).len =
    min (buf.len + if base = 16 ∨ base = 2 then 2 else 1) 32 := by
  have hle := buf.length_le
  rw [← NtoaBuf.len] at hle
  rw [ntoaPrefix, NtoaBuf.len_push]
  cases flags.uppercase <;> by_cases h16 : base = 16 <;> by_cases h2 : base = 2 <;>
    simp [h16, h2, NtoaBuf.len_push] <;> omega

/-- What the hash takes off is no more than what it writes. -/
theorem len_le_ntoaHash : buf.len ≤ (ntoaHash buf base prec width flags).len := by
  have hle := buf.length_le
  rw [← NtoaBuf.len] at hle
  rw [ntoaHash]
  by_cases hhash : flags.hash
  · have hroom : (ntoaRoom buf base prec width flags).len =
        buf.len - roomTaken buf.len base prec width flags := by
      rw [NtoaBuf.len, ntoaRoom_chars, List.length_drop, NtoaBuf.len]
    rw [if_pos hhash, len_ntoaPrefix, hroom, roomTaken]
    by_cases h16 : base = 16
    · rw [if_pos h16, if_pos (Or.inl h16)]
      split_ifs <;> omega
    · rw [if_neg h16]
      split_ifs <;> omega
  · rw [if_neg hhash]

theorem len_ntoaSign : (ntoaSign buf negative flags).len =
    if negative ∨ flags.plus ∨ flags.space then min (buf.len + 1) 32 else buf.len := by
  rw [ntoaSign]
  cases negative <;> cases flags.plus <;> cases flags.space <;> simp [NtoaBuf.len_push]

/-- A conversion that is padded with zeros is as wide as its field, if the buffer is. -/
theorem min_le_len_ntoaBuffer (hzero : flags.zeropad = true) (hleft : flags.left = false) :
    min width.toNat 32 ≤ (ntoaBuffer value negative base prec width flags).1.len := by
  have hpad : (ntoaPad (ntoaValue value base flags) negative prec width flags).1.len = _ := len_ntoaPad
  have hhash : (ntoaPad (ntoaValue value base flags) negative prec width flags).1.len ≤
      (ntoaHash (ntoaPad (ntoaValue value base flags) negative prec width flags).1 base prec
        (ntoaPad (ntoaValue value base flags) negative prec width flags).2
        { flags with hash := flags.hash && value ≠ 0 }).len := len_le_ntoaHash
  rw [paddedLength, hleft, if_neg (by decide), hzero, if_pos rfl, zeroWidth] at hpad
  rw [ntoaBuffer_eq, len_ntoaSign]
  split_ifs at hpad ⊢ <;> omega

/-- **A number is as wide as its field**, with every flag and in every base: unless it is padded with
zeros, and its field is wider than the buffer. -/
theorem width_le_ntoaChars (value : ℕ) (negative : Bool) (base prec width : UInt32) (flags : Flags) :
    width.toNat ≤ (ntoaChars value negative base prec width flags).length ↔
      ¬ (flags.zeropad ∧ !flags.left ∧ 32 < width.toNat) := by
  have hlen : (ntoaChars value negative base prec width flags).length =
      if flags.zeropad ∧ !flags.left then (ntoaBuffer value negative base prec width flags).1.len
      else max (ntoaBuffer value negative base prec width flags).1.len
        (ntoaBuffer value negative base prec width flags).2.toNat := length_revChars _ _ flags
  have hle := (ntoaBuffer value negative base prec width flags).1.length_le
  rw [← NtoaBuf.len] at hle
  rw [hlen]
  by_cases hzero : flags.zeropad = true ∧ flags.left = false
  · have hmin : min width.toNat 32 ≤ (ntoaBuffer value negative base prec width flags).1.len :=
      min_le_len_ntoaBuffer hzero.1 hzero.2
    rw [hzero.1, hzero.2, if_pos ⟨rfl, rfl⟩]
    simp only [Bool.not_false, true_and]
    omega
  · have hor : flags.zeropad = false ∨ flags.left = true := by
      cases hzeropad : flags.zeropad <;> cases hleft : flags.left <;> simp_all
    have hnot : ¬ (flags.zeropad = true ∧ (!flags.left) = true) := by
      rcases hor with h | h <;> simp [h]
    rw [if_neg hnot, ntoaBuffer_eq, ntoaPad_width hor]
    exact iff_of_true (Nat.le_max_right _ _) fun h => hnot ⟨h.1, h.2.1⟩

end conversion

end JurasOS
