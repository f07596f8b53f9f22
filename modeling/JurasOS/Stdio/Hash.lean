import JurasOS.Stdio.Numbers

/-!
# The hash in base 16

`printf("%#x")` writes a prefix before the digits. The code takes two characters off
a number that is as long as its field, to have room for the prefix; these are zeros
only if the field was padded with two of them.
-/

namespace JurasOS

open Machine Text

/-- The prefix of a number of `n` digits fits its field. -/
def HexFits (n : ℕ) (width : UInt32) (flags : Flags) : Prop :=
  if flags.zeropad ∧ !flags.left then width.toNat < n ∨ n + 2 ≤ width.toNat ∧ width.toNat ≤ 32
  else width.toNat ≠ n

section hash

variable {value : ℕ} {prec width : UInt32} {flags : Flags} {buf : NtoaBuf}

theorem ntoaPrefix_chars (h : buf.len + 2 ≤ 32) : (ntoaPrefix buf 16 flags).chars =
    ascii '0' :: (if flags.uppercase then ascii 'X' else ascii 'x') :: buf.chars := by
  cases hupper : flags.uppercase with
  | true =>
    have hlen : (buf.push (ascii 'X')).len = min (buf.len + 1) 32 := NtoaBuf.len_push _
    rw [ntoaPrefix, hupper, if_neg (by decide), if_pos ⟨rfl, rfl⟩, NtoaBuf.push_chars (by omega),
      NtoaBuf.push_chars (by omega)]
    rfl
  | false =>
    have hlen : (buf.push (ascii 'x')).len = min (buf.len + 1) 32 := NtoaBuf.len_push _
    rw [ntoaPrefix, hupper, if_pos ⟨rfl, rfl⟩, NtoaBuf.push_chars (by omega), NtoaBuf.push_chars (by omega)]
    rfl

theorem ntoaPrefix_full (h : 32 ≤ buf.len) : ntoaPrefix buf 16 flags = buf := by
  rw [ntoaPrefix]
  cases flags.uppercase <;> simp [NtoaBuf.push_full h]

theorem ntoaPad_width_of_unsigned (hplus : flags.plus = false) (hspace : flags.space = false) :
    (ntoaPad buf false prec width flags).2 = width := by
  rw [ntoaPad]
  cases flags.left <;> simp [hplus, hspace]

/-- The buffer of a conversion with a hash. -/
theorem ntoaBuffer_hash (hvalue : value ≠ 0) (hhash : flags.hash = true) (hplus : flags.plus = false)
    (hspace : flags.space = false) :
    (ntoaBuffer value false 16 prec width flags).1 =
      ntoaPrefix (ntoaRoom (ntoaPad (ntoaValue value 16 flags) false prec width flags).1 16 prec width flags)
        16 flags := by
  have hflags : { flags with hash := flags.hash && decide (value ≠ 0) } = flags := by
    rw [decide_eq_true hvalue, Bool.and_true]
  have hsign : ∀ b : NtoaBuf, ntoaSign b false flags = b := by
    intro b
    rw [ntoaSign, hplus, hspace]
    rfl
  rw [ntoaBuffer_eq, hflags, hsign, ntoaPad_width_of_unsigned hplus hspace, ntoaHash, if_pos hhash]

theorem length_valueDigits {base : ℕ} (hbase : 1 < base) (hvalue : value ≠ 0)
    (hlen : (Nat.digits base value).length ≤ 32) :
    (valueDigits value base flags).length = (Nat.digits base value).length := by
  rw [valueDigits, if_pos (Or.inr hvalue), someDigits_of_ne_zero hbase hvalue, List.length_reverse,
    List.length_take, Nat.min_eq_right hlen]

/-- **A number with a hash is read back** exactly when its prefix fits: otherwise digits of it are
lost, or the prefix is. -/
theorem readHex_ntoaChars (value : ℕ) (width : UInt32) (flags : Flags) (hvalue : value ≠ 0)
    (hlt : value < 16 ^ 30) (hhash : flags.hash = true) (hprec : flags.precision = false)
    (hsign : flags.plus = false ∧ flags.space = false) :
    readHex (ntoaChars value false 16 0 width flags) = some value ↔
      HexFits (Nat.digits 16 value).length width flags := by
  have hn : (Nat.digits 16 value).length ≤ 30 := (Nat.digits_length_le_iff (by decide) value).mpr hlt
  have hn0 : (Nat.digits 16 value).length ≠ 0 := by
    rw [ne_eq, List.length_eq_zero_iff]
    exact Nat.digits_ne_nil_iff_ne_zero.mpr hvalue
  -- the digits with their zeros, and what the hash takes off them
  obtain ⟨ds, hds⟩ : ∃ ds, ds = paddedDigits value false 16 0 width flags := ⟨_, rfl⟩
  have h16 : 1 < (16 : UInt32).toNat := by decide
  have hlt16 : ∀ d ∈ ds, d < 16 := hds ▸ paddedDigits_lt h16
  have hval : Text.value 16 ds = value := by
    have h32 : value < 16 ^ 32 := by omega
    exact hds ▸ value_paddedDigits h16 h32
  have hlen : ds.length = if flags.zeropad ∧ !flags.left then
      max (Nat.digits 16 value).length (min width.toNat 32) else (Nat.digits 16 value).length := by
    have hdigits : (valueDigits value 16 flags).length = _ := length_valueDigits (by decide) hvalue (by omega)
    have hlength : ds.length = paddedLength (Nat.digits 16 value).length false 0 width flags := by
      rw [hds, length_paddedDigits]
      exact congrArg (paddedLength · false 0 width flags) hdigits
    rw [hlength, paddedLength, zeroWidth, hsign.1, hsign.2]
    cases flags.left <;> cases flags.zeropad <;> simp
  have hpad : (ntoaPad (ntoaValue value 16 flags) false 0 width flags).1.chars = numeral flags.uppercase ds :=
    hds ▸ ntoaPad_ntoaValue h16
  obtain ⟨r, hr⟩ : ∃ r, r = roomTaken ds.length 16 0 width flags := ⟨_, rfl⟩
  have hroom : (ntoaRoom (ntoaPad (ntoaValue value 16 flags) false 0 width flags).1 16 0 width flags).chars =
      numeral flags.uppercase (ds.drop r) := by
    rw [ntoaRoom_chars, NtoaBuf.len, hpad, numeral, List.length_map, ← hr, ← List.map_drop, numeral]
  have hrlt : ∀ d ∈ ds.drop r, d < 16 := fun d hd => hlt16 d (List.mem_of_mem_drop hd)
  have hr : r = if ds.length = width.toNat then 2 else 0 := by
    have hpos : ds.length ≠ 0 := by
      rw [hlen]
      split_ifs <;> omega
    rw [hr, roomTaken, hprec]
    simp [hpos]
  have hfits : HexFits (Nat.digits 16 value).length width flags ↔
      ds.length - r + 2 ≤ 32 ∧ (Nat.digits 16 value).length ≤ ds.length - r := by
    rw [HexFits]
    split_ifs at hlen hr ⊢ <;> omega
  rw [hfits, ntoaChars]
  have hbuf : (ntoaBuffer value false 16 0 width flags).1 = _ := ntoaBuffer_hash hvalue hhash hsign.1 hsign.2
  have hlenRoom :
      (ntoaRoom (ntoaPad (ntoaValue value 16 flags) false 0 width flags).1 16 0 width flags).len =
        ds.length - r := by
    rw [NtoaBuf.len, hroom, numeral, List.length_map, List.length_drop]
  by_cases hfull : ds.length - r + 2 ≤ 32
  · -- the prefix is written, and the digits after it are those that were not taken off
    have hx : (if flags.uppercase then ascii 'X' else ascii 'x') = ascii 'x' ∨
        (if flags.uppercase then ascii 'X' else ascii 'x') = ascii 'X' := by
      cases flags.uppercase <;> simp
    obtain ⟨before, after, hrev⟩ := revChars_eq (ntoaBuffer value false 16 0 width flags).1
      (ntoaBuffer value false 16 0 width flags).2 flags
    have hread : readHex (revChars (ntoaBuffer value false 16 0 width flags).1
        (ntoaBuffer value false 16 0 width flags).2 flags) = some (value % 16 ^ (ds.length - r)) := by
      rw [hrev, hbuf, ntoaPrefix_chars (hlenRoom ▸ hfull), hroom, List.cons_append, List.cons_append,
        readHex_prefix hx hrlt, value_drop (by decide) hlt16, hval]
    refine (Eq.congr_left hread).trans ?_
    rw [Option.some_inj, Nat.mod_eq_iff_lt (Nat.pow_pos (by decide)).ne', Nat.digits_length_le_iff (by decide)]
    exact ⟨fun h => ⟨hfull, h⟩, fun h => h.2⟩
  · -- the buffer is full of zeros and digits
    have hwide : flags.zeropad = true ∧ flags.left = false ∧ ds.length - r = 32 := by
      by_cases hzero : flags.zeropad = true ∧ (!flags.left) = true
      · rw [if_pos hzero] at hlen
        refine ⟨hzero.1, by simpa using hzero.2, ?_⟩
        split_ifs at hr <;> omega
      · rw [if_neg hzero] at hlen
        omega
    have hread : readHex (revChars (ntoaBuffer value false 16 0 width flags).1
        (ntoaBuffer value false 16 0 width flags).2 flags) = none := by
      rw [revChars, hwide.1, hwide.2.1, if_neg Bool.false_ne_true, if_pos rfl, hbuf,
        ntoaPrefix_full (hlenRoom ▸ hwide.2.2.ge), hroom, readHex_numeral hrlt]
    exact iff_of_false (by simp [hread]) fun h => hfull h.1

end hash

end JurasOS
