import JurasOS.Text.Numeral
import JurasOS.Tty.Terminal

/-!
# `stdio.c`: characters and numbers

The output functions that `_vsnprintf` is called with, and the conversion of
numbers. A conversion writes its characters into a buffer of 32, from the last to
the first, and then puts them out in reverse: here the buffer is the list of its
characters, the last written first, with the bound on its length in the type.
`ntoaChars` lists what a conversion puts out.
-/

namespace JurasOS

open Machine Text

/-- `out_fct_type`: the character, the buffer, the index and the length. -/
abbrev OutFct := UInt8 → UInt32 → UInt32 → UInt32 → Kernel → Kernel

/-- `_out_buffer`. -/
def outBuffer : OutFct := fun character buffer idx maxlen s =>
  if idx < maxlen then { s with mem := s.mem.store8 (buffer + idx) character } else s

/-- `_out_null`. -/
def outNull : OutFct := fun _ _ _ _ s => s

/-- `_out_char`, in the kernel. -/
def outChar : OutFct := fun character _ _ _ s => if character ≠ 0 then terminalPutchar character s else s

/-- `_out_fct`, on the function and the argument that its buffer holds. -/
def outFct (fct : UInt8 → UInt32 → Kernel → Kernel) (arg : UInt32) : OutFct := fun character _ _ _ s =>
  if character ≠ 0 then fct character arg s else s

/-- What `_vsnprintf` passes on: the output function, and its buffer and length. -/
structure Sink where
  out : OutFct
  buffer : UInt32
  maxlen : UInt32

/-- The kernel and the variables of `_vsnprintf`: the place in the format, in the arguments, and
the number of characters put out. -/
structure PrintState where
  kernel : Kernel
  format : UInt32
  va : UInt32
  idx : UInt32

/-- The kernel after characters are put out, the first with this index. -/
def Sink.feed (o : Sink) : UInt32 → List UInt8 → Kernel → Kernel
  | _, [], s => s
  | idx, c :: cs, s => o.feed (idx + 1) cs (o.out c o.buffer idx o.maxlen s)

/-- `out(c, buffer, idx++, maxlen)`. -/
def PrintState.put (o : Sink) (c : UInt8) (p : PrintState) : PrintState :=
  { p with kernel := o.out c o.buffer p.idx o.maxlen p.kernel, idx := p.idx + 1 }

/-- Put out characters, one after the other. -/
def PrintState.puts (o : Sink) (cs : List UInt8) (p : PrintState) : PrintState :=
  { p with kernel := o.feed p.idx cs p.kernel, idx := p.idx + UInt32.ofNat cs.length }

section puts

variable (o : Sink) (c : UInt8) (cs ds : List UInt8) (p : PrintState)

@[simp] theorem PrintState.puts_format : (p.puts o cs).format = p.format := rfl
@[simp] theorem PrintState.puts_va : (p.puts o cs).va = p.va := rfl
@[simp] theorem PrintState.puts_kernel : (p.puts o cs).kernel = o.feed p.idx cs p.kernel := rfl
@[simp] theorem PrintState.puts_idx : (p.puts o cs).idx = p.idx + UInt32.ofNat cs.length := rfl

@[simp] theorem Sink.feed_nil (idx : UInt32) (s : Kernel) : o.feed idx [] s = s := rfl

theorem Sink.feed_append (idx : UInt32) (s : Kernel) :
    o.feed idx (cs ++ ds) s = o.feed (idx + UInt32.ofNat cs.length) ds (o.feed idx cs s) := by
  induction cs generalizing idx s with
  | nil => simp
  | cons c cs ih =>
    rw [List.cons_append, Sink.feed, ih, Sink.feed, List.length_cons, Nat.add_comm cs.length,
      UInt32.ofNat_add, ← UInt32.add_assoc]
    rfl

@[simp] theorem PrintState.puts_nil : p.puts o [] = p := by simp [PrintState.puts]

theorem PrintState.puts_append : p.puts o (cs ++ ds) = (p.puts o cs).puts o ds := by
  rw [PrintState.puts, PrintState.puts, PrintState.puts, Sink.feed_append, List.length_append, UInt32.ofNat_add,
    UInt32.add_assoc]

theorem PrintState.puts_singleton : p.puts o [c] = p.put o c := rfl

theorem PrintState.foldl_put : cs.foldl (fun p c => p.put o c) p = p.puts o cs := by
  induction cs generalizing p with
  | nil => simp
  | cons c cs ih => rw [List.foldl_cons, ih, ← PrintState.puts_singleton, ← PrintState.puts_append,
      List.singleton_append]

theorem PrintState.times_put (n : ℕ) : times n (fun _ p => p.put o c) p = p.puts o (List.replicate n c) := by
  induction n with
  | zero => simp
  | succ n ih => rw [times, ih, ← PrintState.puts_singleton, ← PrintState.puts_append, List.replicate_succ']

end puts

/-- The flags of a directive. -/
structure Flags where
  zeropad : Bool := false
  left : Bool := false
  plus : Bool := false
  space : Bool := false
  hash : Bool := false
  uppercase : Bool := false
  char : Bool := false
  short : Bool := false
  long : Bool := false
  longLong : Bool := false
  precision : Bool := false
  adaptExp : Bool := false

/-! ### The buffer of a conversion -/

/-- The characters in a buffer of `PRINTF_NTOA_BUFFER_SIZE`, the last first. -/
structure NtoaBuf where
  chars : List UInt8
  length_le : chars.length ≤ 32

/-- The empty buffer. -/
def NtoaBuf.empty : NtoaBuf := ⟨[], Nat.zero_le _⟩

/-- `len`. -/
def NtoaBuf.len (buf : NtoaBuf) : ℕ := buf.chars.length

/-- `if (len < PRINTF_NTOA_BUFFER_SIZE) buf[len++] = c`. -/
def NtoaBuf.push (buf : NtoaBuf) (c : UInt8) : NtoaBuf :=
  if h : buf.chars.length < 32 then ⟨c :: buf.chars, h⟩ else buf

/-- `len--`. -/
def NtoaBuf.pop (buf : NtoaBuf) : NtoaBuf :=
  ⟨buf.chars.tail, by rw [List.length_tail]; exact Nat.le_trans (Nat.sub_le _ _) buf.length_le⟩

/-- `while ((len < n) && (len < PRINTF_NTOA_BUFFER_SIZE)) buf[len++] = '0'`. -/
def NtoaBuf.padTo (buf : NtoaBuf) (n : UInt32) : NtoaBuf :=
  times (min n.toNat 32 - buf.len) (fun _ buf => buf.push (ascii '0')) buf

section NtoaBuf

variable {buf : NtoaBuf}

theorem NtoaBuf.push_chars (h : buf.len < 32) (c : UInt8) : (buf.push c).chars = c :: buf.chars := by
  rw [NtoaBuf.push]
  exact congrArg NtoaBuf.chars (dif_pos h)

theorem NtoaBuf.push_full (h : 32 ≤ buf.len) (c : UInt8) : buf.push c = buf := dif_neg (Nat.not_lt.mpr h)

theorem NtoaBuf.len_push (c : UInt8) : (buf.push c).len = min (buf.len + 1) 32 := by
  have hle := buf.length_le
  by_cases h : buf.len < 32
  · rw [NtoaBuf.len, NtoaBuf.push_chars h, List.length_cons]
    exact (Nat.min_eq_left h).symm
  · rw [NtoaBuf.push_full (by omega), NtoaBuf.len] at *
    omega

theorem NtoaBuf.padTo_chars (n : UInt32) :
    (buf.padTo n).chars = List.replicate (min n.toNat 32 - buf.len) (ascii '0') ++ buf.chars := by
  refine times_inv (P := fun i (b : NtoaBuf) => b.chars = List.replicate i (ascii '0') ++ buf.chars) rfl ?_
  intro i hi b hb
  have hlen : b.len < 32 := by
    rw [NtoaBuf.len, hb, List.length_append, List.length_replicate]
    rw [NtoaBuf.len] at hi
    omega
  rw [NtoaBuf.push_chars hlen, hb, List.replicate_succ, List.cons_append]

theorem NtoaBuf.len_padTo (n : UInt32) : (buf.padTo n).len = max buf.len (min n.toNat 32) := by
  rw [NtoaBuf.len, NtoaBuf.padTo_chars, List.length_append, List.length_replicate]
  rw [NtoaBuf.len]
  omega

end NtoaBuf

/-! ### The conversion of numbers -/

/-- `_out_rev`. -/
def outRev (o : Sink) (buf : NtoaBuf) (width : UInt32) (flags : Flags) (p : PrintState) : PrintState :=
  let startIdx := p.idx
  let p := if !flags.left && !flags.zeropad then
      times (width.toNat - buf.len) (fun _ p => p.put o (ascii ' ')) p
    else p
  let p := buf.chars.foldl (fun p c => p.put o c) p
  if flags.left then times (width.toNat - (p.idx - startIdx).toNat) (fun _ p => p.put o (ascii ' ')) p
  else p

/-- The leading zeros of `_ntoa_format`: the buffer, and the width that is left. -/
def ntoaPad (buf : NtoaBuf) (negative : Bool) (prec width : UInt32) (flags : Flags) : NtoaBuf × UInt32 :=
  if !flags.left then
    let width :=
      if width ≠ 0 ∧ flags.zeropad ∧ (negative ∨ flags.plus ∨ flags.space) then width - 1 else width
    let buf := buf.padTo prec
    (if flags.zeropad then buf.padTo width else buf, width)
  else (buf, width)

/-- The room that the hash of `_ntoa_format` makes for the prefix. -/
def ntoaRoom (buf : NtoaBuf) (base prec width : UInt32) (flags : Flags) : NtoaBuf :=
  if !flags.precision ∧ buf.len ≠ 0 ∧ (buf.len = prec.toNat ∨ buf.len = width.toNat) then
    let buf := buf.pop
    if buf.len ≠ 0 ∧ base = 16 then buf.pop else buf
  else buf

/-- The prefix of `_ntoa_format`. -/
def ntoaPrefix (buf : NtoaBuf) (base : UInt32) (flags : Flags) : NtoaBuf :=
  let buf :=
    if base = 16 ∧ !flags.uppercase then buf.push (ascii 'x')
    else if base = 16 ∧ flags.uppercase then buf.push (ascii 'X')
    else if base = 2 then buf.push (ascii 'b')
    else buf
  buf.push (ascii '0')

/-- The hash of `_ntoa_format`. -/
def ntoaHash (buf : NtoaBuf) (base prec width : UInt32) (flags : Flags) : NtoaBuf :=
  if flags.hash then ntoaPrefix (ntoaRoom buf base prec width flags) base flags else buf

/-- The sign of `_ntoa_format`. -/
def ntoaSign (buf : NtoaBuf) (negative : Bool) (flags : Flags) : NtoaBuf :=
  if negative then buf.push (ascii '-')
  else if flags.plus then buf.push (ascii '+')
  else if flags.space then buf.push (ascii ' ')
  else buf

/-- `_ntoa_format`. -/
def ntoaFormat (o : Sink) (buf : NtoaBuf) (negative : Bool) (base prec width : UInt32) (flags : Flags)
    (p : PrintState) : PrintState :=
  let (buf, width) := ntoaPad buf negative prec width flags
  let buf := ntoaHash buf base prec width flags
  let buf := ntoaSign buf negative flags
  outRev o buf width flags p

/-- The loop that writes the digits, the least significant first. It ends when the buffer is full, so
in 32 iterations. -/
def ntoaDigits (base : ℕ) (upper : Bool) : ℕ → ℕ → NtoaBuf → NtoaBuf
  | 0, _, buf => buf
  | k + 1, value, buf =>
    let buf := buf.push (digitChar upper (value % base))
    if value / base ≠ 0 ∧ buf.len < 32 then ntoaDigits base upper k (value / base) buf else buf

/-- The digits of the value: none of zero, if its precision is given. -/
def ntoaValue (value : ℕ) (base : UInt32) (flags : Flags) : NtoaBuf :=
  if !flags.precision ∨ value ≠ 0 then ntoaDigits base.toNat flags.uppercase 32 value NtoaBuf.empty
  else NtoaBuf.empty

/-- What `_ntoa_long` does, on a number of any size. -/
def ntoa (o : Sink) (value : ℕ) (negative : Bool) (base prec width : UInt32) (flags : Flags) (p : PrintState) :
    PrintState :=
  let flags := if value = 0 then { flags with hash := false } else flags
  ntoaFormat o (ntoaValue value base flags) negative base prec width flags p

/-- `_ntoa_long`. -/
def ntoaLong (o : Sink) (value : UInt32) (negative : Bool) (base prec width : UInt32) (flags : Flags)
    (p : PrintState) : PrintState :=
  ntoa o value.toNat negative base prec width flags p

/-! ### What is put out -/

/-- The characters that `_out_rev` puts out. -/
def revChars (buf : NtoaBuf) (width : UInt32) (flags : Flags) : List UInt8 :=
  if flags.left then buf.chars ++ spaces (width.toNat - buf.len)
  else if flags.zeropad then buf.chars
  else spaces (width.toNat - buf.len) ++ buf.chars

/-- The buffer that a conversion puts out, and the width it has left. -/
def ntoaBuffer (value : ℕ) (negative : Bool) (base prec width : UInt32) (flags : Flags) : NtoaBuf × UInt32 :=
  let flags := if value = 0 then { flags with hash := false } else flags
  let (buf, width) := ntoaPad (ntoaValue value base flags) negative prec width flags
  (ntoaSign (ntoaHash buf base prec width flags) negative flags, width)

/-- The characters that a conversion puts out. -/
def ntoaChars (value : ℕ) (negative : Bool) (base prec width : UInt32) (flags : Flags) : List UInt8 :=
  let (buf, width) := ntoaBuffer value negative base prec width flags
  revChars buf width flags

section outRev

variable (o : Sink) (buf : NtoaBuf) (width : UInt32) (flags : Flags) (p : PrintState)

theorem outRev_eq : outRev o buf width flags p = p.puts o (revChars buf width flags) := by
  have hlen : (UInt32.ofNat buf.chars.length).toNat = buf.len := by
    have := buf.length_le
    rw [UInt32.toNat_ofNat', NtoaBuf.len]
    omega
  have hidx : p.idx + UInt32.ofNat buf.chars.length - p.idx = UInt32.ofNat buf.chars.length := by
    rw [UInt32.add_comm, UInt32.add_sub_cancel]
  cases hleft : flags.left <;> cases hzero : flags.zeropad <;>
    simp [outRev, revChars, hleft, hzero, PrintState.times_put, PrintState.foldl_put, PrintState.puts_append,
      spaces, hidx, hlen]

theorem ntoa_eq (value : ℕ) (negative : Bool) (base prec : UInt32) :
    ntoa o value negative base prec width flags p =
      p.puts o (ntoaChars value negative base prec width flags) := by
  have hrev : ∀ b w, revChars b w (if value = 0 then { flags with hash := false } else flags) =
      revChars b w flags := by
    intro b w
    by_cases hvalue : value = 0
    · rw [if_pos hvalue]
      rfl
    · rw [if_neg hvalue]
  exact (outRev_eq o _ _ _ p).trans (congrArg (p.puts o) (hrev _ _))

end outRev

end JurasOS
