import JurasOS.Stdio.Ntoa

/-!
# `stdio.c`: the format

`_vsnprintf` as the C function has it: the format is read byte by byte from the
memory, the arguments word by word from the stack that `va` points into, and each
character is put out as soon as it is known. A loop that does not end within the
iterations it is given halts the run; an output function may change the memory that
is still to be read. The conversions of floating point numbers are parameters: the
characters that they put out.
-/

namespace JurasOS

open Machine Text

/-- A computation of `_vsnprintf`. -/
abbrev PrintM := EStateM Halt PrintState

/-- The characters that `_ftoa` and `_etoa` put out for a number, a precision and a width. -/
structure Floats where
  ftoa : UInt64 → UInt32 → UInt32 → Flags → List UInt8
  etoa : UInt64 → UInt32 → UInt32 → Flags → List UInt8

/-- `*format`. -/
def peek : PrintM UInt8 := fun p => .ok (p.kernel.mem p.format) p

/-- `format++`. -/
def advance : PrintM PUnit := modify fun p => { p with format := p.format + 1 }

/-- `va_arg(va, int)`, or of another type of one word. -/
def vaArg : PrintM UInt32 := fun p => .ok (p.kernel.mem.load32 p.va) { p with va := p.va + 4 }

/-- `va_arg(va, long long)`, or of another type of two words. -/
def vaArg64 : PrintM UInt64 := fun p => .ok (p.kernel.mem.load64 p.va) { p with va := p.va + 8 }

/-- `_strnlen_s`. -/
def strnlen (m : Mem) (s : UInt32) : ℕ → ℕ
  | 0 => 0
  | maxsize + 1 => if m s = 0 then 0 else strnlen m (s + 1) maxsize + 1

/-- `_is_digit`. -/
def isDigit (ch : UInt8) : Bool := ascii '0' ≤ ch && ch ≤ ascii '9'

/-- An iteration of the loop of `_atoi`. -/
def atoiStep (i : UInt32) : PrintM (UInt32 ⊕ UInt32) := do
  let c ← peek
  if isDigit c then
    advance
    pure (.inl (i * 10 + (c - ascii '0').toUInt32))
  else pure (.inr i)

/-- `_atoi`. -/
def atoi (fuel : ℕ) : PrintM UInt32 := loopM .running atoiStep fuel 0

/-- The flag that a character sets. -/
def flagOf (c : UInt8) (flags : Flags) : Option Flags :=
  if c = ascii '0' then some { flags with zeropad := true }
  else if c = ascii '-' then some { flags with left := true }
  else if c = ascii '+' then some { flags with plus := true }
  else if c = ascii ' ' then some { flags with space := true }
  else if c = ascii '#' then some { flags with hash := true }
  else none

/-- An iteration of the loop of `evaluate flags`. -/
def flagsStep (flags : Flags) : PrintM (Flags ⊕ Flags) := do
  let c ← peek
  match flagOf c flags with
  | some flags =>
    advance
    pure (.inl flags)
  | none => pure (.inr flags)

/-- `evaluate flags`. -/
def evalFlags (fuel : ℕ) : PrintM Flags := loopM .running flagsStep fuel {}

/-- The flags and the width of an argument for the width. -/
def starWidth (w : UInt32) (flags : Flags) : Flags × UInt32 :=
  if w.toInt32 < 0 then ({ flags with left := true }, (-w.toInt32).toUInt32) else (flags, w)

/-- `evaluate width field`. -/
def evalWidth (fuel : ℕ) (flags : Flags) : PrintM (Flags × UInt32) := do
  let c ← peek
  if isDigit c then
    let width ← atoi fuel
    pure (flags, width)
  else if c = ascii '*' then
    let w ← vaArg
    advance
    pure (starWidth w flags)
  else pure (flags, 0)

/-- The precision of an argument for the precision. -/
def starPrecision (prec : UInt32) : UInt32 := if 0 < prec.toInt32 then prec else 0

/-- The number after the period. -/
def evalPrecisionField (fuel : ℕ) : PrintM UInt32 := do
  let c ← peek
  if isDigit c then atoi fuel
  else if c = ascii '*' then
    let prec ← vaArg
    advance
    pure (starPrecision prec)
  else pure 0

/-- `evaluate precision field`. -/
def evalPrecision (fuel : ℕ) (flags : Flags) : PrintM (Flags × UInt32) := do
  let c ← peek
  if c = ascii '.' then
    advance
    let precision ← evalPrecisionField fuel
    pure ({ flags with precision := true }, precision)
  else pure (flags, 0)

/-- `evaluate length field`. A `ptrdiff_t` and a `size_t` are as long as a `long`, an `intmax_t` is not. -/
def evalLength (flags : Flags) : PrintM Flags := do
  let c ← peek
  if c = ascii 'l' then
    advance
    let c ← peek
    if c = ascii 'l' then
      advance
      pure { flags with long := true, longLong := true }
    else pure { flags with long := true }
  else if c = ascii 'h' then
    advance
    let c ← peek
    if c = ascii 'h' then
      advance
      pure { flags with short := true, char := true }
    else pure { flags with short := true }
  else if c = ascii 't' then
    advance
    pure { flags with long := true }
  else if c = ascii 'j' then
    advance
    pure { flags with longLong := true }
  else if c = ascii 'z' then
    advance
    pure { flags with long := true }
  else pure flags

/-- The flags, the width and the precision of a directive. -/
def evalDirective (fuel : ℕ) : PrintM (Flags × UInt32 × UInt32) := do
  let flags ← evalFlags fuel
  let (flags, width) ← evalWidth fuel flags
  let (flags, precision) ← evalPrecision fuel flags
  let flags ← evalLength flags
  pure (flags, width, precision)

/-! ### The specifiers -/

/-- The base of an integer. -/
def intBase (c : UInt8) : UInt32 :=
  if c = ascii 'x' ∨ c = ascii 'X' then 16
  else if c = ascii 'o' then 8
  else if c = ascii 'b' then 2
  else 10

/-- `*format` is `i` or `d`. -/
def isSigned (c : UInt8) : Bool := c = ascii 'i' || c = ascii 'd'

/-- The flags that an integer keeps. -/
def intFlags (c : UInt8) (flags : Flags) : Flags :=
  let flags := if intBase c = 10 then { flags with hash := false } else flags -- no hash for dec format
  let flags := if c = ascii 'X' then { flags with uppercase := true } else flags
  -- no plus or space flag for u, x, X, o, b
  let flags := if !isSigned c then { flags with plus := false, space := false } else flags
  -- ignore '0' flag when precision is given
  if flags.precision then { flags with zeropad := false } else flags

/-- The value of a signed argument of one word. -/
def signedArg (flags : Flags) (arg : UInt32) : Int32 :=
  if flags.char then arg.toInt32.toInt8.toInt32
  else if flags.short then arg.toInt32.toInt16.toInt32
  else arg.toInt32

/-- The value of an unsigned argument of one word. -/
def unsignedArg (flags : Flags) (arg : UInt32) : UInt32 :=
  if flags.char then arg.toUInt8.toUInt32 else if flags.short then arg.toUInt16.toUInt32 else arg

/-- `(unsigned int)(value > 0 ? value : 0 - value)`. -/
def magnitude (value : Int32) : UInt32 := (if 0 < value then value else 0 - value).toUInt32

/-- The specifiers `d`, `i`, `u`, `x`, `X`, `o` and `b`. The library is built with
`PRINTF_DISABLE_SUPPORT_LONG_LONG`, so nothing is left of the branches for `long long`. -/
def convertInt (o : Sink) (c : UInt8) (flags : Flags) (width precision : UInt32) : PrintM PUnit := do
  let base := intBase c
  let flags := intFlags c flags
  if isSigned c then
    if flags.longLong then pure ⟨⟩
    else if flags.long then
      let arg ← vaArg
      let value := arg.toInt32
      modify (ntoaLong o (magnitude value) (value < 0) base precision width flags)
    else
      let arg ← vaArg
      let value := signedArg flags arg
      modify (ntoaLong o (magnitude value) (value < 0) base precision width flags)
  else
    if flags.longLong then pure ⟨⟩
    else if flags.long then
      let arg ← vaArg
      modify (ntoaLong o arg false base precision width flags)
    else
      let arg ← vaArg
      modify (ntoaLong o (unsignedArg flags arg) false base precision width flags)

/-- The specifiers `f` and `F`. -/
def convertFixed (fl : Floats) (o : Sink) (c : UInt8) (flags : Flags) (width precision : UInt32) :
    PrintM PUnit := do
  let flags := if c = ascii 'F' then { flags with uppercase := true } else flags
  let value ← vaArg64
  modify (PrintState.puts o (fl.ftoa value precision width flags))

/-- The specifiers `e`, `E`, `g` and `G`. -/
def convertExp (fl : Floats) (o : Sink) (c : UInt8) (flags : Flags) (width precision : UInt32) :
    PrintM PUnit := do
  let flags := if c = ascii 'g' ∨ c = ascii 'G' then { flags with adaptExp := true } else flags
  let flags := if c = ascii 'E' ∨ c = ascii 'G' then { flags with uppercase := true } else flags
  let value ← vaArg64
  modify (PrintState.puts o (fl.etoa value precision width flags))

/-- `while (l++ < width) out(' ', buffer, idx++, maxlen)`, on the side that is padded. -/
def putSpaces (o : Sink) (side : Bool) (l : ℕ) (width : UInt32) : PrintM PUnit :=
  if side then modify (times (width.toNat - l) fun _ p => p.put o (ascii ' ')) else pure ⟨⟩

/-- The specifier `c`. -/
def convertChar (o : Sink) (flags : Flags) (width : UInt32) : PrintM PUnit := do
  putSpaces o (!flags.left) 1 width
  let arg ← vaArg
  modify (PrintState.put o arg.toUInt8)
  putSpaces o flags.left 1 width

/-- An iteration of the loop that puts out a string, up to a precision if there is one. -/
def stringStep (o : Sink) (flags : Flags) (a : UInt32 × UInt32) : PrintM (UInt32 × UInt32 ⊕ PUnit) := do
  let p ← get
  let c := p.kernel.mem a.1
  if c ≠ 0 ∧ (!flags.precision ∨ a.2 ≠ 0) then
    modify (PrintState.put o c)
    pure (.inl (a.1 + 1, if flags.precision then a.2 - 1 else a.2))
  else pure (.inr ⟨⟩)

/-- The specifier `s`. -/
def convertString (o : Sink) (fuel : ℕ) (flags : Flags) (width precision : UInt32) : PrintM PUnit := do
  let s ← vaArg
  let p ← get
  let l := strnlen p.kernel.mem s (if precision ≠ 0 then precision.toNat else 2 ^ 32 - 1)
  let l := if flags.precision then min l precision.toNat else l
  putSpaces o (!flags.left) l width
  loopM .running (stringStep o flags) fuel (s, precision)
  putSpaces o flags.left l width

/-- The specifier `p`. -/
def convertPointer (o : Sink) (flags : Flags) (precision : UInt32) : PrintM PUnit := do
  let arg ← vaArg
  modify (ntoaLong o arg false 16 precision 8 { flags with zeropad := true, uppercase := true })

/-- The branches of `evaluate specifier`. -/
def convertBy (fl : Floats) (o : Sink) (fuel : ℕ) (c : UInt8) (flags : Flags) (width precision : UInt32) :
    PrintM PUnit :=
  if c ∈ bytes "diuxXob" then convertInt o c flags width precision
  else if c ∈ bytes "fF" then convertFixed fl o c flags width precision
  else if c ∈ bytes "eEgG" then convertExp fl o c flags width precision
  else if c = ascii 'c' then convertChar o flags width
  else if c = ascii 's' then convertString o fuel flags width precision
  else if c = ascii 'p' then convertPointer o flags precision
  else modify (PrintState.put o c) -- `%`, and what is no specifier

/-- `evaluate specifier`. -/
def convert (fl : Floats) (o : Sink) (fuel : ℕ) (flags : Flags) (width precision : UInt32) : PrintM PUnit := do
  let c ← peek
  convertBy fl o fuel c flags width precision
  advance

/-- A directive, after its `%`. -/
def directive (fl : Floats) (o : Sink) (fuel : ℕ) : PrintM PUnit := do
  let (flags, width, precision) ← evalDirective fuel
  convert fl o fuel flags width precision

/-- An iteration of the loop of `_vsnprintf`. -/
def formatStep (fl : Floats) (o : Sink) (fuel : ℕ) : PrintM (PUnit ⊕ PUnit) := do
  let c ← peek
  if c = 0 then pure (.inr ⟨⟩)
  else if c ≠ ascii '%' then
    modify (PrintState.put o c)
    advance
    pure (.inl ⟨⟩)
  else
    advance
    directive fl o fuel
    pure (.inl ⟨⟩)

/-- The output function that `_vsnprintf` uses. -/
def sinkOf (out : OutFct) (buffer maxlen : UInt32) : Sink :=
  ⟨if buffer = 0 then outNull else out, buffer, maxlen⟩

/-- `out((char)0, buffer, idx < maxlen ? idx : maxlen - 1U, maxlen)`. -/
def Sink.terminate (o : Sink) (idx : UInt32) (s : Kernel) : Kernel :=
  o.out 0 o.buffer (if idx < o.maxlen then idx else o.maxlen - 1) o.maxlen s

/-- `_vsnprintf`. -/
def vsnprintf (fl : Floats) (fuel : ℕ) (out : OutFct) (buffer maxlen format va : UInt32) : KernelM UInt32 :=
  fun s =>
    let o := sinkOf out buffer maxlen
    match loopM .running (fun _ => formatStep fl o fuel) fuel PUnit.unit ⟨s, format, va, 0⟩ with
    | .ok _ p => .ok p.idx (o.terminate p.idx p.kernel)
    | .error e p => .error e p.kernel

/-- `printf_` and `vprintf_`, with the address of their buffer of one character. -/
def printf (fl : Floats) (fuel : ℕ) (buffer format va : UInt32) : KernelM UInt32 :=
  vsnprintf fl fuel outChar buffer (0 - 1) format va

/-- `sprintf_`. -/
def sprintf (fl : Floats) (fuel : ℕ) (buffer format va : UInt32) : KernelM UInt32 :=
  vsnprintf fl fuel outBuffer buffer (0 - 1) format va

/-- `snprintf_` and `vsnprintf_`. -/
def snprintf (fl : Floats) (fuel : ℕ) (buffer count format va : UInt32) : KernelM UInt32 :=
  vsnprintf fl fuel outBuffer buffer count format va

/-- `fctprintf`, with the address of its function and argument. -/
def fctprintf (fl : Floats) (fuel : ℕ) (fct : UInt8 → UInt32 → Kernel → Kernel) (arg wrap format va : UInt32) :
    KernelM UInt32 :=
  vsnprintf fl fuel (outFct fct arg) wrap (0 - 1) format va

end JurasOS
