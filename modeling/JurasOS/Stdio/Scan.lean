import JurasOS.Machine.X86
import JurasOS.Stdio.Format

/-!
# How a directive is read

The grammar of what follows a `%`: flags, a width, a precision and a length. `Reads`
says that a computation of `_vsnprintf` reads a text and some arguments and goes to
their ends, whatever the character after them is, as long as that cannot be a part
of them. Each part of a directive is read so, and so are parts one after the other.
-/

namespace JurasOS

open Machine Text

universe u

/-- The variables of `_vsnprintf` after characters of the format and words of the arguments. -/
def PrintState.skip (chars words : ℕ) (p : PrintState) : PrintState :=
  { p with format := p.format + UInt32.ofNat chars, va := p.va + 4 * UInt32.ofNat words }

/-- The format goes on with a text, and the arguments with some words. -/
def PrintState.At (p : PrintState) (text : List UInt8) (words : List UInt32) : Prop :=
  p.kernel.mem.Bytes p.format text ∧ p.kernel.mem.Words p.va words

section skip

variable {p : PrintState} {text text' : List UInt8} {words words' : List UInt32} {c : UInt8}

@[simp] theorem PrintState.skip_kernel (i j : ℕ) : (p.skip i j).kernel = p.kernel := rfl
@[simp] theorem PrintState.skip_idx (i j : ℕ) : (p.skip i j).idx = p.idx := rfl
@[simp] theorem PrintState.skip_zero : p.skip 0 0 = p := by simp [PrintState.skip]

theorem PrintState.skip_skip (i j k l : ℕ) : (p.skip i j).skip k l = p.skip (i + k) (j + l) := by
  simp only [PrintState.skip, UInt32.ofNat_add, UInt32.mul_add, UInt32.add_assoc]

theorem PrintState.skip_one (p : PrintState) : p.skip 1 0 = { p with format := p.format + 1 } := by
  have hva : p.va + 4 * UInt32.ofNat 0 = p.va := UInt32.add_zero _
  rw [PrintState.skip, hva]
  rfl

theorem PrintState.At.append : p.At (text ++ text') (words ++ words') ↔
    p.At text words ∧ (p.skip text.length words.length).At text' words' := by
  rw [PrintState.At, PrintState.At, PrintState.At, Mem.Bytes.append, Mem.Words.append]
  exact and_and_and_comm

theorem PrintState.At.head (h : p.At (c :: text) words) : p.kernel.mem p.format = c := h.1.1

end skip

/-- `x` reads a text and some words and returns `a`, if the next character is one of `next`. -/
def Reads {α : Type} (x : PrintM α) (next : UInt8 → Prop) (text : List UInt8) (words : List UInt32) (a : α) :
    Prop :=
  ∀ p c, next c → p.At (text ++ [c]) words → x p = .ok a (p.skip text.length words.length)

section Reads

variable {α β : Type} {x : PrintM α} {f : α → PrintM β} {next next' : UInt8 → Prop}
  {text text' : List UInt8} {words words' : List UInt32} {a : α} {b : β} {c : UInt8} {p : PrintState}

theorem Reads.pure (a : α) : Reads (pure a) next [] [] a := fun p _ _ _ => by
  rw [List.length_nil, List.length_nil, PrintState.skip_zero]
  rfl

/-- What is read goes on as the text does. -/
theorem Reads.then (h : Reads x next text words a) (hnext : ∀ d ∈ text'.head?, next d) (hne : text' ≠ [])
    (hp : p.At (text ++ text') (words ++ words')) :
    x p = .ok a (p.skip text.length words.length) ∧ (p.skip text.length words.length).At text' words' := by
  cases text' with
  | nil => exact absurd rfl hne
  | cons d text' =>
    obtain ⟨hhere, hthere⟩ := PrintState.At.append.mp hp
    refine ⟨h p d (hnext d rfl) ?_, hthere⟩
    have hone : p.At (text ++ [d]) (words ++ []) :=
      PrintState.At.append.mpr ⟨hhere, ⟨⟨hthere.1.1, trivial⟩, trivial⟩⟩
    rwa [List.append_nil] at hone

/-- Two parts are read one after the other. -/
theorem Reads.bind (h : Reads x next text words a) (h' : Reads (f a) next' text' words' b)
    (hnext : ∀ c, next' c → ∀ d ∈ (text' ++ [c]).head?, next d) :
    Reads (x >>= f) next' (text ++ text') (words ++ words') b := by
  intro p c hc hp
  rw [List.append_assoc] at hp
  obtain ⟨hrun, hat⟩ := h.then (hnext c hc) (by simp) hp
  rw [bind_of_ok hrun, h' _ c hc hat, PrintState.skip_skip, List.length_append, List.length_append]

theorem Reads.map {g : α → β} (h : Reads x next text words a) :
    Reads (x >>= fun a => Pure.pure (g a)) next text words (g a) :=
  fun p c hc hp => bind_of_ok (h p c hc hp)

theorem Reads.peek_cons {f : UInt8 → PrintM α} (h : Reads (f c) next (c :: text) words a) :
    Reads (peek >>= f) next (c :: text) words a := by
  intro p d hd hp
  have hpeek : peek p = .ok c p := congrArg (EStateM.Result.ok · p) hp.head
  rw [bind_of_ok hpeek, h p d hd hp]

theorem Reads.peek_next {f : UInt8 → PrintM α} (h : ∀ c, next c → f c = Pure.pure a) :
    Reads (peek >>= f) next [] [] a := by
  intro p d hd hp
  have hpeek : peek p = .ok d p := congrArg (EStateM.Result.ok · p) hp.head
  rw [bind_of_ok hpeek, h d hd]
  exact Reads.pure a p d hd hp

theorem Reads.advance : Reads advance next [c] [] ⟨⟩ :=
  fun p _ _ _ => congrArg (EStateM.Result.ok PUnit.unit) p.skip_one.symm

theorem Reads.vaArg {w : UInt32} : Reads vaArg next [] [w] w := by
  intro p d _ hp
  show EStateM.Result.ok (p.kernel.mem.load32 p.va) { p with va := p.va + 4 } =
    EStateM.Result.ok w { p with format := p.format + 0, va := p.va + 4 }
  rw [hp.2.1, UInt32.add_zero]

/-- A loop reads an item in each of its iterations, and nothing in the last. -/
theorem Reads.loopM {ι : Type} {body : α → PrintM (α ⊕ α)} {char : ι → UInt8} {step : α → ι → α}
    (hgo : ∀ a i, Reads (body a) (fun _ => True) [char i] [] (.inl (step a i)))
    (hend : ∀ a, Reads (body a) next [] [] (.inr a)) (items : List ι) {fuel : ℕ} (hfuel : items.length < fuel)
    (a : α) :
    Reads (Machine.loopM .running body fuel a) next (items.map char) [] (items.foldl step a) := by
  induction items generalizing fuel a with
  | nil =>
    obtain ⟨fuel, rfl⟩ : ∃ n, fuel = n + 1 := ⟨fuel - 1, by rw [List.length_nil] at hfuel; omega⟩
    exact Reads.bind (hend a) (Reads.pure a) fun c hc d hd => by
      obtain rfl : c = d := by simpa using hd
      exact hc
  | cons i items ih =>
    rw [List.length_cons] at hfuel
    obtain ⟨fuel, rfl⟩ : ∃ n, fuel = n + 1 := ⟨fuel - 1, by omega⟩
    exact Reads.bind (hgo a i) (ih (by omega) (step a i)) fun _ _ _ _ => trivial

/-- A character is read and then the rest. -/
theorem Reads.advance_bind {f : PUnit → PrintM α} (h : Reads (f ⟨⟩) next text words a) :
    Reads (JurasOS.advance >>= f) next (c :: text) words a :=
  have hone : Reads JurasOS.advance (fun _ => True) [c] [] ⟨⟩ := Reads.advance
  hone.bind h fun _ _ _ _ => trivial

theorem Reads.vaArg_bind {w : UInt32} {f : UInt32 → PrintM α} (h : Reads (f w) next text words a) :
    Reads (JurasOS.vaArg >>= f) next text (w :: words) a :=
  have hone : Reads JurasOS.vaArg (fun _ => True) [] [w] w := Reads.vaArg
  hone.bind h fun _ _ _ _ => trivial

end Reads

/-! ### The grammar -/

/-- A flag. -/
inductive Flag where
  | zeropad
  | left
  | plus
  | space
  | hash

/-- The character of a flag. -/
def Flag.char : Flag → UInt8
  | .zeropad => ascii '0'
  | .left => ascii '-'
  | .plus => ascii '+'
  | .space => ascii ' '
  | .hash => ascii '#'

/-- What a flag sets. -/
def Flag.set (flags : Flags) : Flag → Flags
  | .zeropad => { flags with zeropad := true }
  | .left => { flags with left := true }
  | .plus => { flags with plus := true }
  | .space => { flags with space := true }
  | .hash => { flags with hash := true }

/-- A number of a directive: in digits, or the argument for a star. -/
inductive Field where
  | digits (ds : List (Fin 10))
  | star (arg : UInt32)

def Field.text : Field → List UInt8
  | .digits ds => numeral false (ds.map Fin.val)
  | .star _ => [ascii '*']

def Field.words : Field → List UInt32
  | .digits _ => []
  | .star arg => [arg]

/-- The number that digits come to, in 32 bits. -/
def digitsValue (ds : List (Fin 10)) : UInt32 := UInt32.ofNat (value 10 (ds.map Fin.val))

/-- A field as the width. -/
def Field.width (flags : Flags) : Field → Flags × UInt32
  | .digits ds => (flags, digitsValue ds)
  | .star arg => starWidth arg flags

/-- A field as the precision. -/
def Field.precision : Field → UInt32
  | .digits ds => digitsValue ds
  | .star arg => starPrecision arg

/-- The text of a precision. -/
def precisionText : Option Field → List UInt8
  | none => []
  | some field => ascii '.' :: field.text

def precisionWords : Option Field → List UInt32
  | none => []
  | some field => field.words

/-- The flags and the precision of a directive. -/
def precisionOf (flags : Flags) : Option Field → Flags × UInt32
  | none => (flags, 0)
  | some field => ({ flags with precision := true }, field.precision)

/-- A length. -/
inductive Length where
  | none
  | l
  | ll
  | h
  | hh
  | t
  | j
  | z

def Length.text : Length → List UInt8
  | .none => []
  | .l => [ascii 'l']
  | .ll => [ascii 'l', ascii 'l']
  | .h => [ascii 'h']
  | .hh => [ascii 'h', ascii 'h']
  | .t => [ascii 't']
  | .j => [ascii 'j']
  | .z => [ascii 'z']

/-- What a length sets. -/
def Length.set (flags : Flags) : Length → Flags
  | .none => flags
  | .l | .t | .z => { flags with long := true }
  | .ll => { flags with long := true, longLong := true }
  | .h => { flags with short := true }
  | .hh => { flags with short := true, char := true }
  | .j => { flags with longLong := true }

/-! ### The characters that end a part -/

/-- No flag. -/
def EndsFlags (c : UInt8) : Prop := c ∉ bytes "0-+ #"

/-- No flag, and no part of a width. -/
def EndsWidth (c : UInt8) : Prop := EndsFlags c ∧ isDigit c = false ∧ c ≠ ascii '*'

/-- No flag, and no part of a width or of a precision. -/
def EndsPrecision (c : UInt8) : Prop := EndsWidth c ∧ c ≠ ascii '.'

/-- No flag, and no part of a width, of a precision or of a length: a specifier. -/
def EndsLength (c : UInt8) : Prop := EndsPrecision c ∧ c ∉ bytes "lhtjz"

instance : DecidablePred EndsFlags := fun c => inferInstanceAs (Decidable (c ∉ bytes "0-+ #"))
instance : DecidablePred EndsWidth := fun c =>
  inferInstanceAs (Decidable (EndsFlags c ∧ isDigit c = false ∧ c ≠ ascii '*'))
instance : DecidablePred EndsPrecision := fun c => inferInstanceAs (Decidable (EndsWidth c ∧ c ≠ ascii '.'))
instance : DecidablePred EndsLength := fun c =>
  inferInstanceAs (Decidable (EndsPrecision c ∧ c ∉ bytes "lhtjz"))

theorem ne_of_notMem {c d : UInt8} {l : List UInt8} (hc : c ∉ l) (hd : d ∈ l) : c ≠ d :=
  fun h => hc (h ▸ hd)

theorem flagOf_char (f : Flag) (flags : Flags) : flagOf f.char flags = some (f.set flags) := by
  cases f <;> rfl

theorem flagOf_of_endsFlags {c : UInt8} (hc : EndsFlags c) (flags : Flags) : flagOf c flags = none := by
  rw [flagOf, if_neg (ne_of_notMem hc (by decide)), if_neg (ne_of_notMem hc (by decide)),
    if_neg (ne_of_notMem hc (by decide)), if_neg (ne_of_notMem hc (by decide)),
    if_neg (ne_of_notMem hc (by decide))]

/-- The next character of a text is one that ends what is before it. -/
theorem head_append {P : UInt8 → Prop} {text : List UInt8} {c : UInt8} (htext : ∀ d ∈ text.head?, P d)
    (hc : P c) : ∀ d ∈ (text ++ [c]).head?, P d := by
  cases text with
  | nil => simpa using hc
  | cons d text => exact htext

theorem Field.head_text {field : Field} (hfield : ∀ ds, field = .digits ds → ds.head? ≠ some 0) :
    ∀ d ∈ field.text.head?, EndsFlags d := by
  have hdigit : ∀ d : Fin 10, d ≠ 0 → EndsFlags (digitChar false d) := by decide
  intro c hc
  cases field with
  | star arg =>
    obtain rfl : ascii '*' = c := by simpa [Field.text] using hc
    decide
  | digits ds =>
    cases ds with
    | nil => cases hc
    | cons d ds =>
      obtain rfl : digitChar false d = c := by simpa [Field.text, numeral] using hc
      exact hdigit d fun h => hfield _ rfl (congrArg some h)

theorem precisionText_head (precision : Option Field) : ∀ d ∈ (precisionText precision).head?, EndsWidth d := by
  intro c hc
  cases precision with
  | none => cases hc
  | some field =>
    obtain rfl : ascii '.' = c := by simpa [precisionText] using hc
    decide

theorem Length.head_text (length : Length) : ∀ d ∈ length.text.head?, EndsPrecision d := by
  intro c hc
  cases length <;> cases hc <;> decide

/-! ### Reading the parts -/

theorem evalFlags_reads (fs : List Flag) {fuel : ℕ} (hfuel : fs.length < fuel) :
    Reads (evalFlags fuel) EndsFlags (fs.map Flag.char) [] (fs.foldl Flag.set {}) := by
  refine Reads.loopM (fun flags f => Reads.peek_cons ?_) (fun flags => Reads.peek_next fun c hc => ?_) fs hfuel
    _
  · rw [flagOf_char]
    exact Reads.advance_bind (Reads.pure _)
  · rw [flagOf_of_endsFlags hc]

theorem isDigit_digitChar (d : Fin 10) : isDigit (digitChar false d) = true := by
  revert d
  decide

theorem toUInt32_digitChar (d : Fin 10) : (digitChar false d - ascii '0').toUInt32 = UInt32.ofNat d.val := by
  revert d
  decide

/-- The loop comes to the number modulo `2 ^ 32`. -/
theorem foldl_digits (ds : List (Fin 10)) (n : ℕ) :
    ds.foldl (fun i (d : Fin 10) => i * 10 + UInt32.ofNat d.val) (UInt32.ofNat n) =
      UInt32.ofNat ((ds.map Fin.val).foldl (fun a d => a * 10 + d) n) := by
  induction ds generalizing n with
  | nil => rfl
  | cons d ds ih =>
    rw [List.foldl_cons, List.map_cons, List.foldl_cons, ← ih, UInt32.ofNat_add, UInt32.ofNat_mul]
    rfl

theorem atoi_reads (ds : List (Fin 10)) {fuel : ℕ} (hfuel : ds.length < fuel) :
    Reads (atoi fuel) (fun c => isDigit c = false) (numeral false (ds.map Fin.val)) [] (digitsValue ds) := by
  have hgo : ∀ (i : UInt32) (d : Fin 10), Reads (atoiStep i) (fun _ => True) [digitChar false d] []
      (.inl (i * 10 + UInt32.ofNat d.val)) := by
    intro i d
    refine Reads.peek_cons ?_
    rw [if_pos (isDigit_digitChar d), toUInt32_digitChar]
    exact Reads.advance_bind (Reads.pure _)
  have hend : ∀ i : UInt32, Reads (atoiStep i) (fun c => isDigit c = false) [] [] (.inr i) :=
    fun i => Reads.peek_next fun c hc => if_neg (by simp [hc])
  rw [digitsValue, Text.value, ← foldl_digits, numeral, List.map_map]
  exact Reads.loopM hgo hend ds hfuel 0

/-- The number of a field is read, from its first digit or its star on. -/
theorem evalWidth_reads (field : Field) {fuel : ℕ} (hfuel : field.text.length < fuel) (flags : Flags) :
    Reads (evalWidth fuel flags) EndsWidth field.text field.words (field.width flags) := by
  cases field with
  | star arg =>
    refine Reads.peek_cons ?_
    rw [if_neg (by decide), if_pos rfl]
    exact Reads.vaArg_bind (Reads.advance_bind (Reads.pure _))
  | digits ds =>
    cases ds with
    | nil =>
      refine Reads.peek_next fun c hc => ?_
      rw [if_neg (by simp [hc.2.1]), if_neg hc.2.2]
      rfl
    | cons d ds =>
      rw [Field.text, numeral, List.length_map, List.length_map] at hfuel
      have hatoi := (atoi_reads (d :: ds) hfuel).map (g := fun width => (flags, width))
      refine Reads.peek_cons ?_
      rw [if_pos (isDigit_digitChar d)]
      exact fun p c hc hp => hatoi p c hc.2.1 hp

theorem evalPrecisionField_reads (field : Field) {fuel : ℕ} (hfuel : field.text.length < fuel) :
    Reads (evalPrecisionField fuel) EndsWidth field.text field.words field.precision := by
  cases field with
  | star arg =>
    refine Reads.peek_cons ?_
    rw [if_neg (by decide), if_pos rfl]
    exact Reads.vaArg_bind (Reads.advance_bind (Reads.pure _))
  | digits ds =>
    cases ds with
    | nil =>
      refine Reads.peek_next fun c hc => ?_
      rw [if_neg (by simp [hc.2.1]), if_neg hc.2.2]
      rfl
    | cons d ds =>
      rw [Field.text, numeral, List.length_map, List.length_map] at hfuel
      refine Reads.peek_cons ?_
      rw [if_pos (isDigit_digitChar d)]
      exact fun p c hc hp => atoi_reads (d :: ds) hfuel p c hc.2.1 hp

theorem evalPrecision_reads (precision : Option Field) {fuel : ℕ}
    (hfuel : (precisionText precision).length < fuel) (flags : Flags) :
    Reads (evalPrecision fuel flags) EndsPrecision (precisionText precision) (precisionWords precision)
      (precisionOf flags precision) := by
  cases precision with
  | none => exact Reads.peek_next fun c hc => if_neg hc.2
  | some field =>
    rw [precisionText, List.length_cons] at hfuel
    have hread : Reads (evalPrecisionField fuel) EndsWidth field.text field.words field.precision :=
      evalPrecisionField_reads field (by omega)
    have hfield := hread.map (g := fun precision => ({ flags with precision := true }, precision))
    refine Reads.peek_cons ?_
    rw [if_pos rfl]
    exact Reads.advance_bind fun p c hc hp => hfield p c hc.1 hp

theorem evalLength_reads (length : Length) (flags : Flags) :
    Reads (evalLength flags) EndsLength length.text [] (length.set flags) := by
  have hend : ∀ {c d : UInt8}, EndsLength c → d ∈ bytes "lhtjz" → c ≠ d := fun hc hd => ne_of_notMem hc.2 hd
  cases length with
  | none =>
    refine Reads.peek_next fun c hc => ?_
    rw [if_neg (hend hc (by decide)), if_neg (hend hc (by decide)), if_neg (hend hc (by decide)),
      if_neg (hend hc (by decide)), if_neg (hend hc (by decide))]
    rfl
  | l =>
    refine Reads.peek_cons ?_
    rw [if_pos rfl]
    exact Reads.advance_bind (Reads.peek_next fun c hc => if_neg (hend hc (by decide)))
  | ll =>
    refine Reads.peek_cons ?_
    rw [if_pos rfl]
    refine Reads.advance_bind (Reads.peek_cons ?_)
    rw [if_pos rfl]
    exact Reads.advance_bind (Reads.pure _)
  | h =>
    refine Reads.peek_cons ?_
    rw [if_neg (by decide), if_pos rfl]
    exact Reads.advance_bind (Reads.peek_next fun c hc => if_neg (hend hc (by decide)))
  | hh =>
    refine Reads.peek_cons ?_
    rw [if_neg (by decide), if_pos rfl]
    refine Reads.advance_bind (Reads.peek_cons ?_)
    rw [if_pos rfl]
    exact Reads.advance_bind (Reads.pure _)
  | t =>
    refine Reads.peek_cons ?_
    rw [if_neg (by decide), if_neg (by decide), if_pos rfl]
    exact Reads.advance_bind (Reads.pure _)
  | j =>
    refine Reads.peek_cons ?_
    rw [if_neg (by decide), if_neg (by decide), if_neg (by decide), if_pos rfl]
    exact Reads.advance_bind (Reads.pure _)
  | z =>
    refine Reads.peek_cons ?_
    rw [if_neg (by decide), if_neg (by decide), if_neg (by decide), if_neg (by decide), if_pos rfl]
    exact Reads.advance_bind (Reads.pure _)

end JurasOS
