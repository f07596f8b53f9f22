import JurasOS.Arch.Stubs
import JurasOS.Libc.Panic
import JurasOS.Stdio.Numbers

/-!
# `fault_handler`

An exception ends in `PANIC`, with the name of the exception and the registers of the
interrupted code. `fault_shows` says what is on the screen then, for every exception and
all registers: nothing is scrolled off, and each register is written in full.
-/

namespace JurasOS

open Machine Text

/-- The strings of `exception_messages`. -/
def exceptionTexts : List (List UInt8) := [
  bytes "Division By Zero",
  bytes "Debug",
  bytes "Non Maskable Interrupt",
  bytes "Breakpoint",
  bytes "Into Detected Overflow",
  bytes "Out of Bounds",
  bytes "Invalid Opcode",
  bytes "No Coprocessor",
  bytes "Double Fault",
  bytes "Coprocessor Segment Overrun",
  bytes "Bad TSS",
  bytes "Segment Not Present",
  bytes "Stack Fault",
  bytes "General Protection Fault",
  bytes "Page Fault",
  bytes "Unknown Interrupt",
  bytes "Coprocessor Fault",
  bytes "Alignment Check",
  bytes "Machine Check"] ++ List.replicate 13 (bytes "Reserved")

/-- The string of `PANIC_MESSAGE`. -/
def panicText : List UInt8 :=
  bytes "Interrupt %d: %s\n\nRegisters:\nedi: %X, esi: %X, ebp: %X\nesp: %X, ebx: %X, edx: %X\necx: %X, eax: %X"

/-- Where the texts lie: the banner of `PANIC`, `PANIC_MESSAGE`, and those that `exception_messages` points
to. -/
structure FaultTexts where
  banner : UInt32
  panicMessage : UInt32
  exceptionMessages : UInt32 → UInt32

/-- The arguments of the message. -/
def faultArguments (texts : FaultTexts) (regs : Registers) : List UInt32 :=
  [regs.intNo, texts.exceptionMessages regs.intNo, regs.edi, regs.esi, regs.ebp, regs.esp, regs.ebx, regs.edx,
    regs.ecx, regs.eax]

/-- `fault_handler`; the arguments are pushed at `va`. -/
def faultHandler (fl : Floats) (fuel : ℕ) (buffer bannerVa va : UInt32) (texts : FaultTexts)
    (regs : Registers) : KernelM PUnit := do
  modify fun s => { s with mem := s.mem.storeWords va (faultArguments texts regs) }
  panic fl fuel buffer texts.banner bannerVa texts.panicMessage va

/-! ### The format -/

/-- A number in decimal. -/
def decimal (w : UInt32) : List UInt8 := numeral false (someDigits 10 w.toNat).reverse

/-- A number in hexadecimal. -/
def hexadecimal (w : UInt32) : List UInt8 := numeral true (someDigits 16 w.toNat).reverse

/-- A register after its name. -/
def register (name : String) (w : UInt32) : List UInt8 := bytes name ++ hexadecimal w

/-- The message of an exception, and the registers, line by line. -/
def faultLines (regs : Registers) : List (List UInt8) := [
  bytes "Interrupt " ++ decimal regs.intNo ++ bytes ": " ++ exceptionTexts.getD regs.intNo.toNat [],
  [],
  bytes "Registers:",
  register "edi: " regs.edi ++ register ", esi: " regs.esi ++ register ", ebp: " regs.ebp,
  register "esp: " regs.esp ++ register ", ebx: " regs.ebx ++ register ", edx: " regs.edx,
  register "ecx: " regs.ecx ++ register ", eax: " regs.eax]

/-- What can be written into a cell: no NUL, tab, newline or backspace. -/
def IsText (c : UInt8) : Prop := c ≠ 0 ∧ c ≠ 8 ∧ c ≠ 9 ∧ c ≠ 10

instance (c : UInt8) : Decidable (IsText c) := inferInstanceAs (Decidable (_ ∧ _ ∧ _ ∧ _))

/-- A text of `n` characters at most. -/
def Fits (n : ℕ) (l : List UInt8) : Prop := (∀ c ∈ l, IsText c) ∧ l.length ≤ n

theorem Fits.append {l l' : List UInt8} {n n' : ℕ} (h : Fits n l) (h' : Fits n' l') : Fits (n + n') (l ++ l') :=
  ⟨List.forall_mem_append.mpr ⟨h.1, h'.1⟩, by
    rw [List.length_append]
    exact Nat.add_le_add h.2 h'.2⟩

theorem fits_of_all {n : ℕ} {l : List UInt8} (h : l.all (fun c => decide (IsText c)) = true)
    (hlen : l.length ≤ n) : Fits n l :=
  ⟨fun c hc => of_decide_eq_true (List.all_eq_true.mp h c hc), hlen⟩

section message

variable {fl : Floats}

/-- The names of the exceptions are texts of 27 characters at most. -/
theorem fits_exceptionTexts (i : ℕ) : Fits 27 (exceptionTexts.getD i []) := by
  have hall : exceptionTexts.all
      (fun l => l.all (fun c => decide (IsText c)) && decide (l.length ≤ 27)) = true := by decide
  by_cases hi : i < exceptionTexts.length
  · have hmem := List.all_eq_true.mp hall _ (List.getElem_mem hi)
    rw [Bool.and_eq_true, decide_eq_true_eq] at hmem
    rw [List.getD_eq_getElem?_getD, List.getElem?_eq_getElem hi]
    exact fits_of_all hmem.1 hmem.2
  · rw [List.getD_eq_getElem?_getD, List.getElem?_eq_none (Nat.not_lt.mp hi)]
    exact fits_of_all rfl (Nat.zero_le _)

/-- The name of an exception as a string. -/
def exceptionString (i : ℕ) : CString where
  chars := exceptionTexts.getD i []
  no_nul := fun h => ((fits_exceptionTexts i).1 0 h).1 rfl
  length_lt := Nat.lt_of_le_of_lt (fits_exceptionTexts i).2 (by decide)

/-- `PANIC_MESSAGE` with its arguments. -/
def faultParts (texts : FaultTexts) (regs : Registers) : List (List UInt8 × Item) := [
  (bytes "Interrupt ", dec regs.intNo),
  (bytes ": ", plain (.str (texts.exceptionMessages regs.intNo) (exceptionString regs.intNo.toNat))),
  (bytes "\n\nRegisters:\nedi: ", hex regs.edi),
  (bytes ", esi: ", hex regs.esi),
  (bytes ", ebp: ", hex regs.ebp),
  (bytes "\nesp: ", hex regs.esp),
  (bytes ", ebx: ", hex regs.ebx),
  (bytes ", edx: ", hex regs.edx),
  (bytes "\necx: ", hex regs.ecx),
  (bytes ", eax: ", hex regs.eax)]

theorem chars_plain_int (c : {c // c ∈ bytes "diuxXob"}) (arg : UInt32) :
    (plain (.int c arg)).chars fl = ntoaChars (intValue c {} arg).natAbs (intValue c {} arg < 0)
      (intBase c) 0 0 (intFlags c {}) := rfl

theorem chars_dec {w : UInt32} (hw : w.toNat < 2 ^ 31) : (dec w).chars fl = decimal w := by
  have hvalue : intValue (ascii 'd') {} w = w.toNat := by
    show w.toBitVec.toInt = _
    rw [BitVec.toInt_eq_toNat_of_lt]
    · rfl
    · show 2 * w.toNat < 2 ^ 32
      omega
  have hflags : intFlags (ascii 'd') {} = { uppercase := false } := rfl
  have hbase : intBase (ascii 'd') = 10 := rfl
  have hneg : decide ((w.toNat : ℤ) < 0) = false := by simp
  have hbound : w.toNat < (10 : UInt32).toNat ^ 32 := by
    simp only [UInt32.reduceToNat]
    omega
  rw [dec, chars_plain_int, hvalue, hneg, Int.natAbs_natCast, hflags, hbase]
  exact ntoaChars_plain (by decide) hbound false

theorem chars_hex (w : UInt32) : (hex w).chars fl = hexadecimal w := by
  have hvalue : intValue (ascii 'X') {} w = w.toNat := rfl
  have hflags : intFlags (ascii 'X') {} = { uppercase := true } := rfl
  have hbase : intBase (ascii 'X') = 16 := rfl
  have hneg : decide ((w.toNat : ℤ) < 0) = false := by simp
  have hbound : w.toNat < (16 : UInt32).toNat ^ 32 := by
    have hlt := w.toNat_lt
    simp only [UInt32.reduceToNat]
    omega
  rw [hex, chars_plain_int, hvalue, hneg, Int.natAbs_natCast, hflags, hbase]
  exact ntoaChars_plain (by decide) hbound true

theorem plainTexts_faultParts (texts : FaultTexts) (regs : Registers) : PlainTexts (faultParts texts regs) := by
  have hplain : ((faultParts texts regs).map Prod.fst).all
      (fun cs => !cs.contains (ascii '%') && !cs.contains 0) = true := by rfl
  intro p hp
  simpa using List.all_eq_true.mp hplain p.1 (List.mem_map_of_mem hp)

theorem formatText_faultParts (texts : FaultTexts) (regs : Registers) :
    formatText (parts (faultParts texts regs)) = panicText := by
  rw [formatText_parts (plainTexts_faultParts texts regs)]
  rfl

theorem formatWords_faultParts (texts : FaultTexts) (regs : Registers) :
    formatWords (parts (faultParts texts regs)) = faultArguments texts regs := by
  have hint : ∀ c (w : UInt32), (plain (.int c w)).words = [w] := fun _ _ => rfl
  rw [formatWords_parts]
  simp only [faultParts, List.flatMap_cons, List.flatMap_nil, dec, hex, hint]
  rfl

theorem formatChars_faultParts (texts : FaultTexts) {regs : Registers} (h : regs.intNo.toNat < 2 ^ 31) :
    formatChars fl (parts (faultParts texts regs)) = List.intercalate [10] (faultLines regs) := by
  have hstr : ∀ s string, (plain (.str s string)).chars fl = string.chars := by
    intro s string
    show spaces (0 - string.chars.length) ++ string.chars = _
    rw [Nat.zero_sub]
    rfl
  have hregisters : bytes "\n\nRegisters:\nedi: " =
      [10] ++ ([10] ++ (bytes "Registers:" ++ ([10] ++ bytes "edi: "))) := rfl
  have hesp : bytes "\nesp: " = [10] ++ bytes "esp: " := rfl
  have hecx : bytes "\necx: " = [10] ++ bytes "ecx: " := rfl
  rw [formatChars_parts fl (plainTexts_faultParts texts regs)]
  simp only [faultParts, List.flatMap_cons, List.flatMap_nil, chars_dec h, chars_hex, hstr, hregisters, hesp,
    hecx, faultLines, register, List.intercalate_cons_cons, List.intercalate_singleton, List.append_assoc,
    List.nil_append, List.append_nil]
  rfl

/-! ### The lines -/

theorem fits_numeral {upper : Bool} {base value k : ℕ} (hbase : 1 < base) (hsmall : base ≤ 16) (hk : 0 < k)
    (hvalue : value < base ^ k) : Fits k (numeral upper (someDigits base value).reverse) := by
  have hdigit : ∀ (upper : Bool) (d : Fin 16), IsText (digitChar upper d) := by decide
  constructor
  · intro c hc
    obtain ⟨d, hd, rfl⟩ := List.mem_map.mp hc
    exact hdigit upper ⟨d, Nat.lt_of_lt_of_le (someDigits_lt hbase d (List.mem_reverse.mp hd)) hsmall⟩
  · rw [numeral, List.length_map, List.length_reverse]
    exact length_someDigits_le hbase hk hvalue

theorem fits_decimal (w : UInt32) : Fits 10 (decimal w) :=
  fits_numeral (by decide) (by decide) (by decide) (Nat.lt_trans w.toNat_lt (by decide))

theorem fits_hexadecimal (w : UInt32) : Fits 8 (hexadecimal w) :=
  fits_numeral (by decide) (by decide) (by decide) (Nat.lt_of_lt_of_le w.toNat_lt (by decide))

theorem fits_register {name : String} (h : (bytes name).all (fun c => decide (IsText c)) = true)
    (hlen : (bytes name).length ≤ 7) (w : UInt32) : Fits 15 (register name w) :=
  (fits_of_all h hlen).append (fits_hexadecimal w)

/-- Every line of the message leaves room in its row. -/
theorem fits_faultLines (regs : Registers) : ∀ l ∈ faultLines regs, Fits 79 l := by
  have hle : ∀ {n : ℕ} {l : List UInt8}, Fits n l → n ≤ 79 → Fits 79 l := fun h hn => ⟨h.1, Nat.le_trans h.2 hn⟩
  have hregister : ∀ {name : String}, (bytes name).all (fun c => decide (IsText c)) = true →
      (bytes name).length ≤ 7 → ∀ w, Fits 15 (register name w) := fits_register
  have hinterrupt : Fits 10 (bytes "Interrupt ") := fits_of_all (by decide) (by decide)
  have hcolon : Fits 2 (bytes ": ") := fits_of_all (by decide) (by decide)
  rw [faultLines]
  simp only [List.forall_mem_cons]
  refine ⟨?_, ?_, ?_, ?_, ?_, ?_, fun _ h => nomatch h⟩
  · exact hle (((hinterrupt.append (fits_decimal _)).append hcolon).append (fits_exceptionTexts _)) (by decide)
  · exact fits_of_all rfl (Nat.zero_le _)
  · exact fits_of_all (by decide) (by decide)
  · exact hle (((hregister (by decide) (by decide) _).append (hregister (by decide) (by decide) _)).append
      (hregister (by decide) (by decide) _)) (by decide)
  · exact hle (((hregister (by decide) (by decide) _).append (hregister (by decide) (by decide) _)).append
      (hregister (by decide) (by decide) _)) (by decide)
  · exact hle ((hregister (by decide) (by decide) _).append (hregister (by decide) (by decide) _)) (by decide)

theorem mem_intercalate {ls : List (List UInt8)} {c : UInt8} (hc : c ∈ List.intercalate [10] ls) :
    c = 10 ∨ ∃ l ∈ ls, c ∈ l := by
  induction ls with
  | nil => cases hc
  | cons l ls ih =>
    cases ls with
    | nil =>
      rw [List.intercalate_singleton] at hc
      exact Or.inr ⟨l, List.mem_cons_self, hc⟩
    | cons l' ls =>
      rw [List.intercalate_cons_cons] at hc
      rcases List.mem_append.mp hc with hc | hc
      · rcases List.mem_append.mp hc with hc | hc
        · exact Or.inr ⟨l, List.mem_cons_self, hc⟩
        · exact Or.inl (List.mem_singleton.mp hc)
      · exact (ih hc).imp_right fun ⟨k, hk, hck⟩ => ⟨k, List.mem_cons_of_mem l hk, hck⟩

/-- The message has no NUL, no tab and no backspace. -/
theorem faultChars_plain (regs : Registers) :
    ∀ c ∈ List.intercalate [10] (faultLines regs), c ≠ 0 ∧ c ≠ 9 ∧ c ≠ 8 := by
  intro c hc
  rcases mem_intercalate hc with rfl | ⟨l, hl, hc⟩
  · decide
  · obtain ⟨h0, h8, h9, -⟩ := (fits_faultLines regs l hl).1 c hc
    exact ⟨h0, h9, h8⟩

/-- The directives of the message print numbers, but for the name of the exception. -/
theorem item_of_mem_faultParts {texts : FaultTexts} {regs : Registers} {p : List UInt8 × Item}
    (hp : p ∈ faultParts texts regs) : (∃ c arg, p.2 = plain (.int c arg)) ∨
      p.2 = plain (.str (texts.exceptionMessages regs.intNo) (exceptionString regs.intNo.toNat)) := by
  simp only [faultParts, List.mem_cons, List.not_mem_nil, or_false] at hp
  rcases hp with rfl | rfl | rfl | rfl | rfl | rfl | rfl | rfl | rfl | rfl
  case inr.inl => exact Or.inr rfl
  all_goals exact Or.inl ⟨_, _, rfl⟩

theorem formatSize_faultParts (texts : FaultTexts) (regs : Registers) :
    formatSize (parts (faultParts texts regs)) ≤ 150 := by
  have hname := (fits_exceptionTexts regs.intNo.toNat).2
  refine (formatSize_parts_le _).trans ?_
  have htexts : (faultParts texts regs).map (fun p => p.1.length) = [10, 2, 18, 7, 7, 6, 7, 7, 6, 7] := rfl
  have hsizes : (faultParts texts regs).map (fun p => p.2.size) =
      [2, 1 + (exceptionTexts.getD regs.intNo.toNat []).length + 1, 2, 2, 2, 2, 2, 2, 2, 2] := rfl
  rw [List.sum_map_add, htexts, hsizes]
  simp only [List.sum_cons, List.sum_nil]
  omega

end message

/-! ### The screen -/

/-- The texts are in memory: the banner, the message, and the name of the exception. -/
structure FaultTexts.Held (texts : FaultTexts) (m : Mem) (intNo : UInt32) : Prop where
  banner : m.Bytes texts.banner (bannerText ++ [0])
  panicMessage : m.Bytes texts.panicMessage (panicText ++ [0])
  exceptionMessage : m.Bytes (texts.exceptionMessages intNo) (exceptionTexts.getD intNo.toNat [] ++ [0])

/-- The addresses of the texts. -/
def FaultTexts.places (texts : FaultTexts) (intNo : UInt32) : Set UInt32 :=
  span texts.banner (bannerText.length + 1) ∪ span texts.panicMessage (panicText.length + 1) ∪
    span (texts.exceptionMessages intNo) ((exceptionTexts.getD intNo.toNat []).length + 1)

/-- **The screen of a fault**: for every exception and all registers `fault_handler` halts, with the banner
in the first row, the name of the exception in the third, and below it every register, in full. -/
theorem fault_shows (fl : Floats) {fuel : ℕ} (hfuel : 300 < fuel) {buffer : UInt32} (hbuffer : buffer ≠ 0)
    (bannerVa va : UInt32) (texts : FaultTexts) (regs : Registers) (hint : regs.intNo < 32) (s : Kernel)
    (h : texts.Held s.mem regs.intNo) (hscreen : Disjoint (texts.places regs.intNo ∪ span va 40) screen)
    (hstack : Disjoint (texts.places regs.intNo) (span va 40)) :
    ∃ t, faultHandler fl fuel buffer bannerVa va texts regs s = .error .panic t ∧
      ∀ y < 25, ∀ x < 80, t.cell (y * 80 + x) =
        vgaEntry ((((panicRows (faultLines regs)).getD y [])[x]?).getD 0x20)
          (if y = 0 then 0xF4 else 0x4F) := by
  have hstored := s.mem.eqOn_storeWords va (faultArguments texts regs)
  have hkept : ∀ {a}, a ∈ texts.places regs.intNo →
      s.mem.storeWords va (faultArguments texts regs) a = s.mem a :=
    fun ha => hstored fun hva => Set.disjoint_left.mp hstack ha hva
  have hintNo : regs.intNo.toNat < 2 ^ 31 := by
    rw [UInt32.lt_iff_toNat_lt] at hint
    exact Nat.lt_trans hint (by decide)
  have hchars : formatChars fl (parts (faultParts texts regs)) = _ := formatChars_faultParts texts hintNo
  have hholds : HoldsFormat (s.mem.storeWords va (faultArguments texts regs)) texts.panicMessage va
      (parts (faultParts texts regs)) := by
    constructor
    · rw [formatText_faultParts]
      exact h.panicMessage.congr fun a ha => hkept (Or.inl (Or.inr (by simpa using ha)))
    · rw [formatWords_faultParts]
      exact Cpu.words_storeWords _ _ (by simp [faultArguments])
    · intro item hitem
      rcases exists_of_mem_parts hitem with ⟨c, rfl⟩ | ⟨p, hp, rfl⟩
      · trivial
      · rcases item_of_mem_faultParts hp with ⟨c, arg, heq⟩ | heq <;> rw [heq]
        · trivial
        · exact h.exceptionMessage.congr fun a ha => hkept (Or.inr (by simpa using ha))
  have hplaces : formatPlaces texts.panicMessage va (parts (faultParts texts regs)) ⊆
      texts.places regs.intNo ∪ span va 40 := by
    rw [formatPlaces, formatText_faultParts, formatWords_faultParts]
    rintro a ((ha | ha) | ⟨item, hitem, ha⟩)
    · exact Or.inl (Or.inl (Or.inr ha))
    · exact Or.inr ha
    · rcases exists_of_mem_parts hitem with ⟨c, rfl⟩ | ⟨p, hp, rfl⟩
      · exact ha.elim
      · rcases item_of_mem_faultParts hp with ⟨c, arg, heq⟩ | heq <;> rw [heq] at ha
        · exact ha.elim
        · exact Or.inl (Or.inr ha)
  have hsize : formatSize (parts (faultParts texts regs)) < fuel :=
    Nat.lt_of_le_of_lt (formatSize_faultParts texts regs) (by omega)
  obtain ⟨t, hrun, hpaints, -⟩ := panic_paints
    (s := { s with mem := s.mem.storeWords va (faultArguments texts regs) }) hsize (by omega) hbuffer
    (h.banner.congr fun a ha => hkept (Or.inl (Or.inl (by simpa using ha))))
    (hscreen.mono_left fun a ha => Or.inl (Or.inl (Or.inl ha))) hholds (hscreen.mono_left hplaces)
    (by rw [hchars]; exact fun c hc => (faultChars_plain regs c hc).2)
  have hshown : shown (formatChars fl (parts (faultParts texts regs))) =
      List.intercalate [10] (faultLines regs) := by
    rw [hchars]
    exact List.filter_eq_self.mpr fun c hc => by simpa using (faultChars_plain regs c hc).1
  rw [hshown] at hpaints
  have hsix : (faultLines regs).length ≤ 23 := (by decide : 6 ≤ 23)
  have hrows : ∀ l ∈ faultLines regs, 10 ∉ l ∧ l.length < 80 := by
    intro l hl
    obtain ⟨htext, hlen⟩ := fits_faultLines regs l hl
    exact ⟨fun h10 => (htext 10 h10).2.2.2 rfl, Nat.lt_succ_of_le hlen⟩
  exact ⟨t, (bind_of_ok (modify_apply _ s)).trans hrun,
    fun y hy x hx => hpaints.cell_panicRows hrows hsix hy hx⟩

/-- The registers of a page fault. -/
def pageFault : Registers where
  ds := 0x10
  edi := 0
  esi := 0
  ebp := 0
  esp := 0
  ebx := 0
  edx := 0
  ecx := 0
  eax := 0xBEEF
  intNo := 14
  errCode := 2
  eip := 0x100000
  cs := 8
  eflags := 0x202
  useresp := 0
  ss := 0

/-- The texts of a page fault. -/
def pageFaultTexts : FaultTexts := ⟨0x1000, 0x2000, fun _ => 0x3000⟩

/-- A kernel with these texts. -/
def pageFaultKernel : Kernel :=
  { Kernel.loaded with
    mem := ((Kernel.loaded.mem.storeBytes 0x1000 (bannerText ++ [0])).storeBytes 0x2000
      (panicText ++ [0])).storeBytes 0x3000 (bytes "Page Fault" ++ [0]) }

theorem held_pageFault : pageFaultTexts.Held pageFaultKernel.mem 14 := by
  have hlen : (bannerText ++ [0]).length = 82 ∧ (panicText ++ [0]).length = 98 ∧
      (bytes "Page Fault" ++ [0]).length = 11 := by decide
  obtain ⟨hbanner, hmessage, hname⟩ := hlen
  have hbannerMessage : Disjoint (span 0x1000 (bannerText ++ [0]).length)
      (span 0x2000 (panicText ++ [0]).length) := by
    rw [hbanner, hmessage]
    exact disjoint_span (by decide) (by decide) (by decide)
  have hbannerName : Disjoint (span 0x1000 (bannerText ++ [0]).length)
      (span 0x3000 (bytes "Page Fault" ++ [0]).length) := by
    rw [hbanner, hname]
    exact disjoint_span (by decide) (by decide) (by decide)
  have hmessageName : Disjoint (span 0x2000 (panicText ++ [0]).length)
      (span 0x3000 (bytes "Page Fault" ++ [0]).length) := by
    rw [hmessage, hname]
    exact disjoint_span (by decide) (by decide) (by decide)
  exact
    { banner := ((Mem.bytes_storeBytes _ 0x1000 (by rw [hbanner]; decide)).storeBytes hbannerMessage).storeBytes
        hbannerName
      panicMessage := (Mem.bytes_storeBytes _ 0x2000 (by rw [hmessage]; decide)).storeBytes hmessageName
      exceptionMessage := Mem.bytes_storeBytes _ 0x3000 (by rw [hname]; decide) }

theorem fault_shows_pageFault :
    ∃ t, faultHandler noFloats 301 1 0 0x4000 pageFaultTexts pageFault pageFaultKernel = .error .panic t ∧
      t.cell 34 = 0xF44B ∧ t.cell 160 = 0x4F49 ∧ t.cell 161 = 0x4F6E := by
  have hplaces : pageFaultTexts.places 14 ⊆ span 0x1000 0x2010 := by
    rintro a ((ha | ha) | ha)
    · exact span_mono (by decide) ha
    · exact span_offset_subset (a := 0x1000) (i := 0x1000) (by decide) ha
    · exact span_offset_subset (a := 0x1000) (i := 0x2000) (by decide) ha
  have hscreen : Disjoint (pageFaultTexts.places 14 ∪ span 0x4000 40) screen :=
    Disjoint.union_left ((disjoint_span (by decide) (by decide) (by decide)).mono_left hplaces)
      (disjoint_span (by decide) (by decide) (by decide))
  have hstack : Disjoint (pageFaultTexts.places 14) (span 0x4000 40) :=
    (disjoint_span (by decide) (by decide) (by decide)).mono_left hplaces
  obtain ⟨t, hrun, hcell⟩ := fault_shows noFloats (Nat.lt_succ_self 300) (by decide : (1 : UInt32) ≠ 0) 0 0x4000
    pageFaultTexts pageFault (by decide) pageFaultKernel held_pageFault hscreen hstack
  exact ⟨t, hrun, hcell 0 (by decide) 34 (by decide), hcell 2 (by decide) 0 (by decide),
    hcell 2 (by decide) 1 (by decide)⟩

end JurasOS
