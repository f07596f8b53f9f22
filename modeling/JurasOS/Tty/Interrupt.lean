import JurasOS.Machine.Output
import JurasOS.Tty.Strip

/-!
# Keys pressed while the kernel prints

`terminal_putchar` statement by statement, with an interrupt between any two of them
that prints a character of its own. Nothing keeps interrupts out of a call. At the
boundaries where the call has not begun to write, or has nothing left to do, they do
no harm: the run is then a run of calls, one after the other.
-/

namespace JurasOS

open Machine

/-! ### The statements of `terminal_putchar` -/

/-- Where a call of `terminal_putchar` is: before one of its statements, or at its end. -/
inductive Boundary where
  /-- Before the tests on the character. -/
  | start
  /-- Before `terminal_row += 1`, of a newline. -/
  | newlineRow
  /-- Before `terminal_column = 0`, of a newline. -/
  | newlineColumn
  /-- Before `terminal_column += 4 - (terminal_row % 4)`. -/
  | tab
  /-- Before the test on the column, of a backspace. -/
  | backspaceTest
  /-- Before `terminal_column = VGA_WIDTH - 1`. -/
  | backspaceLast
  /-- Before `terminal_row--`. -/
  | backspaceRow
  /-- Before `terminal_column--`. -/
  | backspaceColumn
  /-- Before `terminal_putentryat`, of a backspace. -/
  | backspaceEntry
  /-- Before `terminal_putentryat`, of any other character. -/
  | entry
  /-- Before `terminal_column += 1`. -/
  | column
  /-- Before the test for the end of the line. -/
  | wrapTest
  /-- Before `terminal_column = 0`. -/
  | wrapColumn
  /-- Before `terminal_row += 1`. -/
  | wrapRow
  /-- Before the test for the end of the screen. -/
  | scrollTest
  /-- Before `terminal_scroll`. -/
  | scroll
  /-- Before `terminal_row = VGA_HEIGHT - 1`. -/
  | scrollRow
  | done
  deriving DecidableEq

/-- The statement of `terminal_putchar` at a boundary, and the boundary after it. -/
def putcharStatement (uc : UInt8) : Boundary → Kernel → Boundary × Kernel
  | .start, s =>
    (if uc = 10 then .newlineRow else if uc = 9 then .tab
      else if uc = 8 then .backspaceTest else .entry, s)
  | .newlineRow, s => (.newlineColumn, s.setCursor (s.terminal.row + 1) s.terminal.column)
  | .newlineColumn, s => (.wrapTest, s.setCursor s.terminal.row 0)
  | .tab, s => (.wrapTest, s.setCursor s.terminal.row (s.terminal.column + (4 - s.terminal.row % 4)))
  | .backspaceTest, s => (if s.terminal.column = 0 then .backspaceLast else .backspaceColumn, s)
  | .backspaceLast, s => (.backspaceRow, s.setCursor s.terminal.row (vgaWidth - 1))
  | .backspaceRow, s => (.backspaceEntry, s.setCursor (s.terminal.row - 1) s.terminal.column)
  | .backspaceColumn, s => (.backspaceEntry, s.setCursor s.terminal.row (s.terminal.column - 1))
  | .backspaceEntry, s =>
      (.wrapTest, terminalPutentryat 0 s.terminal.color s.terminal.column s.terminal.row s)
  | .entry, s => (.column, terminalPutentryat uc s.terminal.color s.terminal.column s.terminal.row s)
  | .column, s => (.wrapTest, s.setCursor s.terminal.row (s.terminal.column + 1))
  | .wrapTest, s => (if s.terminal.column = vgaWidth then .wrapColumn else .scrollTest, s)
  | .wrapColumn, s => (.wrapRow, s.setCursor s.terminal.row 0)
  | .wrapRow, s => (.scrollTest, s.setCursor (s.terminal.row + 1) s.terminal.column)
  | .scrollTest, s => (if s.terminal.row = vgaHeight then .scroll else .done, s)
  | .scroll, s => (.scrollRow, terminalScroll s)
  | .scrollRow, s => (.done, s.setCursor (vgaHeight - 1) s.terminal.column)
  | .done, s => (.done, s)

/-- The erasing of the cell that a backspace moves the cursor to. -/
def putcharErase (row column : UInt32) (s : Kernel) : Kernel :=
  terminalPutentryat 0 s.terminal.color column row (s.setCursor row column)

/-- What is left of a call from a boundary on. -/
def putcharFrom (uc : UInt8) : Boundary → Kernel → Kernel
  | .start, s => terminalPutchar uc s
  | .newlineRow, s => putcharScroll (putcharWrap (s.setCursor (s.terminal.row + 1) 0))
  | .newlineColumn, s => putcharScroll (putcharWrap (s.setCursor s.terminal.row 0))
  | .tab, s => putcharScroll
      (putcharWrap (s.setCursor s.terminal.row (s.terminal.column + (4 - s.terminal.row % 4))))
  | .backspaceTest, s => putcharScroll (putcharWrap (putcharEntry 8 s))
  | .backspaceLast, s => putcharScroll (putcharWrap (putcharErase (s.terminal.row - 1) (vgaWidth - 1) s))
  | .backspaceRow, s => putcharScroll (putcharWrap (putcharErase (s.terminal.row - 1) s.terminal.column s))
  | .backspaceColumn, s => putcharScroll (putcharWrap (putcharErase s.terminal.row (s.terminal.column - 1) s))
  | .backspaceEntry, s =>
    putcharScroll (putcharWrap (terminalPutentryat 0 s.terminal.color s.terminal.column s.terminal.row s))
  | .entry, s => putcharScroll
      (putcharWrap ((terminalPutentryat uc s.terminal.color s.terminal.column s.terminal.row s).setCursor
      s.terminal.row (s.terminal.column + 1)))
  | .column, s => putcharScroll (putcharWrap (s.setCursor s.terminal.row (s.terminal.column + 1)))
  | .wrapTest, s => putcharScroll (putcharWrap s)
  | .wrapColumn, s => putcharScroll (s.setCursor (s.terminal.row + 1) 0)
  | .wrapRow, s => putcharScroll (s.setCursor (s.terminal.row + 1) s.terminal.column)
  | .scrollTest, s => putcharScroll s
  | .scroll, s => (terminalScroll s).setCursor (vgaHeight - 1) s.terminal.column
  | .scrollRow, s => s.setCursor (vgaHeight - 1) s.terminal.column
  | .done, s => s

@[simp] theorem Kernel.setCursor_setCursor (row column row' column' : UInt32) (s : Kernel) :
    (s.setCursor row column).setCursor row' column' = s.setCursor row' column' := rfl

@[simp] theorem terminalPutentryat_terminal (c color : UInt8) (x y : UInt32) (s : Kernel) :
    (terminalPutentryat c color x y s).terminal = s.terminal := rfl

@[simp] theorem putcharErase_setCursor (row column row' column' : UInt32) (s : Kernel) :
    putcharErase row column (s.setCursor row' column') = putcharErase row column s := rfl

/-- **A statement leaves the rest of the call to be done.** -/
theorem putcharFrom_statement (uc : UInt8) (pc : Boundary) (s : Kernel) :
    putcharFrom uc (putcharStatement uc pc s).1 (putcharStatement uc pc s).2 = putcharFrom uc pc s := by
  cases pc with
  | start =>
    simp only [putcharStatement, putcharFrom, terminalPutchar]
    by_cases hnewline : uc = 10
    · simp [hnewline, putcharEntry_newline]
    by_cases htab : uc = 9
    · simp [htab, putcharEntry_tab]
    by_cases hbackspace : uc = 8
    · simp [hbackspace]
    · simp [hnewline, htab, hbackspace, putcharEntry_other]
  | backspaceTest =>
    by_cases hzero : s.terminal.column = 0
    · simp only [putcharStatement, if_pos hzero, putcharFrom, putcharEntry_backspace_zero s hzero,
        putcharErase]
    · simp only [putcharStatement, if_neg hzero, putcharFrom, putcharEntry_backspace s hzero, putcharErase]
  | backspaceLast =>
    rw [putcharStatement, putcharFrom, putcharFrom, putcharErase_setCursor, Kernel.setCursor_row,
      Kernel.setCursor_column]
  | wrapTest =>
    by_cases hlast : s.terminal.column = vgaWidth
    · simp only [putcharStatement, if_pos hlast, putcharFrom, putcharWrap]
    · simp only [putcharStatement, if_neg hlast, putcharFrom, putcharWrap]
  | scrollTest =>
    by_cases hlast : s.terminal.row = vgaHeight
    · simp only [putcharStatement, if_pos hlast, putcharFrom, putcharScroll, terminalScroll_terminal]
    · simp only [putcharStatement, if_neg hlast, putcharFrom, putcharScroll]
  | scrollRow => simp only [putcharStatement, putcharFrom]
  | scroll => simp [putcharStatement, putcharFrom]
  | wrapColumn => exact congrArg putcharScroll (Kernel.setCursor_setCursor ..)
  | newlineRow => exact congrArg (fun t => putcharScroll (putcharWrap t)) (Kernel.setCursor_setCursor ..)
  | _ => rfl

/-- How many statements can follow. -/
def Boundary.rank : Boundary → ℕ
  | .start => 11
  | .backspaceTest => 10
  | .backspaceLast => 9
  | .newlineRow | .backspaceRow | .backspaceColumn | .entry => 8
  | .newlineColumn | .tab | .backspaceEntry | .column => 7
  | .wrapTest => 6
  | .wrapColumn => 5
  | .wrapRow => 4
  | .scrollTest => 3
  | .scroll => 2
  | .scrollRow => 1
  | .done => 0

theorem rank_statement (uc : UInt8) {pc : Boundary} (h : pc ≠ .done) (s : Kernel) :
    (putcharStatement uc pc s).1.rank < pc.rank := by
  cases pc with
  | done => exact absurd rfl h
  | start =>
    simp only [putcharStatement]
    by_cases hnewline : uc = 10
    · simp [hnewline, Boundary.rank]
    by_cases htab : uc = 9
    · simp [htab, Boundary.rank]
    by_cases hbackspace : uc = 8
    · simp [hbackspace, Boundary.rank]
    · simp [hnewline, htab, hbackspace, Boundary.rank]
  | backspaceTest | wrapTest | scrollTest =>
    simp only [putcharStatement]
    split <;> simp [Boundary.rank]
  | _ => simp [putcharStatement, Boundary.rank]

/-- **The statements of a call**, one after the other, are the call. -/
theorem iterate_putcharStatement (uc : UInt8) (pc : Boundary) (s : Kernel) :
    ∃ n, (fun p : Boundary × Kernel => putcharStatement uc p.1 p.2)^[n] (pc, s) =
      (.done, putcharFrom uc pc s) := by
  induction hrank : pc.rank using Nat.strong_induction_on generalizing pc s with
  | h k ih =>
    by_cases hdone : pc = .done
    · subst hdone
      exact ⟨0, rfl⟩
    · obtain ⟨n, hn⟩ := ih _ (hrank ▸ rank_statement uc hdone s) _ (putcharStatement uc pc s).2 rfl
      rw [putcharFrom_statement] at hn
      exact ⟨n + 1, hn⟩

/-! ### Characters that take a cell -/

/-- Where the cursor is at a boundary, in a call with a character that takes a cell. -/
def Boundary.Placed (s : Kernel) : Boundary → Prop
  | .start | .entry | .column | .done => OnScreen s
  | .wrapTest => s.terminal.row.toNat < 25 ∧ s.terminal.column.toNat ≤ 80
  | .wrapColumn => s.terminal.row.toNat < 25 ∧ s.terminal.column.toNat = 80
  | .wrapRow => s.terminal.row.toNat < 25 ∧ s.terminal.column.toNat = 0
  | .scrollTest => s.terminal.row.toNat ≤ 25 ∧ s.terminal.column.toNat < 80
  | .scroll | .scrollRow => s.terminal.row.toNat = 25 ∧ s.terminal.column.toNat < 80
  | _ => False

/-- The character of the call is not on the screen yet. -/
def Boundary.BeforeEntry (pc : Boundary) : Prop := pc = .start ∨ pc = .entry

instance (pc : Boundary) : Decidable pc.BeforeEntry := inferInstanceAs (Decidable (_ ∨ _))

/-- The boundaries at which an interrupt does no harm: the character is not on the screen yet, or
the tests that are left do not hold. -/
def Boundary.Harmless (s : Kernel) : Boundary → Prop
  | .start | .entry | .done => True
  | .wrapTest => s.terminal.column ≠ vgaWidth
  | .scrollTest => s.terminal.row ≠ vgaHeight
  | _ => False

/-- What a statement leaves as it is: the buffer and the memory off the screen. -/
structure KeepsOff (s t : Kernel) : Prop where
  buffer : t.terminal.buffer = s.terminal.buffer
  mem : Set.EqOn t.mem s.mem screenᶜ
  puts : PutsInside s t

section KeepsOff

variable {s t u : Kernel} {c : UInt8} {pc : Boundary}

theorem KeepsOff.refl (s : Kernel) : KeepsOff s s := ⟨rfl, Set.eqOn_refl .., Emits.refl s⟩

theorem KeepsOff.trans (h : KeepsOff s t) (h' : KeepsOff t u) : KeepsOff s u :=
  ⟨h'.buffer.trans h.buffer, h'.mem.trans h.mem, h.puts.trans h'.puts⟩

theorem keepsOff_setCursor (row column : UInt32) (s : Kernel) : KeepsOff s (s.setCursor row column) :=
  ⟨rfl, Set.eqOn_refl .., Emits.of_trace rfl⟩

theorem keepsOff_putentryat (hb : s.terminal.buffer = vgaMemory) (h : OnScreen s) (c color : UInt8) :
    KeepsOff s (terminalPutentryat c color s.terminal.column s.terminal.row s) :=
  ⟨rfl, (putentryat_draws hb c color h.2 h.1).mem, putsInside_putentryat c color h.2 h.1 s⟩

theorem keepsOff_scroll (hb : s.terminal.buffer = vgaMemory) : KeepsOff s (terminalScroll s) :=
  ⟨by rw [terminalScroll_terminal], (terminalScroll_draws hb).mem, Emits.of_trace (terminalScroll_trace s)⟩

/-- **A statement** of a call with a character that takes a cell. -/
theorem placed_statement (hb : s.terminal.buffer = vgaMemory) (hc : TakesCell c) (h : pc.Placed s) :
    (putcharStatement c pc s).1.Placed (putcharStatement c pc s).2 ∧
    KeepsOff s (putcharStatement c pc s).2 := by
  cases pc with
  | start =>
    rw [putcharStatement, if_neg hc.1, if_neg hc.2.1, if_neg hc.2.2]
    exact ⟨h, KeepsOff.refl s⟩
  | entry => exact ⟨h, keepsOff_putentryat hb h c s.terminal.color⟩
  | column =>
    obtain ⟨hrow, hcolumn⟩ := h
    refine ⟨⟨hrow, ?_⟩, keepsOff_setCursor ..⟩
    show (s.terminal.column + 1).toNat ≤ 80
    rwa [toNat_add_one (by omega)]
  | wrapTest =>
    obtain ⟨hrow, hcolumn⟩ := h
    by_cases hlast : s.terminal.column = vgaWidth
    · rw [putcharStatement, if_pos hlast]
      exact ⟨⟨hrow, congrArg UInt32.toNat hlast⟩, KeepsOff.refl s⟩
    · rw [putcharStatement, if_neg hlast]
      have hne : s.terminal.column.toNat ≠ 80 := fun heq => hlast (UInt32.toNat_inj.mp heq)
      exact ⟨⟨Nat.le_of_lt hrow, Nat.lt_of_le_of_ne hcolumn hne⟩, KeepsOff.refl s⟩
  | wrapColumn => exact ⟨⟨h.1, rfl⟩, keepsOff_setCursor ..⟩
  | wrapRow =>
    obtain ⟨hrow, hcolumn⟩ := h
    refine ⟨⟨?_, ?_⟩, keepsOff_setCursor ..⟩
    · show (s.terminal.row + 1).toNat ≤ 25
      rwa [toNat_add_one (by omega)]
    · show s.terminal.column.toNat < 80
      omega
  | scrollTest =>
    obtain ⟨hrow, hcolumn⟩ := h
    by_cases hlast : s.terminal.row = vgaHeight
    · rw [putcharStatement, if_pos hlast]
      exact ⟨⟨congrArg UInt32.toNat hlast, hcolumn⟩, KeepsOff.refl s⟩
    · rw [putcharStatement, if_neg hlast]
      have hne : s.terminal.row.toNat ≠ 25 := fun heq => hlast (UInt32.toNat_inj.mp heq)
      exact ⟨⟨Nat.lt_of_le_of_ne hrow hne, hcolumn⟩, KeepsOff.refl s⟩
  | scroll =>
    refine ⟨?_, keepsOff_scroll hb⟩
    rw [putcharStatement, Boundary.Placed, terminalScroll_terminal]
    exact h
  | scrollRow =>
    refine ⟨?_, keepsOff_setCursor ..⟩
    rw [putcharStatement, Boundary.Placed, OnScreen, Kernel.setCursor_row, Kernel.setCursor_column]
    exact ⟨by decide, h.2⟩
  | done => exact ⟨h, KeepsOff.refl s⟩
  | _ => exact absurd h id

/-- What is left of the call brings the cursor back to the screen. -/
theorem placed_putcharFrom (hb : s.terminal.buffer = vgaMemory) (hc : TakesCell c) (h : pc.Placed s) :
    OnScreen (putcharFrom c pc s) ∧ KeepsOff s (putcharFrom c pc s) := by
  induction hrank : pc.rank using Nat.strong_induction_on generalizing pc s with
  | h k ih =>
    by_cases hdone : pc = .done
    · subst hdone
      exact ⟨h, KeepsOff.refl s⟩
    · obtain ⟨hplaced, hkeeps⟩ := placed_statement hb hc h
      have hrest := ih _ (hrank ▸ rank_statement c hdone s) (hkeeps.buffer.trans hb) hplaced rfl
      rw [putcharFrom_statement] at hrest
      exact ⟨hrest.1, hkeeps.trans hrest.2⟩

/-- A call as a whole. -/
theorem placed_putchar (hb : s.terminal.buffer = vgaMemory) (hc : TakesCell c) (h : OnScreen s) :
    OnScreen (terminalPutchar c s) ∧ KeepsOff s (terminalPutchar c s) := by
  have hplaced : Boundary.Placed s .start := h
  have hcall := placed_putcharFrom hb hc hplaced
  rwa [putcharFrom] at hcall

theorem onScreen_of_harmless (h : pc.Placed s) (hh : pc.Harmless s) : OnScreen s := by
  cases pc with
  | start | entry | done => exact h
  | wrapTest => exact ⟨h.1, Nat.lt_of_le_of_ne h.2 fun heq => hh (UInt32.toNat_inj.mp heq)⟩
  | scrollTest => exact ⟨Nat.lt_of_le_of_ne h.1 fun heq => hh (UInt32.toNat_inj.mp heq), h.2⟩
  | _ => exact absurd hh id

/-- An interrupt leaves the boundary harmless. -/
theorem harmless_of_onScreen (hh : pc.Harmless s) (ht : OnScreen t) : pc.Placed t ∧ pc.Harmless t := by
  cases pc with
  | start | entry | done => exact ⟨ht, trivial⟩
  | wrapTest => exact ⟨⟨ht.1, Nat.le_of_lt ht.2⟩, fun heq => Nat.ne_of_lt ht.2 (congrArg UInt32.toNat heq)⟩
  | scrollTest => exact ⟨⟨Nat.le_of_lt ht.1, ht.2⟩, fun heq => Nat.ne_of_lt ht.1 (congrArg UInt32.toNat heq)⟩
  | _ => exact absurd hh id

/-- When the character is on the screen, at a harmless boundary the call has nothing left to do. -/
theorem putcharFrom_harmless (h : pc.Placed s) (hh : pc.Harmless s) (hentry : ¬ pc.BeforeEntry) (c : UInt8) :
    putcharFrom c pc s = s := by
  have hscreen := onScreen_of_harmless h hh
  cases pc with
  | start => exact absurd (Or.inl rfl) hentry
  | entry => exact absurd (Or.inr rfl) hentry
  | done => rfl
  | wrapTest =>
    rw [putcharFrom, putcharWrap_of_ne (Nat.ne_of_lt hscreen.2), putcharScroll_of_ne (Nat.ne_of_lt hscreen.1)]
  | scrollTest => rw [putcharFrom, putcharScroll_of_ne (Nat.ne_of_lt hscreen.1)]
  | _ => exact absurd hh id

end KeepsOff

/-! ### Runs -/

/-- The kernel that prints: the call under way and where it is, and the characters that are still to
be printed. -/
structure Printing where
  kernel : Kernel
  call : Option (UInt8 × Boundary)
  rest : List UInt8

/-- A step of the kernel. -/
inductive PrintStep : Printing → Printing → Prop where
  /-- The next call. -/
  | call (s : Kernel) (c : UInt8) (rest : List UInt8) :
      PrintStep ⟨s, none, c :: rest⟩ ⟨s, some (c, .start), rest⟩
  /-- A statement of a call. -/
  | statement (s : Kernel) (c : UInt8) {pc : Boundary} (hpc : pc ≠ .done) (rest : List UInt8) :
      PrintStep ⟨s, some (c, pc), rest⟩ ⟨(putcharStatement c pc s).2,
        some (c, (putcharStatement c pc s).1), rest⟩
  /-- The end of a call. -/
  | ret (s : Kernel) (c : UInt8) (rest : List UInt8) : PrintStep ⟨s, some (c, .done), rest⟩ ⟨s, none, rest⟩

/-- `PrintRun Allowed s str t typed`: the kernel prints `str`, from `s` on, and is at `t`. The
interrupts on the way, at allowed places, printed the characters `typed`. -/
inductive PrintRun (Allowed : Printing → Prop) (s : Kernel) (str : List UInt8) : Printing → List UInt8 →
    Prop where
  | begin : PrintRun Allowed s str ⟨s, none, str⟩ []
  | step {t u : Printing} {typed : List UInt8} : PrintRun Allowed s str t typed → PrintStep t u →
      PrintRun Allowed s str u typed
  /-- `keyboard_callback` prints a character. -/
  | interrupt {t : Printing} {typed : List UInt8} {d : UInt8} : PrintRun Allowed s str t typed → Allowed t →
      TakesCell d → PrintRun Allowed s str { t with kernel := terminalPutchar d t.kernel } (typed ++ [d])

/-- Between two calls, or at a harmless boundary of one. -/
def Printing.Harmless (t : Printing) : Prop := ∀ c pc, t.call = some (c, pc) → pc.Harmless t.kernel

/-- The characters of the kernel that are not on the screen yet. -/
def Printing.unwritten (t : Printing) : List UInt8 :=
  match t.call with
  | none => t.rest
  | some (c, pc) => if pc.BeforeEntry then c :: t.rest else t.rest

/-- The state after the call under way, if its character is on the screen. -/
def Printing.completed (t : Printing) : Kernel :=
  match t.call with
  | none => t.kernel
  | some (c, pc) => if pc.BeforeEntry then t.kernel else putcharFrom c pc t.kernel

/-- Where the cursor is. -/
def Printing.Placed (t : Printing) : Prop :=
  match t.call with
  | none => OnScreen t.kernel
  | some (_, pc) => pc.Placed t.kernel

/-- The calls so far, of the kernel and of the interrupts, were made one after the other. -/
structure InTurn (s : Kernel) (str : List UInt8) (t : Printing) (typed : List UInt8) : Prop where
  takesCell : ∀ c ∈ t.rest, TakesCell c
  call : ∀ c pc, t.call = some (c, pc) → TakesCell c
  takesCell_typed : ∀ d ∈ typed, TakesCell d
  placed : t.Placed
  keeps : KeepsOff s t.kernel
  turns : ∃ printed turns, printed ++ t.unwritten = str ∧ Interleave printed typed turns ∧
    t.completed = terminalPutchars turns s

section InTurn

variable {s : Kernel} {str typed : List UInt8} {t u : Printing}

theorem Printing.unwritten_some (k : Kernel) (c : UInt8) (pc : Boundary) (rest : List UInt8) :
    Printing.unwritten ⟨k, some (c, pc), rest⟩ = if pc.BeforeEntry then c :: rest else rest := rfl

theorem Printing.completed_some (k : Kernel) (c : UInt8) (pc : Boundary) (rest : List UInt8) :
    Printing.completed ⟨k, some (c, pc), rest⟩ = if pc.BeforeEntry then k else putcharFrom c pc k := rfl

theorem Printing.onScreen (h : t.Placed) (hh : t.Harmless) : OnScreen t.kernel := by
  obtain ⟨kernel, call, rest⟩ := t
  cases call with
  | none => exact h
  | some call => exact onScreen_of_harmless h (hh call.1 call.2 rfl)

/-- At a harmless place no call is half done. -/
theorem Printing.completed_of_harmless (h : t.Placed) (hh : t.Harmless) : t.completed = t.kernel := by
  obtain ⟨kernel, call, rest⟩ := t
  cases call with
  | none => rfl
  | some call =>
    obtain ⟨c, pc⟩ := call
    by_cases hentry : pc.BeforeEntry
    · rw [Printing.completed_some, if_pos hentry]
    · rw [Printing.completed_some, if_neg hentry]
      exact putcharFrom_harmless h (hh c pc rfl) hentry c

/-- Once the character is on the screen no later statement writes it. -/
theorem beforeEntry_statement (c : UInt8) {pc : Boundary} (h : ¬ pc.BeforeEntry) (s : Kernel) :
    ¬ (putcharStatement c pc s).1.BeforeEntry := by
  cases pc with
  | start => exact absurd (Or.inl rfl) h
  | backspaceTest | wrapTest | scrollTest =>
    simp only [putcharStatement]
    split <;> simp [Boundary.BeforeEntry]
  | _ => simp_all [putcharStatement, Boundary.BeforeEntry]

/-- The statement that writes the character has the call's turn come; the others leave the turns. -/
theorem turns_statement {k : Kernel} {c : UInt8} (hc : TakesCell c) (pc : Boundary) {rest : List UInt8}
    (h : ∃ printed turns, printed ++ Printing.unwritten ⟨k, some (c, pc), rest⟩ = str ∧
      Interleave printed typed turns ∧
      Printing.completed ⟨k, some (c, pc), rest⟩ = terminalPutchars turns s) :
    ∃ printed turns,
      printed ++ Printing.unwritten ⟨(putcharStatement c pc k).2, some (c, (putcharStatement c pc k).1),
        rest⟩ = str ∧
        Interleave printed typed turns ∧
          Printing.completed ⟨(putcharStatement c pc k).2, some (c, (putcharStatement c pc k).1), rest⟩ =
            terminalPutchars turns s := by
  obtain ⟨printed, turns, hprinted, hinterleave, hcompleted⟩ := h
  have hstart : putcharStatement c .start k = (.entry, k) := by
    rw [putcharStatement, if_neg hc.1, if_neg hc.2.1, if_neg hc.2.2]
  by_cases hpc : pc = .start
  · rw [hpc, hstart]
    rw [hpc] at hprinted hcompleted
    exact ⟨printed, turns, hprinted, hinterleave, hcompleted⟩
  by_cases hentry : pc = .entry
  · subst hentry
    have hrest : putcharFrom c .column (putcharStatement c .entry k).2 = terminalPutchar c k := by
      have hcall := putcharFrom_statement c .start k
      rw [hstart] at hcall
      exact (putcharFrom_statement c .entry k).trans hcall
    refine ⟨printed ++ [c], turns ++ [c], ?_, hinterleave.left c, ?_⟩
    · rw [List.append_assoc]
      exact hprinted
    · rw [terminalPutchars_concat, ← hcompleted]
      exact hrest
  · have hwritten : ¬ pc.BeforeEntry := not_or.mpr ⟨hpc, hentry⟩
    have hwritten' := beforeEntry_statement c hwritten k
    rw [Printing.unwritten_some, if_neg hwritten] at hprinted
    rw [Printing.completed_some, if_neg hwritten] at hcompleted
    refine ⟨printed, turns, ?_, hinterleave, ?_⟩
    · rwa [Printing.unwritten_some, if_neg hwritten']
    · rwa [Printing.completed_some, if_neg hwritten', putcharFrom_statement]

/-- **A step of the kernel** keeps the calls in turn. -/
theorem InTurn.step (hb : s.terminal.buffer = vgaMemory) (h : InTurn s str t typed) (hstep : PrintStep t u) :
    InTurn s str u typed := by
  obtain ⟨htakes, hcall, htyped, hplaced, hkeeps, hturns⟩ := h
  cases hstep with
  | call k c rest =>
    refine ⟨fun d hd => htakes d (List.mem_cons_of_mem c hd), ?_, htyped, hplaced, hkeeps, hturns⟩
    rintro _ _ ⟨⟩
    exact htakes c List.mem_cons_self
  | ret k c rest =>
    refine ⟨htakes, ?_, htyped, hplaced, hkeeps, hturns⟩
    rintro _ _ ⟨⟩
  | @statement k c pc hpc rest =>
    have hc := hcall c pc rfl
    obtain ⟨hnext, hkept⟩ := placed_statement (hkeeps.buffer.trans hb) hc hplaced
    refine ⟨htakes, ?_, htyped, hnext, hkeeps.trans hkept, turns_statement hc pc hturns⟩
    rintro _ _ ⟨⟩
    exact hc

/-- An interrupt at a harmless place leaves it harmless. -/
theorem Printing.harmless_interrupt (hh : t.Harmless) {k : Kernel} (hk : OnScreen k) :
    Printing.Placed { t with kernel := k } ∧ Printing.Harmless { t with kernel := k } := by
  obtain ⟨kernel, call, rest⟩ := t
  refine ⟨?_, fun c pc hcall => (harmless_of_onScreen (hh c pc hcall) hk).2⟩
  cases call with
  | none => exact hk
  | some call => exact (harmless_of_onScreen (hh call.1 call.2 rfl) hk).1

/-- It is a call in its turn. -/
theorem InTurn.interrupt (hb : s.terminal.buffer = vgaMemory) (h : InTurn s str t typed) (hh : t.Harmless)
    {d : UInt8} (hd : TakesCell d) : InTurn s str { t with kernel := terminalPutchar d t.kernel }
    (typed ++ [d]) := by
  have hcall := placed_putchar (h.keeps.buffer.trans hb) hd (Printing.onScreen h.placed hh)
  obtain ⟨hplaced, hharmless⟩ := Printing.harmless_interrupt hh hcall.1
  obtain ⟨printed, turns, hprinted, hinterleave, hcompleted⟩ := h.turns
  refine ⟨h.takesCell, h.call, ?_, hplaced, h.keeps.trans hcall.2, printed, turns ++ [d], hprinted,
    hinterleave.right d, ?_⟩
  · exact List.forall_mem_append.mpr ⟨h.takesCell_typed, List.forall_mem_singleton.mpr hd⟩
  rw [Printing.completed_of_harmless h.placed hh] at hcompleted
  rw [Printing.completed_of_harmless hplaced hharmless, terminalPutchars_concat, ← hcompleted]

/-- **A whole run**: while interrupts come at harmless places only, all calls are made one after the other. -/
theorem inTurn_of_run (hb : s.terminal.buffer = vgaMemory) (hs : OnScreen s) (hstr : ∀ c ∈ str, TakesCell c)
    (hrun : PrintRun Printing.Harmless s str t typed) : InTurn s str t typed := by
  induction hrun with
  | begin =>
    refine ⟨hstr, ?_, List.forall_mem_nil _, hs, KeepsOff.refl s, [], [], rfl, Interleave.nil, rfl⟩
    rintro _ _ ⟨⟩
  | step _ hstep ih => exact ih.step hb hstep
  | interrupt _ hh hd ih => exact ih.interrupt hb hh hd

/-- A run up to the statement after the one that writes the first character. -/
theorem printRun_column {Allowed : Printing → Prop} {c : UInt8} (hc : TakesCell c) (s : Kernel)
    (rest : List UInt8) :
    PrintRun Allowed s (c :: rest)
      ⟨terminalPutentryat c s.terminal.color s.terminal.column s.terminal.row s,
        some (c, .column), rest⟩ [] := by
  have hcall : PrintRun Allowed s (c :: rest) ⟨s, some (c, .start), rest⟩ [] := .step .begin (.call s c rest)
  have hstart := hcall.step (.statement s c (by decide : Boundary.start ≠ .done) rest)
  rw [putcharStatement, if_neg hc.1, if_neg hc.2.1, if_neg hc.2.2] at hstart
  exact hstart.step (.statement s c (by decide : Boundary.entry ≠ .done) rest)

/-- One statement further, for any kernel that an interrupt may have left. -/
theorem PrintRun.column {Allowed : Printing → Prop} {k : Kernel} {c : UInt8} {rest : List UInt8}
    (hrun : PrintRun Allowed s str ⟨k, some (c, .column), rest⟩ typed) :
    PrintRun Allowed s str
      ⟨k.setCursor k.terminal.row (k.terminal.column + 1), some (c, .wrapTest), rest⟩ typed :=
  hrun.step (.statement k c (by decide : Boundary.column ≠ .done) rest)

/-- When no test holds the call ends. -/
theorem PrintRun.wrapTest {Allowed : Printing → Prop} {k : Kernel} {c : UInt8} {rest : List UInt8}
    (hrun : PrintRun Allowed s str ⟨k, some (c, .wrapTest), rest⟩ typed) (hk : OnScreen k) :
    PrintRun Allowed s str ⟨k, none, rest⟩ typed := by
  have hcolumn : k.terminal.column ≠ vgaWidth := fun heq => Nat.ne_of_lt hk.2 (congrArg UInt32.toNat heq)
  have hrow : k.terminal.row ≠ vgaHeight := fun heq => Nat.ne_of_lt hk.1 (congrArg UInt32.toNat heq)
  have htest := hrun.step (.statement k c (by decide : Boundary.wrapTest ≠ .done) rest)
  rw [putcharStatement, if_neg hcolumn] at htest
  have hdone := htest.step (.statement k c (by decide : Boundary.scrollTest ≠ .done) rest)
  rw [putcharStatement, if_neg hrow] at hdone
  exact hdone.step (.ret k c rest)

/-- **While interrupts come at harmless places only** nothing off the screen is written, and after
each call the cursor is on the screen and every character, of the kernel and of the interrupts, is
in a cell of its own. -/
theorem printRun_ownCells (hb : s.terminal.buffer = vgaMemory) (hs : OnScreen s)
    (hstr : ∀ c ∈ str, TakesCell c) (hrun : PrintRun Printing.Harmless s str t typed) :
    PutsInside s t.kernel ∧ Set.EqOn t.kernel.mem s.mem screenᶜ ∧
      (t.Harmless → OnScreen t.kernel ∧ ∃ printed turns, printed ++ t.unwritten = str ∧
        Interleave printed typed turns ∧
        OwnCells s t.kernel turns) := by
  have h := inTurn_of_run hb hs hstr hrun
  refine ⟨h.keeps.puts, h.keeps.mem, fun hh => ⟨Printing.onScreen h.placed hh, ?_⟩⟩
  obtain ⟨printed, turns, hprinted, hinterleave, hcompleted⟩ := h.turns
  have hturns : ∀ c ∈ turns, TakesCell c := fun c hc => by
    rcases hinterleave.mem hc with hc | hc
    · exact hstr c (hprinted ▸ List.mem_append_left _ hc)
    · exact h.takesCell_typed c hc
  rw [Printing.completed_of_harmless h.placed hh] at hcompleted
  refine ⟨printed, turns, hprinted, hinterleave, ?_⟩
  rw [hcompleted]
  exact terminalPutchars_ownCells hb hs hturns

/-- A key pressed after the column was updated, before tests that do not hold. -/
theorem printRun_ownCells_wrapTest : ∃ t : Printing,
    PrintRun Printing.Harmless (terminalInitialize 0 Kernel.loaded) [65] t [66] ∧ t.Harmless ∧
      PutsInside (terminalInitialize 0 Kernel.loaded) t.kernel ∧
      Set.EqOn t.kernel.mem (terminalInitialize 0 Kernel.loaded).mem screenᶜ ∧ OnScreen t.kernel ∧
      ∃ printed turns, printed ++ t.unwritten = [65] ∧ Interleave printed [66] turns ∧
        OwnCells (terminalInitialize 0 Kernel.loaded) t.kernel turns := by
  have hs := terminalInitialize_onScreen 0 Kernel.loaded
  have hterminal := terminalInitialize_terminal 0 Kernel.loaded
  generalize terminalInitialize 0 Kernel.loaded = s at hs hterminal
  have hb : s.terminal.buffer = vgaMemory := by rw [hterminal]
  have hwrap : PrintRun Printing.Harmless s [65] _ [] := (printRun_column (by decide) s []).column
  rw [terminalPutentryat_terminal] at hwrap
  generalize hk :
    (terminalPutentryat 65 s.terminal.color s.terminal.column s.terminal.row s).setCursor s.terminal.row
    (s.terminal.column + 1) = k at hwrap
  have hcursor : k.terminal.row = 0 ∧ k.terminal.column = 1 := by
    rw [← hk, Kernel.setCursor_row, Kernel.setCursor_column, hterminal]
    exact ⟨rfl, rfl⟩
  have hscreen : OnScreen k := by
    rw [OnScreen, hcursor.1, hcursor.2]
    exact ⟨by decide, by decide⟩
  have hh : Printing.Harmless ⟨k, some (65, .wrapTest), []⟩ := by
    rintro _ _ ⟨⟩
    rw [Boundary.Harmless, hcursor.2]
    decide
  have hrun := hwrap.interrupt hh (by decide : TakesCell 66)
  have hend := Printing.harmless_interrupt hh (onScreen_putchar hscreen (c := 66) ⟨by simp, by simp⟩).1
  obtain ⟨hputs, hmem, hcells⟩ := printRun_ownCells hb hs (by simpa using (by decide : TakesCell 65)) hrun
  exact ⟨_, hrun, hend.2, hputs, hmem, hcells hend.2⟩

/-- A key pressed after `terminal_putentryat` and before `terminal_column += 1`: the character of
the key is written over the one that was printed, which is nowhere on the screen then. -/
theorem printRun_overwritten : ∃ t : Printing,
    PrintRun (fun _ => True) (terminalInitialize 0 Kernel.loaded) [65] t [66] ∧ t.call = none ∧ t.rest = [] ∧
      ∀ i < 2000, t.kernel.cell i ≠ vgaEntry 65 (terminalInitialize 0 Kernel.loaded).terminal.color := by
  have hterminal := terminalInitialize_terminal 0 Kernel.loaded
  have hblank := (terminalInitialize_draws 0 Kernel.loaded).cells
  generalize terminalInitialize 0 Kernel.loaded = s at hterminal hblank
  have hb : s.terminal.buffer = vgaMemory := by rw [hterminal]
  have hwritten := putentryat_draws hb 65 (terminalColor 0) (x := 0) (y := 0) (by decide) (by decide)
  have hcolumn : PrintRun (fun _ => True) s [65] _ [] := printRun_column (by decide) s []
  rw [hterminal] at hcolumn
  generalize terminalPutentryat 65 (terminalColor 0) 0 0 s = k at hwritten hcolumn
  have hk : k.terminal = ⟨0, 0, terminalColor 0, vgaMemory⟩ := hwritten.terminal.trans hterminal
  have hkey := putentryat_draws (s := k) (by rw [hk]) 66 (terminalColor 0) (x := 0) (y := 0) (by decide)
    (by decide)
  have hputchar : terminalPutchar 66 k = (terminalPutentryat 66 (terminalColor 0) 0 0 k).setCursor 0 1 := by
    rw [terminalPutchar, putcharEntry_other k (by decide) (by decide) (by decide), hk]
    rw [putcharWrap_of_ne (by decide : (0 + 1 : UInt32).toNat ≠ 80),
      putcharScroll_of_ne (by decide : (0 : UInt32).toNat ≠ 25)]
    rfl
  have hrun := (hcolumn.interrupt trivial (by decide : TakesCell 66)).column
  rw [hputchar] at hrun
  generalize terminalPutentryat 66 (terminalColor 0) 0 0 k = m at hkey hrun
  rw [Kernel.setCursor_setCursor, Kernel.setCursor_row, Kernel.setCursor_column] at hrun
  have hscreen : OnScreen (m.setCursor 0 (1 + 1)) := by
    rw [OnScreen, Kernel.setCursor_row, Kernel.setCursor_column]
    exact ⟨by decide, by decide⟩
  refine ⟨_, hrun.wrapTest hscreen, rfl, rfl, fun i hi => ?_⟩
  rw [hterminal, Kernel.setCursor_cell, hkey.cells i hi, hwritten.cells i hi, hblank i hi]
  split <;> decide

end InTurn

end JurasOS
