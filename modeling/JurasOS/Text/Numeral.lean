import Mathlib.Data.Nat.Digits.Defs
import Mathlib.Data.UInt

/-!
# Numerals

Texts are lists of bytes, in ASCII. A numeral is written with the digits of a
number, the most significant first, and read as `strtol` reads it: spaces, a sign,
and then digits of the base up to the first character that is none. `Stops` says
of what follows a numeral that it ends there.
-/

namespace JurasOS.Text

/-- The code of a character. -/
def ascii (c : Char) : UInt8 := UInt8.ofNat c.toNat

/-- The codes of the characters of a string. -/
def bytes (s : String) : List UInt8 := s.toList.map ascii

/-- The character of a digit. -/
def digitChar (upper : Bool) (d : ℕ) : UInt8 :=
  if d < 10 then ascii '0' + UInt8.ofNat d
  else ascii (if upper then 'A' else 'a') + UInt8.ofNat d - 10

/-- The digit of a character. -/
def digitVal (c : UInt8) : Option ℕ :=
  if ascii '0' ≤ c ∧ c ≤ ascii '9' then some (c.toNat - 48)
  else if ascii 'A' ≤ c ∧ c ≤ ascii 'Z' then some (c.toNat - 55)
  else if ascii 'a' ≤ c ∧ c ≤ ascii 'z' then some (c.toNat - 87)
  else none

theorem digitVal_digitChar (upper : Bool) {d : ℕ} (hd : d < 36) : digitVal (digitChar upper d) = some d := by
  have hall : ∀ u : Bool, ∀ e ∈ List.range 36, digitVal (digitChar u e) = some e := by decide
  exact hall upper d (List.mem_range.mpr hd)

/-- The text of digits, the most significant first. -/
def numeral (upper : Bool) (ds : List ℕ) : List UInt8 := ds.map (digitChar upper)

/-- The number of digits in a base, the most significant first. -/
def value (base : ℕ) (ds : List ℕ) : ℕ := ds.foldl (fun a d => a * base + d) 0

section value

variable {base : ℕ} {ds : List ℕ}

theorem value_eq_ofDigits (base : ℕ) (ds : List ℕ) : value base ds = Nat.ofDigits base ds.reverse := by
  rw [value, Nat.ofDigits_eq_foldr, List.foldr_reverse]
  simp only [Nat.cast_id, Nat.add_comm, Nat.mul_comm]

/-- Zeros before the digits do not count. -/
theorem value_zeros (base zeros : ℕ) (ds : List ℕ) :
    value base (List.replicate zeros 0 ++ ds) = value base ds := by
  rw [value, List.foldl_append]
  have hzeros : (List.replicate zeros 0).foldl (fun a d => a * base + d) 0 = 0 := by
    induction zeros with
    | zero => rfl
    | succ n ih => rwa [List.replicate_succ, List.foldl_cons, Nat.zero_mul]
  rw [hzeros, value]

/-- Without its first digits, a number is left modulo the power of the others. -/
theorem value_drop (hbase : 0 < base) (hds : ∀ d ∈ ds, d < base) (r : ℕ) :
    value base (ds.drop r) = value base ds % base ^ (ds.length - r) := by
  have hrev : ∀ d ∈ ds.reverse, d < base := fun d hd => hds d (List.mem_reverse.mp hd)
  rw [value_eq_ofDigits, value_eq_ofDigits, Nat.ofDigits_mod_pow_eq_ofDigits_take _ hbase _ hrev,
    List.reverse_drop]

end value

/-- Read digits of the base after those that came to `acc`: the number, and the text that is left. -/
def readNat (base : ℕ) : ℕ → List UInt8 → ℕ × List UInt8
  | acc, [] => (acc, [])
  | acc, c :: cs =>
    match digitVal c with
    | some d => if d < base then readNat base (acc * base + d) cs else (acc, c :: cs)
    | none => (acc, c :: cs)

/-- No digit of the base is at the start of the text. -/
def Stops (base : ℕ) (cs : List UInt8) : Prop := ∀ c ∈ cs.head?, ∀ d ∈ digitVal c, base ≤ d

/-- What `strtol` reads in a base, from the sign on. -/
def readSigned (base : ℕ) : List UInt8 → ℤ
  | [] => 0
  | c :: cs =>
    if c = ascii '-' then -(readNat base 0 cs).1
    else if c = ascii '+' then (readNat base 0 cs).1
    else (readNat base 0 (c :: cs)).1

/-- What `strtol` reads in a base: spaces, a sign, and digits. -/
def readInt (base : ℕ) (cs : List UInt8) : ℤ := readSigned base (cs.dropWhile (· = ascii ' '))

/-- What is read in base 16, where the prefix must be there. -/
def readHex (cs : List UInt8) : Option ℕ :=
  match cs.dropWhile (· = ascii ' ') with
  | z :: x :: cs =>
    if z = ascii '0' ∧ (x = ascii 'x' ∨ x = ascii 'X') then some (readNat 16 0 cs).1 else none
  | _ => none

/-! ### What is read of a numeral -/

/-- A number of spaces. -/
def spaces (n : ℕ) : List UInt8 := List.replicate n (ascii ' ')

section read

variable {base : ℕ} {upper : Bool} {ds : List ℕ} {cs : List UInt8}

theorem stops_nil (base : ℕ) : Stops base [] := fun _ hc => absurd hc (by simp)

theorem stops_spaces (base n : ℕ) : Stops base (spaces n) := by
  cases n with
  | zero => exact stops_nil base
  | succ n =>
    intro c hc d hd
    rw [spaces, List.replicate_succ, List.head?_cons, Option.mem_some] at hc
    rw [← hc] at hd
    exact absurd hd (by simp [show digitVal (ascii ' ') = none by decide])

theorem readNat_stops (h : Stops base cs) (acc : ℕ) : readNat base acc cs = (acc, cs) := by
  cases cs with
  | nil => rfl
  | cons c cs =>
    rw [readNat]
    cases hd : digitVal c with
    | none => rfl
    | some d => exact if_neg (Nat.not_lt.mpr (h c rfl d hd))

/-- Digits are read one after the other. -/
theorem readNat_append (hbase : base ≤ 36) (hds : ∀ d ∈ ds, d < base) (hcs : Stops base cs) (acc : ℕ) :
    readNat base acc (numeral upper ds ++ cs) = (ds.foldl (fun a d => a * base + d) acc, cs) := by
  induction ds generalizing acc with
  | nil => exact readNat_stops hcs acc
  | cons d ds ih =>
    have hd : d < base := hds d List.mem_cons_self
    rw [numeral, List.map_cons, List.cons_append, readNat, digitVal_digitChar upper (by omega)]
    exact (if_pos hd).trans (ih (fun e he => hds e (List.mem_cons_of_mem d he)) _)

theorem readNat_numeral (hbase : base ≤ 36) (hds : ∀ d ∈ ds, d < base) (hcs : Stops base cs) :
    (readNat base 0 (numeral upper ds ++ cs)).1 = value base ds := by
  rw [readNat_append hbase hds hcs]
  rfl

/-- The character of a digit is no space and no sign. -/
theorem digitChar_ne (upper : Bool) {d : ℕ} (hd : d < 36) :
    digitChar upper d ≠ ascii ' ' ∧ digitChar upper d ≠ ascii '-' ∧ digitChar upper d ≠ ascii '+' := by
  have hall : ∀ u : Bool, ∀ e ∈ List.range 36,
    digitChar u e ≠ ascii ' ' ∧ digitChar u e ≠ ascii '-' ∧ digitChar u e ≠ ascii '+' := by decide
  exact hall upper d (List.mem_range.mpr hd)

theorem dropWhile_spaces (n : ℕ) (cs : List UInt8) :
    (spaces n ++ cs).dropWhile (· = ascii ' ') = cs.dropWhile (· = ascii ' ') := by
  induction n with
  | zero => rfl
  | succ n ih =>
    rw [spaces, List.replicate_succ, List.cons_append, List.dropWhile_cons, if_pos (by simp)]
    exact ih

/-- A numeral between spaces is read as its value. -/
theorem readInt_numeral (hbase : base ≤ 36) (hds : ∀ d ∈ ds, d < base) (before after : ℕ) :
    readInt base (spaces before ++ (numeral upper ds ++ spaces after)) = value base ds := by
  rw [readInt, dropWhile_spaces]
  cases ds with
  | nil =>
    rw [numeral, List.map_nil, List.nil_append, ← List.append_nil (spaces after), dropWhile_spaces]
    rfl
  | cons d ds =>
    have hd : d < base := hds d List.mem_cons_self
    obtain ⟨hspace, hminus, hplus⟩ := digitChar_ne upper (d := d) (by omega)
    have hread : (readNat base 0 (numeral upper (d :: ds) ++ spaces after)).1 = _ :=
      readNat_numeral hbase hds (stops_spaces base after)
    rw [numeral, List.map_cons, List.cons_append] at hread ⊢
    rw [List.dropWhile_cons, if_neg (by simpa using hspace), readSigned, if_neg hminus, if_neg hplus, hread]

theorem readInt_minus (hbase : base ≤ 36) (hds : ∀ d ∈ ds, d < base) (before after : ℕ) :
    readInt base (spaces before ++ (ascii '-' :: (numeral upper ds ++ spaces after))) = -value base ds := by
  rw [readInt, dropWhile_spaces, List.dropWhile_cons, if_neg (by decide), readSigned, if_pos rfl,
    readNat_numeral hbase hds (stops_spaces base after)]

theorem readInt_plus (hbase : base ≤ 36) (hds : ∀ d ∈ ds, d < base) (before after : ℕ) :
    readInt base (spaces before ++ (ascii '+' :: (numeral upper ds ++ spaces after))) = value base ds := by
  rw [readInt, dropWhile_spaces, List.dropWhile_cons, if_neg (by decide), readSigned, if_neg (by decide),
    if_pos rfl, readNat_numeral hbase hds (stops_spaces base after)]

theorem readHex_prefix {x : UInt8} (hx : x = ascii 'x' ∨ x = ascii 'X') (hds : ∀ d ∈ ds, d < 16)
    (before after : ℕ) :
    readHex (spaces before ++ (ascii '0' :: x :: (numeral upper ds ++ spaces after))) = some (value 16 ds) := by
  rw [readHex, dropWhile_spaces, List.dropWhile_cons, if_neg (by decide)]
  exact (if_pos ⟨rfl, hx⟩).trans (by rw [readNat_numeral (by decide) hds (stops_spaces 16 after)])

/-- Digits alone have no prefix. -/
theorem readHex_numeral (hds : ∀ d ∈ ds, d < 16) : readHex (numeral upper ds) = none := by
  have hx : ∀ u : Bool, ∀ e ∈ List.range 16, ¬ (digitChar u e = ascii 'x' ∨ digitChar u e = ascii 'X') := by
    decide
  match ds, hds with
  | [], _ => rfl
  | [d], hds =>
    have hd : d < 16 := hds d List.mem_cons_self
    rw [readHex, numeral, List.map_singleton, List.dropWhile_cons,
      if_neg (by simpa using (digitChar_ne upper (d := d) (by omega)).1)]
  | d :: e :: ds, hds =>
    have hd : d < 16 := hds d List.mem_cons_self
    have he : e < 16 := hds e (List.mem_cons_of_mem d List.mem_cons_self)
    rw [readHex, numeral, List.map_cons, List.map_cons, List.dropWhile_cons,
      if_neg (by simpa using (digitChar_ne upper (d := d) (by omega)).1)]
    exact if_neg fun h => hx upper e (List.mem_range.mpr he) h.2

end read

end JurasOS.Text
