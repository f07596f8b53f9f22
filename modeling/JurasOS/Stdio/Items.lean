import JurasOS.Stdio.Directive
import Mathlib.Algebra.Order.BigOperators.Group.List

/-!
# What `_vsnprintf` prints

A well-formed format is read item by item, whatever its output function does, as long
as what is still to be read stays as it is: each item is put out in turn, the
arguments are taken in turn, and the run ends at the NUL. The output is that of the
items, and its length is returned.
-/

namespace JurasOS

open Machine Text

/-- An item of a format: a character, or a directive. -/
inductive Item where
  | char (c : {c : UInt8 // c ≠ 0 ∧ c ≠ ascii '%'})
  | directive (d : Directive)

namespace Item

/-- The text of an item. -/
def text : Item → List UInt8
  | .char c => [c.1]
  | .directive d => ascii '%' :: d.text

/-- The arguments that an item takes. -/
def words : Item → List UInt32
  | .char _ => []
  | .directive d => d.words

/-- What an item puts out. -/
def chars (fl : Floats) : Item → List UInt8
  | .char c => [c.1]
  | .directive d => d.chars fl

/-- The strings that an item points to are in memory. -/
def Strings (m : Mem) : Item → Prop
  | .char _ => True
  | .directive d => d.conv.Strings m

/-- The iterations that an item needs. -/
def size : Item → ℕ
  | .char _ => 1
  | .directive d => d.size + 1

end Item

/-- The text of a format. -/
def formatText (items : List Item) : List UInt8 := items.flatMap Item.text

/-- The arguments of a format. -/
def formatWords (items : List Item) : List UInt32 := items.flatMap Item.words

/-- What a format puts out. -/
def formatChars (fl : Floats) (items : List Item) : List UInt8 := items.flatMap (Item.chars fl)

/-- The iterations that a format needs. -/
def formatSize (items : List Item) : ℕ := (items.map Item.size).sum

theorem formatSize_append (items items' : List Item) :
    formatSize (items ++ items') = formatSize items + formatSize items' := by
  rw [formatSize, List.map_append, List.sum_append]
  rfl

/-- A memory holds a format with its NUL, its arguments, and the strings they point to. -/
structure HoldsFormat (m : Mem) (format va : UInt32) (items : List Item) : Prop where
  text : m.Bytes format (formatText items ++ [0])
  words : m.Words va (formatWords items)
  strings : ∀ item ∈ items, item.Strings m

/-- The addresses of the strings that an item points to. -/
def Item.places : Item → Set UInt32
  | .char _ => ∅
  | .directive d => d.conv.places

/-- The addresses that a run reads: of the format, of the arguments, and of the strings. -/
def formatPlaces (format va : UInt32) (items : List Item) : Set UInt32 :=
  span format ((formatText items).length + 1) ∪ span va (4 * (formatWords items).length) ∪
    {a | ∃ item ∈ items, a ∈ item.places}

theorem Item.Strings.congr {m m' : Mem} {item : Item} (h : item.Strings m) (heq : Set.EqOn m' m item.places) :
    item.Strings m' := by
  cases item with
  | char c => trivial
  | directive d =>
    rw [Item.Strings, Conv.Strings.eq_def] at h ⊢
    rw [Item.places, Conv.places.eq_def] at heq
    cases hconv : d.conv <;> rw [hconv] at h heq <;> try trivial
    exact Mem.Bytes.congr h (by rwa [List.length_append])

/-- What is read elsewhere does not matter. -/
theorem HoldsFormat.congr {m m' : Mem} {format va : UInt32} {items : List Item}
    (h : HoldsFormat m format va items) (heq : Set.EqOn m' m (formatPlaces format va items)) :
    HoldsFormat m' format va items where
  text := h.text.congr (by
    rw [List.length_append]
    exact heq.mono fun _ ha => Or.inl (Or.inl ha))
  words := by
    have hwords : Set.EqOn m' m (span va (4 * (formatWords items).length)) :=
      heq.mono fun _ ha => Or.inl (Or.inr ha)
    by_cases hlen : 4 * (formatWords items).length ≤ 2 ^ 32
    · exact h.words.congr hlen hwords
    · rw [Mem.eq_of_eqOn_span (by omega) hwords]
      exact h.words
  strings := fun item hitem => (h.strings item hitem).congr (heq.mono fun _ ha => Or.inr ⟨item, hitem, ha⟩)

section items

variable {fl : Floats} {o : Sink} {p : PrintState} {item : Item} {items : List Item} {fuel : ℕ}

theorem HoldsFormat.cons {m : Mem} {format va : UInt32} (h : HoldsFormat m format va (item :: items)) :
    (m.Bytes format item.text ∧ m.Words va item.words ∧ item.Strings m) ∧
      HoldsFormat m (format + UInt32.ofNat item.text.length) (va + 4 * UInt32.ofNat item.words.length)
        items := by
  obtain ⟨htext, hwords, hstrings⟩ := h
  rw [formatText, List.flatMap_cons, List.append_assoc, Mem.Bytes.append] at htext
  rw [formatWords, List.flatMap_cons, Mem.Words.append] at hwords
  exact ⟨⟨htext.1, hwords.1, hstrings item List.mem_cons_self⟩,
    htext.2, hwords.2, fun i hi => hstrings i (List.mem_cons_of_mem item hi)⟩

/-- An iteration reads an item and puts it out. -/
theorem formatStep_prints (hfuel : item.size < fuel)
    (h : ∀ cs, cs <+: item.chars fl → (o.feed p.idx cs p.kernel).mem.Bytes p.format item.text ∧
      (o.feed p.idx cs p.kernel).mem.Words p.va item.words ∧ item.Strings (o.feed p.idx cs p.kernel).mem) :
    formatStep fl o fuel p =
      .ok (.inl ⟨⟩) ((p.skip item.text.length item.words.length).puts o (item.chars fl)) := by
  have htext : p.kernel.mem.Bytes p.format item.text := (h [] List.nil_prefix).1
  have hadvance : ∀ q : PrintState, advance q = .ok ⟨⟩ (q.skip 1 0) :=
    fun q => congrArg (EStateM.Result.ok PUnit.unit) q.skip_one.symm
  cases item with
  | char c =>
    have hpeek : peek p = .ok c.1 p := congrArg (EStateM.Result.ok · p) htext.1
    rw [formatStep, bind_of_ok hpeek, if_neg c.2.1, if_pos c.2.2, bind_of_ok (modify_apply _ p),
      bind_of_ok (hadvance _)]
    rfl
  | directive d =>
    have hpeek : peek p = .ok (ascii '%') p := congrArg (EStateM.Result.ok · p) htext.1
    have hva : (p.skip 1 0).va = p.va := UInt32.add_zero _
    have hdirective : directive fl o fuel (p.skip 1 0) =
        .ok ⟨⟩ (((p.skip 1 0).skip d.text.length d.words.length).puts o (d.chars fl)) := by
      refine directive_prints fl d (Nat.lt_of_succ_lt hfuel) fun cs hcs => ?_
      obtain ⟨hbytes, hwords, hstrings⟩ := h cs hcs
      exact ⟨hbytes.2, by rw [hva]; exact hwords, hstrings⟩
    rw [formatStep, bind_of_ok hpeek, if_neg (by decide), if_neg (by simp), bind_of_ok (hadvance p),
      bind_of_ok hdirective, PrintState.skip_skip, Nat.zero_add, Nat.add_comm 1]
    rfl

/-- The loop reads the items in turn, and ends at the NUL. -/
theorem formatLoop_prints {n : ℕ} (hn : items.length < n) (hfuel : ∀ item ∈ items, item.size < fuel)
    (h : ∀ cs, cs <+: formatChars fl items → HoldsFormat (o.feed p.idx cs p.kernel).mem p.format p.va items) :
    loopM .running (fun _ => formatStep fl o fuel) n PUnit.unit p =
      .ok ⟨⟩ ((p.skip (formatText items).length (formatWords items).length).puts o (formatChars fl items)) := by
  obtain ⟨n, rfl⟩ : ∃ k, n = k + 1 := ⟨n - 1, by omega⟩
  induction items generalizing p n with
  | nil =>
    have hpeek : peek p = .ok 0 p := congrArg (EStateM.Result.ok · p) (h [] List.nil_prefix).text.1
    have hstep : formatStep fl o fuel p = .ok (.inr ⟨⟩) p := by
      rw [formatStep, bind_of_ok hpeek, if_pos rfl]
      rfl
    refine (bind_of_ok hstep).trans ?_
    show EStateM.Result.ok _ p = .ok _ ((p.skip 0 0).puts o [])
    rw [PrintState.skip_zero, PrintState.puts_nil]
  | cons item items ih =>
    have hchars : formatChars fl (item :: items) = item.chars fl ++ formatChars fl items := List.flatMap_cons
    rw [hchars] at h
    have hstep := formatStep_prints (o := o) (p := p) (hfuel item List.mem_cons_self)
      fun cs hcs => (h cs (hcs.trans (List.prefix_append _ _))).cons.1
    refine (bind_of_ok hstep).trans ?_
    rw [List.length_cons] at hn
    obtain ⟨n, rfl⟩ : ∃ k, n = k + 1 := ⟨n - 1, by omega⟩
    refine (ih (fun i hi => hfuel i (List.mem_cons_of_mem item hi)) (fun cs hcs => ?_) n (by omega)).trans ?_
    · have hrest := (h (item.chars fl ++ cs) ((List.prefix_append_right_inj _).mpr hcs)).cons.2
      rwa [Sink.feed_append] at hrest
    · rw [hchars, PrintState.puts_append]
      show EStateM.Result.ok _ ((((p.skip _ _).skip _ _).puts o _).puts o _) = _
      rw [PrintState.skip_skip, formatText, formatText, formatWords, formatWords, List.flatMap_cons,
        List.flatMap_cons, List.length_append, List.length_append]

end items

/-- **What a format prints**, whatever the output function does with it: the characters of its items,
in order, and their number is returned. -/
theorem vsnprintf_prints (fl : Floats) (items : List Item) {fuel : ℕ} (hfuel : formatSize items < fuel)
    (out : OutFct) (buffer maxlen format va : UInt32) (s : Kernel)
    (h : ∀ cs, cs <+: formatChars fl items →
      HoldsFormat ((sinkOf out buffer maxlen).feed 0 cs s).mem format va items) :
    vsnprintf fl fuel out buffer maxlen format va s =
      .ok (UInt32.ofNat (formatChars fl items).length)
        ((sinkOf out buffer maxlen).terminate (UInt32.ofNat (formatChars fl items).length)
          ((sinkOf out buffer maxlen).feed 0 (formatChars fl items) s)) := by
  have hsize : ∀ item ∈ items, 1 ≤ item.size ∧ item.size ≤ formatSize items := by
    intro item hitem
    refine ⟨?_, List.le_sum_of_mem (List.mem_map_of_mem hitem)⟩
    cases item with
    | char c => exact Nat.le_refl 1
    | directive d => exact Nat.le_add_left 1 _
  have hlength : items.length ≤ formatSize items := by
    have := List.length_le_sum_of_one_le (items.map Item.size) fun k hk => by
      obtain ⟨item, hitem, rfl⟩ := List.mem_map.mp hk
      exact (hsize item hitem).1
    rwa [List.length_map] at this
  have hloop : loopM .running (fun _ => formatStep fl (sinkOf out buffer maxlen) fuel) fuel PUnit.unit
      ⟨s, format, va, 0⟩ = _ :=
    formatLoop_prints (by omega) (fun item hitem => by have := (hsize item hitem).2; omega) h
  rw [vsnprintf]
  simp only [hloop, PrintState.puts_idx, PrintState.puts_kernel, PrintState.skip_idx, PrintState.skip_kernel,
    UInt32.zero_add]

/-! ### Directives that only convert -/

theorem d_mem_intLetters : ascii 'd' ∈ bytes "diuxXob" := by decide

theorem hex_mem_intLetters : ascii 'X' ∈ bytes "diuxXob" := by decide

theorem Field.head_star {arg : UInt32} {ds : List (Fin 10)} (h : Field.star arg = .digits ds) :
    ds.head? ≠ some 0 :=
  nomatch h

/-- A directive without flags, width, precision and length. -/
def plain (conv : Conv) : Item := .directive ⟨[], .digits [], fun _ h => by cases h; simp, none, .none, conv⟩

/-- `%d` -/
def dec (w : UInt32) : Item := plain (.int ⟨ascii 'd', d_mem_intLetters⟩ w)

/-- `%X` -/
def hex (w : UInt32) : Item := plain (.int ⟨ascii 'X', hex_mem_intLetters⟩ w)

/-! ### A format in memory -/

theorem okText : 0 ∉ bytes "ok" ∧ (bytes "ok").length < 2 ^ 32 := by decide

theorem okBar : ascii '|' ≠ 0 ∧ ascii '|' ≠ ascii '%' := by decide

/-- `%*d|%s`, with 5, 42 and the string `ok`, which lies at `0x3000`. -/
def answerItems : List Item := [
  .directive ⟨[], .star 5, fun _ => Field.head_star, none, .none, .int ⟨ascii 'd', d_mem_intLetters⟩ 42⟩,
  .char ⟨ascii '|', okBar⟩,
  plain (.str 0x3000 ⟨bytes "ok", okText.1, okText.2⟩)]

/-- A conversion of floating point numbers for the formats that have none. -/
def noFloats : Floats := ⟨fun _ _ _ _ => [], fun _ _ _ _ => []⟩

theorem answer_chars : formatChars noFloats answerItems = bytes "   42|ok" := by decide

/-- A kernel with a format at `0x1000` and its arguments at `0x2000`. -/
def formatKernel (m : Mem) (items : List Item) : Kernel :=
  { Kernel.loaded with
    mem := (m.storeBytes 0x1000 (formatText items ++ [0])).storeWords 0x2000 (formatWords items) }

/-- The kernel of this format. -/
def answerKernel : Kernel := formatKernel (Kernel.loaded.mem.storeBytes 0x3000 (bytes "ok" ++ [0])) answerItems

theorem holds_answer : HoldsFormat answerKernel.mem 0x1000 0x2000 answerItems where
  text := ⟨rfl, rfl, rfl, rfl, rfl, rfl, rfl, trivial⟩
  words := ⟨rfl, rfl, rfl, trivial⟩
  strings := by
    rintro item (_ | ⟨_, _ | ⟨_, _ | ⟨_, ⟨⟩⟩⟩⟩)
    · trivial
    · trivial
    · exact ⟨rfl, rfl, rfl, trivial⟩

/-- All that is read lies between `0x1000` and `0x3003`. -/
theorem answer_places : formatPlaces 0x1000 0x2000 answerItems ⊆ span 0x1000 0x2003 := by
  rintro a ((ha | ha) | ⟨item, hitem, ha⟩)
  · exact span_mono (by decide) ha
  · exact span_offset_subset (a := 0x1000) (i := 0x1000) (by decide) ha
  · rcases hitem with (_ | ⟨_, _ | ⟨_, _ | ⟨_, ⟨⟩⟩⟩⟩)
    · exact ha.elim
    · exact ha.elim
    · exact span_offset_subset (a := 0x1000) (i := 0x2000) (by decide) ha

/-! ### Characters without directives -/

/-- The items of a text without directives. -/
def literal (cs : List UInt8) : List Item :=
  cs.filterMap fun c => if h : c ≠ 0 ∧ c ≠ ascii '%' then some (.char ⟨c, h⟩) else none

section literal

variable {cs : List UInt8} {item : Item}

theorem exists_of_mem_literal (h : item ∈ literal cs) : ∃ c, item = .char c := by
  obtain ⟨c, -, hc⟩ := List.mem_filterMap.mp h
  split at hc
  · exact ⟨_, (Option.some.inj hc).symm⟩
  · cases hc

theorem formatText_literal (hcs : ascii '%' ∉ cs) : formatText (literal cs) = cs.filter (· ≠ 0) := by
  induction cs with
  | nil => rfl
  | cons c cs ih =>
    obtain ⟨hc, hcs⟩ := List.ne_and_not_mem_of_not_mem_cons hcs
    rw [literal, List.filterMap_cons, List.filter_cons, ← ih hcs]
    by_cases hzero : c = 0
    · rw [dif_neg fun h => h.1 hzero, if_neg (by simpa using hzero)]
      rfl
    · rw [dif_pos ⟨hzero, hc.symm⟩, if_pos (by simpa using hzero)]
      rfl

theorem formatChars_literal (fl : Floats) (hcs : ascii '%' ∉ cs) :
    formatChars fl (literal cs) = cs.filter (· ≠ 0) := by
  rw [← formatText_literal hcs, formatChars, formatText, List.flatMap_def, List.flatMap_def]
  refine congrArg List.flatten (List.map_congr_left fun item hitem => ?_)
  obtain ⟨c, rfl⟩ := exists_of_mem_literal hitem
  rfl

theorem formatWords_literal (cs : List UInt8) : formatWords (literal cs) = [] :=
  List.flatMap_eq_nil_iff.mpr fun item hitem => by
    obtain ⟨c, rfl⟩ := exists_of_mem_literal hitem
    rfl

theorem formatSize_literal_le (cs : List UInt8) : formatSize (literal cs) ≤ cs.length := by
  induction cs with
  | nil => exact Nat.le_refl 0
  | cons c cs ih =>
    rw [literal, List.filterMap_cons, List.length_cons]
    split
    · exact Nat.le_succ_of_le ih
    · next item h =>
      have hsize : item.size = 1 := by
        split at h
        · rw [← Option.some.inj h]
          rfl
        · cases h
      rw [formatSize, List.map_cons, List.sum_cons, hsize, Nat.add_comm]
      exact Nat.succ_le_succ ih

/-- The items of a format in which directives follow texts. -/
def parts (ps : List (List UInt8 × Item)) : List Item := ps.flatMap fun p => literal p.1 ++ [p.2]

/-- Texts that neither end the format nor begin a directive. -/
def PlainTexts (ps : List (List UInt8 × Item)) : Prop := ∀ p ∈ ps, ascii '%' ∉ p.1 ∧ 0 ∉ p.1

section parts

variable {ps : List (List UInt8 × Item)}

theorem filter_of_notMem_zero (h : 0 ∉ cs) : cs.filter (· ≠ 0) = cs :=
  List.filter_eq_self.mpr fun c hc => by
    rw [decide_eq_true_eq]
    rintro rfl
    exact h hc

theorem formatText_parts (h : PlainTexts ps) : formatText (parts ps) = ps.flatMap fun p => p.1 ++ p.2.text := by
  rw [formatText, parts, List.flatMap_assoc]
  refine List.flatMap_congr fun p hp => ?_
  have htext := formatText_literal (h p hp).1
  rw [filter_of_notMem_zero (h p hp).2, formatText] at htext
  rw [List.flatMap_append, htext, List.flatMap_singleton]

theorem formatChars_parts (fl : Floats) (h : PlainTexts ps) :
    formatChars fl (parts ps) = ps.flatMap fun p => p.1 ++ p.2.chars fl := by
  rw [formatChars, parts, List.flatMap_assoc]
  refine List.flatMap_congr fun p hp => ?_
  have hchars := formatChars_literal fl (h p hp).1
  rw [filter_of_notMem_zero (h p hp).2, formatChars] at hchars
  rw [List.flatMap_append, hchars, List.flatMap_singleton]

theorem formatWords_parts (ps : List (List UInt8 × Item)) :
    formatWords (parts ps) = ps.flatMap fun p => p.2.words := by
  rw [formatWords, parts, List.flatMap_assoc]
  refine List.flatMap_congr fun p _ => ?_
  have hwords := formatWords_literal p.1
  rw [formatWords] at hwords
  rw [List.flatMap_append, hwords, List.flatMap_singleton, List.nil_append]

theorem formatSize_parts_le (ps : List (List UInt8 × Item)) :
    formatSize (parts ps) ≤ (ps.map fun p => p.1.length + p.2.size).sum := by
  induction ps with
  | nil => exact Nat.le_refl 0
  | cons p ps ih =>
    have hparts : parts (p :: ps) = literal p.1 ++ ([p.2] ++ parts ps) := by
      rw [parts, List.flatMap_cons, List.append_assoc]
      rfl
    have hsingle : formatSize [p.2] = p.2.size := Nat.add_zero _
    rw [hparts, formatSize_append, formatSize_append, hsingle, List.map_cons, List.sum_cons]
    have hliteral := formatSize_literal_le p.1
    omega

theorem exists_of_mem_parts {ps : List (List UInt8 × Item)} (h : item ∈ parts ps) :
    (∃ c, item = .char c) ∨ ∃ p ∈ ps, item = p.2 := by
  obtain ⟨p, hp, hitem⟩ := List.mem_flatMap.mp h
  rcases List.mem_append.mp hitem with hitem | hitem
  · exact Or.inl (exists_of_mem_literal hitem)
  · exact Or.inr ⟨p, hp, List.mem_singleton.mp hitem⟩

end parts

end literal

end JurasOS
