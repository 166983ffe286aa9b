-- What VAL reads. Without the blanks at its ends a text stands for an INTEGER if all of it is a
-- whole number of 64 bits, else for the longest number at its start, and for zero if it starts
-- with none. So every INTEGER that STR$ prints comes back exactly, whatever blanks are around
-- it, and a text that starts like no number is zero, unless it starts with a word that the
-- grammar of numbers knows.
import LineBasic.Proofs.Functions
import LineBasic.Proofs.Numerals
import LineBasic.Proofs.Reading
import LineBasic.Proofs.Rounding

namespace LineBasic

open Decimal

variable {cs w word : List Char} {n : Numeral} {v : Value} {s : String}

/-! ## The value of a text -/

/-- The value of a number that was read. Without a point and below the limit it is an INTEGER. -/
def Decimal.Numeral.value (n : Numeral) : Value :=
  let x := n.toReal
  if Real.isWhole x && x.abs < Excerpt.integerLimit && !n.isPointed then
    .integer (Real.toInteger x)
  else .real x

/-- What a text without blanks at its ends reads as. -/
inductive ReadsAs (cs : List Char) : Value → Prop where
  | integer {k : Int64} (h : SpellsInt cs k.toInt) : ReadsAs cs (.integer k)
  | number {w : List Char} {n : Numeral} (hlarge : ∀ k : Int64, ¬ SpellsInt cs k.toInt)
      (h : LongestNumber cs w n) : ReadsAs cs n.value
  | nothing (h : ∀ w n, w <+: cs → ¬ Spells w n) : ReadsAs cs (.integer 0)

/-- The value of the number that the scanner reads, or zero. -/
def scanned (cs : List Char) : Value :=
  match scan? cs with
  | none => .integer 0
  | some (n, _) => n.value

theorem val_eq (s : String) : Excerpt.val s =
    match readInt? (Text.trimmed s.toList) with
    | some k =>
      if Real.fits k then .integer (Int64.ofInt k) else scanned (Text.trimmed s.toList)
    | none => scanned (Text.trimmed s.toList) := rfl

theorem readsAs_scanned (hlarge : ∀ k : Int64, ¬ SpellsInt cs k.toInt) :
    ReadsAs cs (scanned cs) := by
  unfold scanned
  split
  · rename_i hscan
    exact .nothing (scan?_eq_none.1 hscan)
  · rename_i hscan
    obtain ⟨w, hlongest, -⟩ := scan?_eq_some.1 hscan
    exact .number hlarge hlongest

theorem toInt_ofInt_of_fits {k : Int} (h : Real.fits k = true) : (Int64.ofInt k).toInt = k := by
  simp only [Real.fits, Bool.and_eq_true, decide_eq_true_eq] at h
  refine Int64.toInt_ofInt_of_le ?_ ?_
  · exact h.1
  · exact Int.lt_of_le_of_lt h.2 (by decide)

theorem fits_toInt (k : Int64) : Real.fits k.toInt = true := by
  obtain ⟨hlow, hhigh⟩ := Integer.toInt_bounds k
  simp [Real.fits, hlow, hhigh]

/-- VAL reads a text as the grammar of numbers says. -/
theorem val_readsAs (s : String) : ReadsAs (Text.trimmed s.toList) (Excerpt.val s) := by
  rw [val_eq]
  generalize Text.trimmed s.toList = cs
  cases hread : readInt? cs with
  | none =>
    refine readsAs_scanned fun k hk => ?_
    cases hread.symm.trans (readInt?_eq_some.2 hk)
  | some k =>
    dsimp only
    split
    · rename_i hfits
      have hspells := readInt?_eq_some.1 hread
      rw [← toInt_ofInt_of_fits hfits] at hspells
      exact .integer hspells
    · rename_i hfits
      refine readsAs_scanned fun m hm => ?_
      cases hread.symm.trans (readInt?_eq_some.2 hm)
      exact hfits (fits_toInt m)

theorem returns_val (s : String) : Returns "VAL" [.string s] (Excerpt.val s) :=
  returns_of_compute (b := .val) (fun _ _ => rfl) fun _ => rfl

/-! ## Printed INTEGERs -/

theorem ofDigits_toDigits (k : Nat) : ofDigits (Nat.toDigits 10 k) = k :=
  Nat.ofDigitChars_eq_foldl.symm.trans Nat.ofDigitChars_ten_toDigits

theorem allDigits_toDigits (k : Nat) : AllDigits (Nat.toDigits 10 k) :=
  fun _ hc => Nat.isDigit_of_mem_toDigits (by decide) (by decide) hc

/-- An INTEGER is printed as the grammar of whole numbers spells it. -/
theorem spellsInt_toString (k : Int) : SpellsInt (toString k).toList k := by
  cases k with
  | ofNat m =>
    have hprint : (toString (Int.ofNat m)).toList = [] ++ Nat.toDigits 10 m := Nat.toList_repr
    have hspells := SpellsInt.intro .none (allDigits_toDigits m) Nat.toDigits_ne_nil
    rw [ofDigits_toDigits] at hspells
    rw [hprint]
    exact hspells
  | negSucc m =>
    have hprint : (toString (Int.negSucc m)).toList = ['-'] ++ Nat.toDigits 10 (m + 1) := by
      change ("-" ++ (m + 1).repr).toList = _
      rw [String.toList_append, Nat.toList_repr]
      rfl
    have hspells := SpellsInt.intro .minus (allDigits_toDigits (m + 1)) Nat.toDigits_ne_nil
    rw [ofDigits_toDigits] at hspells
    rw [hprint]
    exact hspells

/-! ## Blanks -/

theorem isBlank_of_digit {c : Char} (h : c.isDigit = true) : Text.isBlank c = false := by
  have hrange : 48 ≤ c.toNat ∧ c.toNat ≤ 57 := by
    unfold Char.isDigit at h
    simp only [Bool.and_eq_true, decide_eq_true_eq, ge_iff_le, UInt32.le_iff_toNat_le] at h
    exact h
  unfold Text.isBlank
  simp
  omega

theorem Decimal.SpellsInt.ne_nil {k : Int} (h : SpellsInt cs k) : cs ≠ [] := by
  cases h with
  | intro hsign hds hsome => exact fun hempty => hsome (List.append_eq_nil_iff.1 hempty).2

/-- A number has no blanks. -/
theorem Decimal.SpellsInt.not_blank {k : Int} (h : SpellsInt cs k) :
    ∀ c ∈ cs, Text.isBlank c = false := by
  cases h with
  | intro hsign hds hsome =>
    intro c hc
    rcases List.mem_append.1 hc with hc | hc
    · cases hsign with
      | none => cases hc
      | plus | minus =>
        cases List.mem_singleton.1 hc
        decide
    · exact isBlank_of_digit (hds c hc)

theorem dropWhile_isBlank {blanks : List Char} (hblanks : ∀ c ∈ blanks, Text.isBlank c = true)
    (hcs : ∀ c ∈ cs, Text.isBlank c = false) (hsome : cs ≠ []) (tail : List Char) :
    (blanks ++ (cs ++ tail)).dropWhile Text.isBlank = cs ++ tail := by
  obtain ⟨c, rest, rfl⟩ := List.exists_cons_of_ne_nil hsome
  have hc : ¬ Text.isBlank c = true := by
    rw [hcs c List.mem_cons_self]
    decide
  rw [List.dropWhile_append_of_pos hblanks]
  exact List.dropWhile_cons_of_neg hc

/-- The blanks around a text without blanks fall off. -/
theorem Text.trimmed_append {before after : List Char}
    (hbefore : ∀ c ∈ before, isBlank c = true) (hafter : ∀ c ∈ after, isBlank c = true)
    (hcs : ∀ c ∈ cs, isBlank c = false) (hsome : cs ≠ []) :
    trimmed (before ++ cs ++ after) = cs := by
  have hback : (after.reverse ++ (cs.reverse ++ [])).dropWhile isBlank = cs.reverse ++ [] := by
    refine dropWhile_isBlank ?_ ?_ ?_ []
    · exact fun c hc => hafter c (List.mem_reverse.1 hc)
    · exact fun c hc => hcs c (List.mem_reverse.1 hc)
    · simpa using hsome
  unfold trimmed
  rw [List.append_assoc, dropWhile_isBlank hbefore hcs hsome, List.reverse_append]
  rw [List.append_nil] at hback
  rw [hback, List.reverse_reverse]

/-- A text of a whole number that an INTEGER holds, with blanks around it, is that INTEGER. -/
theorem val_of_spellsInt {k : Int64} {before after : List Char}
    (hs : s.toList = before ++ cs ++ after) (h : SpellsInt cs k.toInt)
    (hbefore : ∀ c ∈ before, Text.isBlank c = true) (hafter : ∀ c ∈ after, Text.isBlank c = true) :
    Excerpt.val s = .integer k := by
  rw [val_eq, hs, Text.trimmed_append hbefore hafter h.not_blank h.ne_nil, readInt?_eq_some.2 h]
  dsimp only
  rw [if_pos (fits_toInt k)]
  exact congrArg _ (Int64.ofInt_toInt k)

/-- VAL of what STR$ prints for an INTEGER, between two texts. -/
def reread (before after : String) (k : Int64) : Expression :=
  let printed := Expression.call (Name.ofString "STR$") [.integer k]
  .call (Name.ofString "VAL") [.binary .add (.binary .add (.string before) printed) (.string after)]

/-- Every INTEGER is read back from its print, whatever blanks stand before and after it. -/
theorem a_printed_integer_is_read_back (k : Int64) (before after : String)
    (hbefore : ∀ c ∈ before.toList, Text.isBlank c = true)
    (hafter : ∀ c ∈ after.toList, Text.isBlank c = true) (view : View) (t : Trail) :
    evaluate (reread before after k) view t = .ok (.integer k) t := by
  let text := before ++ toString k.toInt ++ after
  have htext : text.toList = before.toList ++ (toString k.toInt).toList ++ after.toList := by
    rw [String.toList_append, String.toList_append]
  have hargs : evaluateAll [.binary .add (.binary .add (.string before)
      (.call (Name.ofString "STR$") [.integer k])) (.string after)] view t =
        .ok [.string text] t := rfl
  have hval := val_of_spellsInt htext (spellsInt_toString k.toInt) hbefore hafter
  have hcall := returns_val text view t
  rw [hval] at hcall
  exact (bind_of_ok hargs).trans hcall

/-- The least INTEGER, which no REAL could tell from its neighbour, between blanks of two kinds. -/
theorem the_least_integer_is_read_back :
    (∀ c ∈ "\t ".toList, Text.isBlank c = true) ∧ (∀ c ∈ "\u3000\n".toList, Text.isBlank c = true) ∧
      ∀ view t, evaluate (reread "\t " "\u3000\n" Int64.minValue) view t =
        .ok (.integer Int64.minValue) t := by
  have hbefore : ∀ c ∈ "\t ".toList, Text.isBlank c = true := List.all_eq_true.1 (by decide)
  have hafter : ∀ c ∈ "\u3000\n".toList, Text.isBlank c = true := List.all_eq_true.1 (by decide)
  exact ⟨hbefore, hafter, a_printed_integer_is_read_back Int64.minValue _ _ hbefore hafter⟩

/-! ## Texts that start with no number -/

/-- A text without the blanks at its ends and without one sign. -/
def Text.body (s : String) : List Char := (takeSign (Text.trimmed s.toList)).2

/-- The sign before the body is a minus. -/
def Text.isNegative (s : String) : Bool := (takeSign (Text.trimmed s.toList)).1

/-- The characters start with a word, whatever its case. -/
def Begins (word cs : List Char) : Prop := ∃ w, w <+: cs ∧ IsWord word w

theorem begins_iff : Begins word cs ↔ (afterWord? word cs).isSome = true := by
  rw [Option.isSome_iff_exists]
  constructor
  · rintro ⟨w, ⟨rest, rfl⟩, hw⟩
    exact ⟨rest, afterWord?_eq_some.2 ⟨w, hw, rfl⟩⟩
  · rintro ⟨rest, h⟩
    obtain ⟨w, hw, rfl⟩ := afterWord?_eq_some.1 h
    exact ⟨w, List.prefix_append _ _, hw⟩

instance (word cs : List Char) : Decidable (Begins word cs) := decidable_of_iff _ begins_iff.symm

/-- The characters start neither with a digit nor with a point. -/
def StartsNoNumber (cs : List Char) : Prop :=
  ∀ c, cs.head? = some c → c.isDigit = false ∧ c ≠ '.'

theorem not_spellsInt_of_startsNoNumber (h : StartsNoNumber (takeSign cs).2) (k : Int) :
    ¬ SpellsInt cs k := by
  rintro ⟨hsign, hds, hsome⟩
  obtain ⟨d, rest, rfl⟩ := List.exists_cons_of_ne_nil hsome
  have hdigit := hds d List.mem_cons_self
  rw [takeSign_exact hsign (noSignNext_of_digit hdigit rest)] at h
  cases hdigit.symm.trans (h d rfl).1

/-- What such characters can spell is a word: `inf`, `infinity` or `nan`. -/
theorem word_of_spells (h : StartsNoNumber (takeSign cs).2) (hw : w <+: cs) (hspells : Spells w n) :
    (Begins ['i', 'n', 'f'] (takeSign cs).2 ∧ n = .infinite (takeSign cs).1) ∨
      (Begins ['n', 'a', 'n'] (takeSign cs).2 ∧ n = .nan) := by
  obtain ⟨tail, rfl⟩ := hw
  cases hspells with
  | @intro negative sign u n hsign hu =>
    rw [List.append_assoc, takeSign_exact hsign (hu.noSignNext tail)] at h ⊢
    cases hu with
    | inf hw => exact Or.inl ⟨⟨u, List.prefix_append _ _, hw⟩, rfl⟩
    | infinity hw =>
      have hthree : u.take 3 <+: u ++ tail := (List.take_prefix 3 u).trans (List.prefix_append _ _)
      refine Or.inl ⟨⟨u.take 3, hthree, ?_⟩, rfl⟩
      unfold IsWord at hw ⊢
      rw [List.map_take, hw]
      rfl
    | nan hw => exact Or.inr ⟨⟨u, List.prefix_append _ _, hw⟩, rfl⟩
    | number hm hx =>
      obtain ⟨c, rest, rfl, hc⟩ := hm.head
      obtain ⟨hdigit, hpoint⟩ := h c rfl
      rcases hc with hc | hc
      · cases hdigit.symm.trans hc
      · exact absurd hc hpoint

/-- No text starts with both words. -/
theorem not_begins_both (hinf : Begins ['i', 'n', 'f'] cs) (hnan : Begins ['n', 'a', 'n'] cs) :
    False := by
  obtain ⟨v, ⟨_, rfl⟩, hv⟩ := hinf
  obtain ⟨w, ⟨_, hsplit⟩, hw⟩ := hnan
  cases v with
  | nil => cases hv
  | cons c v =>
    cases w with
    | nil => cases hw
    | cons d w =>
      cases (List.cons.inj hsplit).1
      cases (List.cons.inj hv).1.symm.trans (List.cons.inj hw).1

/-- Where the body starts with a word, the text starts with what the grammar spells by it. -/
theorem exists_spells_of_begins (hword : Begins word (takeSign cs).2)
    (hspells : ∀ w, IsWord word w → Unsigned (takeSign cs).1 w n) :
    ∃ w, w <+: cs ∧ Spells w n := by
  obtain ⟨w, ⟨tail, htail⟩, hw⟩ := hword
  obtain ⟨sign, hsign, hsplit⟩ := takeSign_sound cs
  refine ⟨sign ++ w, ⟨tail, ?_⟩, .intro hsign (hspells w hw)⟩
  rw [List.append_assoc, htail]
  exact hsplit.symm

theorem value_infinite (negative : Bool) : (Numeral.infinite negative).value =
    .real (if negative then -Real.infinity else Real.infinity) := by
  have hplus : Real.isWhole Real.infinity = false := by decide +kernel
  have hminus : Real.isWhole (-Real.infinity) = false := by decide +kernel
  cases negative with
  | false => simp [Numeral.value, Numeral.toReal, hplus]
  | true => simp [Numeral.value, Numeral.toReal, hminus]

theorem value_nan : Numeral.nan.value = .real Real.nan := by
  have hnan : Real.isWhole Real.nan = false := by decide +kernel
  simp [Numeral.value, Numeral.toReal, hnan]

/-- What such characters read as is told by the word that they start with, if any. -/
theorem readsAs_of_startsNoNumber (h : StartsNoNumber (takeSign cs).2) (hv : ReadsAs cs v) :
    (Begins ['i', 'n', 'f'] (takeSign cs).2 ∧
        v = .real (if (takeSign cs).1 then -Real.infinity else Real.infinity)) ∨
      (Begins ['n', 'a', 'n'] (takeSign cs).2 ∧ v = .real Real.nan) ∨
      (¬ Begins ['i', 'n', 'f'] (takeSign cs).2 ∧ ¬ Begins ['n', 'a', 'n'] (takeSign cs).2 ∧
        v = .integer 0) := by
  cases hv with
  | integer hspells => exact absurd hspells (not_spellsInt_of_startsNoNumber h _)
  | number _ hlongest =>
    rcases word_of_spells h hlongest.begins hlongest.spells with ⟨hword, rfl⟩ | ⟨hword, rfl⟩
    · exact Or.inl ⟨hword, value_infinite _⟩
    · exact Or.inr (Or.inl ⟨hword, value_nan⟩)
  | nothing hnone =>
    refine Or.inr (Or.inr ⟨fun hword => ?_, fun hword => ?_, rfl⟩)
    · obtain ⟨w, hw, hspells⟩ := exists_spells_of_begins hword fun _ => .inf
      exact hnone w _ hw hspells
    · obtain ⟨w, hw, hspells⟩ := exists_spells_of_begins hword fun _ => .nan
      exact hnone w _ hw hspells

/-- A text whose body starts neither with a digit nor with a point is zero, unless the body
starts with `inf` or `nan`, whatever their case: then it is the REAL that the word stands for.
This is so because VAL reads every text as the grammar of numbers says. -/
theorem a_text_without_a_number_is_zero (s : String) (h : StartsNoNumber (Text.body s)) :
    (∀ v, Returns "VAL" [.string s] v → ReadsAs (Text.trimmed s.toList) v) ∧
    (Returns "VAL" [.string s] (.integer 0) ↔
      ¬ Begins ['i', 'n', 'f'] (Text.body s) ∧ ¬ Begins ['n', 'a', 'n'] (Text.body s)) ∧
    (Begins ['i', 'n', 'f'] (Text.body s) → Returns "VAL" [.string s]
      (.real (if Text.isNegative s then -Real.infinity else Real.infinity))) ∧
    (Begins ['n', 'a', 'n'] (Text.body s) → Returns "VAL" [.string s] (.real Real.nan)) := by
  have hreturns := returns_val s
  have hreads := val_readsAs s
  have hcases : (Begins ['i', 'n', 'f'] (Text.body s) ∧
        Excerpt.val s = .real (if Text.isNegative s then -Real.infinity else Real.infinity)) ∨
      (Begins ['n', 'a', 'n'] (Text.body s) ∧ Excerpt.val s = .real Real.nan) ∨
      (¬ Begins ['i', 'n', 'f'] (Text.body s) ∧ ¬ Begins ['n', 'a', 'n'] (Text.body s) ∧
        Excerpt.val s = .integer 0) := readsAs_of_startsNoNumber h hreads
  refine ⟨fun v hv => hreturns.unique hv ▸ hreads, ?_⟩
  rcases hcases with ⟨hinf, hv⟩ | ⟨hnan, hv⟩ | ⟨hinf, hnan, hv⟩
  · rw [hv] at hreturns
    refine ⟨⟨fun hzero => ?_, fun hnone => absurd hinf hnone.1⟩, fun _ => hreturns, fun hnan => ?_⟩
    · cases hreturns.unique hzero
    · exact (not_begins_both hinf hnan).elim
  · rw [hv] at hreturns
    refine ⟨⟨fun hzero => ?_, fun hnone => absurd hnan hnone.2⟩, fun hinf => ?_, fun _ => hreturns⟩
    · cases hreturns.unique hzero
    · exact (not_begins_both hinf hnan).elim
  · rw [hv] at hreturns
    exact ⟨⟨fun _ => ⟨hinf, hnan⟩, fun _ => hreturns⟩, fun h => absurd h hinf,
      fun h => absurd h hnan⟩

/-- An exponent without digits before it is no number, and a word after a sign is one. -/
theorem a_bare_exponent_is_zero :
    StartsNoNumber (Text.body " +e5 ") ∧ Returns "VAL" [.string " +e5 "] (.integer 0) ∧
      StartsNoNumber (Text.body "-Nancy") ∧ Returns "VAL" [.string "-Nancy"] (.real Real.nan) := by
  have hzero : StartsNoNumber (Text.body " +e5 ") := by
    intro c hc
    cases hc
    decide
  have hnan : StartsNoNumber (Text.body "-Nancy") := by
    intro c hc
    cases hc
    decide
  obtain ⟨-, hiff, -⟩ := a_text_without_a_number_is_zero " +e5 " hzero
  obtain ⟨-, -, -, hword⟩ := a_text_without_a_number_is_zero "-Nancy" hnan
  exact ⟨hzero, hiff.2 (by decide), hnan, hword (by decide)⟩

/-- A word that only starts like the name of a number is read as that number, and not as zero. -/
theorem a_word_is_taken_for_a_number :
    StartsNoNumber (Text.body "information") ∧
      Returns "VAL" [.string "information"] (.real Real.infinity) ∧
      ¬ Returns "VAL" [.string "information"] (.integer 0) := by
  have hval : Excerpt.val "information" = .real Real.infinity := by
    have hread : scan? (Text.trimmed "information".toList) =
        some (.infinite false, "ormation".toList) := by decide
    rw [val_eq]
    change scanned _ = _
    unfold scanned
    rw [hread]
    exact value_infinite false
  have hreturns := returns_val "information"
  rw [hval] at hreturns
  refine ⟨fun c hc => ?_, hreturns, fun hzero => ?_⟩
  · cases hc
    decide
  · cases hreturns.unique hzero

end LineBasic
