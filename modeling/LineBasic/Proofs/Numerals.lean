-- How numbers are spelled. The grammar is that of the numbers that a REAL is read from: digits
-- with an optional sign, point and exponent, or a word for what is not finite. The scanner takes
-- the longest start of a text that the grammar spells, and reads the number that it spells.
import Mathlib.Data.List.TakeWhile
import LineBasic.Decimal.Numeral

namespace LineBasic.Decimal

/-! ## The grammar -/

/-- An optional sign; true for a minus. -/
inductive Sign : Bool → List Char → Prop where
  | none : Sign false []
  | plus : Sign false ['+']
  | minus : Sign true ['-']

def AllDigits (ds : List Char) : Prop := ∀ c ∈ ds, c.isDigit = true

/-- A number that is negated if there is a minus. -/
def signed (negative : Bool) (n : Nat) : Int := if negative then -(n : Int) else n

/-- A whole number with an optional sign. -/
inductive SpellsInt : List Char → Int → Prop where
  | intro {negative : Bool} {sign ds : List Char} (hsign : Sign negative sign)
      (hds : AllDigits ds) (hsome : ds ≠ []) :
      SpellsInt (sign ++ ds) (signed negative (ofDigits ds))

/-- An optional exponent. -/
inductive Exponent : List Char → Int → Prop where
  | none : Exponent [] 0
  | some {e : Char} {cs : List Char} {n : Int} (he : e = 'e' ∨ e = 'E') (h : SpellsInt cs n) :
      Exponent (e :: cs) n

/-- Digits with an optional point: those before it, those after it, and whether it is there. -/
inductive Mantissa : List Char → List Char → List Char → Bool → Prop where
  | whole {ds : List Char} (hds : AllDigits ds) (hsome : ds ≠ []) : Mantissa ds ds [] false
  | pointed {ds fs : List Char} (hds : AllDigits ds) (hfs : AllDigits fs)
      (hsome : ds ≠ [] ∨ fs ≠ []) : Mantissa (ds ++ '.' :: fs) ds fs true

/-- A word, whatever its case. -/
def IsWord (word cs : List Char) : Prop := cs.map Char.toLower = word

/-- A number without its sign. -/
inductive Unsigned (negative : Bool) : List Char → Numeral → Prop where
  | inf {w : List Char} (h : IsWord ['i', 'n', 'f'] w) : Unsigned negative w (.infinite negative)
  | infinity {w : List Char} (h : IsWord ['i', 'n', 'f', 'i', 'n', 'i', 't', 'y'] w) :
      Unsigned negative w (.infinite negative)
  | nan {w : List Char} (h : IsWord ['n', 'a', 'n'] w) : Unsigned negative w .nan
  | number {m x ds fs : List Char} {pointed : Bool} {e : Int} (hm : Mantissa m ds fs pointed)
      (hx : Exponent x e) :
      Unsigned negative (m ++ x) (.finite negative (ofDigits (ds ++ fs)) (e - fs.length) pointed)

/-- A number as it is written. -/
inductive Spells : List Char → Numeral → Prop where
  | intro {negative : Bool} {sign u : List Char} {n : Numeral} (hsign : Sign negative sign)
      (hu : Unsigned negative u n) : Spells (sign ++ u) n

variable {cs ds fs m u w x rest tail sign word : List Char} {negative pointed : Bool} {c : Char}
  {e : Int} {n : Numeral}

/-! ## Digits -/

/-- What follows does not go on with a digit. -/
def NoDigitNext (tail : List Char) : Prop := ∀ c, tail.head? = some c → c.isDigit = false

theorem takeDigits_append (hds : AllDigits ds) (tail : List Char) :
    takeDigits (ds ++ tail) = (ds ++ (takeDigits tail).1, (takeDigits tail).2) := by
  unfold takeDigits
  rw [List.takeWhile_append_of_pos hds, List.dropWhile_append_of_pos hds]

theorem takeDigits_of_noDigitNext (h : NoDigitNext tail) : takeDigits tail = ([], tail) := by
  cases tail with
  | nil => rfl
  | cons c tail =>
    have hc := h c rfl
    simp [takeDigits, hc]

/-- The digits before something else are taken and no more. -/
theorem takeDigits_exact (hds : AllDigits ds) (h : NoDigitNext tail) :
    takeDigits (ds ++ tail) = (ds, tail) := by
  rw [takeDigits_append hds, takeDigits_of_noDigitNext h, List.append_nil]

theorem allDigits_takeDigits (cs : List Char) : AllDigits (takeDigits cs).1 :=
  fun _ hc => List.mem_takeWhile_imp hc

theorem takeDigits_split (cs : List Char) : (takeDigits cs).1 ++ (takeDigits cs).2 = cs :=
  List.takeWhile_append_dropWhile

/-- Taking digits takes at least one character or leaves all of them. -/
theorem takeDigits_shorter (cs : List Char) :
    (takeDigits cs).2.length < cs.length ∨ takeDigits cs = ([], cs) := by
  have hsplit := takeDigits_split cs
  cases htaken : (takeDigits cs).1 with
  | nil =>
    right
    rw [htaken, List.nil_append] at hsplit
    exact Prod.ext htaken hsplit
  | cons c ds =>
    left
    have hlength := congrArg List.length hsplit
    rw [htaken, List.length_append, List.length_cons] at hlength
    omega

theorem takeDigits_le (cs : List Char) : (takeDigits cs).2.length ≤ cs.length := by
  rcases takeDigits_shorter cs with hless | hsame
  · exact Nat.le_of_lt hless
  · rw [hsame]

/-! ## Signs and words -/

/-- What follows an optional sign is no second one. -/
def NoSignNext (tail : List Char) : Prop := ∀ c, tail.head? = some c → c ≠ '+' ∧ c ≠ '-'

theorem takeSign_exact (hsign : Sign negative sign) (h : NoSignNext tail) :
    takeSign (sign ++ tail) = (negative, tail) := by
  cases hsign with
  | none =>
    cases tail with
    | nil => rfl
    | cons c tail =>
      obtain ⟨hplus, hminus⟩ := h c rfl
      change takeSign (c :: tail) = _
      unfold takeSign
      split <;> simp_all
  | plus => rfl
  | minus => rfl

theorem takeSign_sound (cs : List Char) : ∃ sign, Sign (takeSign cs).1 sign ∧
    cs = sign ++ (takeSign cs).2 := by
  unfold takeSign
  split
  · exact ⟨_, .minus, rfl⟩
  · exact ⟨_, .plus, rfl⟩
  · exact ⟨_, .none, rfl⟩

theorem noSignNext_of_digit (h : c.isDigit = true) (tail : List Char) :
    NoSignNext (c :: tail) := by
  intro d hd
  cases hd
  constructor
  · rintro rfl
    exact absurd h (by decide)
  · rintro rfl
    exact absurd h (by decide)

/-- A word is read off a text exactly if the text begins with it, whatever its case. -/
theorem afterWord?_eq_some : afterWord? word cs = some rest ↔ ∃ w, IsWord word w ∧ cs = w ++ rest := by
  induction word generalizing cs with
  | nil =>
    constructor
    · intro h
      cases h
      exact ⟨[], rfl, rfl⟩
    · rintro ⟨w, hw, rfl⟩
      obtain rfl := List.map_eq_nil_iff.1 hw
      rfl
  | cons d word ih =>
    cases cs with
    | nil =>
      constructor
      · nofun
      · rintro ⟨w, hw, hsplit⟩
        obtain ⟨rfl, -⟩ := List.append_eq_nil_iff.1 hsplit.symm
        cases hw
    | cons c cs =>
      unfold afterWord?
      constructor
      · intro h
        split at h
        · rename_i hc
          obtain ⟨w, hw, rfl⟩ := ih.1 h
          exact ⟨c :: w, congrArg₂ List.cons hc hw, rfl⟩
        · cases h
      · rintro ⟨w, hw, hsplit⟩
        cases w with
        | nil => cases hw
        | cons b w =>
          obtain ⟨rfl, rfl⟩ := List.cons.inj hsplit
          obtain ⟨hc, hword⟩ := List.cons.inj hw
          rw [if_pos hc]
          exact ih.2 ⟨w, hword, rfl⟩

theorem afterWord?_eq_none {d : Char} (h : c.toLower ≠ d) :
    afterWord? (d :: word) (c :: cs) = none := if_neg h

theorem IsWord.length_eq (h : IsWord word w) : w.length = word.length := by
  rw [← h, List.length_map]

/-! ## The scanner keeps to the grammar -/

theorem takeExponent_letter (he : c = 'e' ∨ c = 'E') (rest : List Char) :
    takeExponent (c :: rest) = if (takeDigits (takeSign rest).2).1.isEmpty then (0, c :: rest)
      else (signed (takeSign rest).1 (ofDigits (takeDigits (takeSign rest).2).1),
        (takeDigits (takeSign rest).2).2) := if_pos he

theorem takeExponent_sound (cs : List Char) : ∃ x, Exponent x (takeExponent cs).1 ∧
    cs = x ++ (takeExponent cs).2 := by
  unfold takeExponent
  split
  · rename_i e rest
    split
    · rename_i he
      dsimp only
      split
      · exact ⟨_, .none, rfl⟩
      · rename_i hsome
        obtain ⟨sign, hsign, hsplit⟩ := takeSign_sound rest
        refine ⟨e :: (sign ++ (takeDigits (takeSign rest).2).1), .some he (.intro hsign ?_ ?_), ?_⟩
        · exact allDigits_takeDigits _
        · exact fun hnone => hsome (List.isEmpty_iff.2 hnone)
        · rw [List.cons_append, List.append_assoc, takeDigits_split, ← hsplit]
    · exact ⟨_, .none, rfl⟩
  · exact ⟨_, .none, rfl⟩

theorem takeMantissa_point (h : takeDigits cs = (ds, '.' :: rest)) :
    takeMantissa cs = if ds.isEmpty && (takeDigits rest).1.isEmpty then none
      else some (ds, (takeDigits rest).1, true, (takeDigits rest).2) := by
  unfold takeMantissa
  rw [h]
  rfl

theorem takeMantissa_whole (h : takeDigits cs = (ds, rest)) (hrest : rest.head? ≠ some '.') :
    takeMantissa cs = if ds.isEmpty then none else some (ds, [], false, rest) := by
  unfold takeMantissa
  rw [h]
  dsimp only
  split
  · exact absurd rfl hrest
  · rfl

theorem takeMantissa_sound (h : takeMantissa cs = some (ds, fs, pointed, rest)) :
    ∃ m, Mantissa m ds fs pointed ∧ cs = m ++ rest := by
  have hdigits := allDigits_takeDigits cs
  have hsplit := takeDigits_split cs
  obtain ⟨ws, r, hw⟩ : ∃ ws r, takeDigits cs = (ws, r) := ⟨_, _, rfl⟩
  rw [hw] at hdigits hsplit
  by_cases hpoint : r.head? = some '.'
  · obtain ⟨after, rfl⟩ := List.head?_eq_some_iff.1 hpoint
    rw [takeMantissa_point hw] at h
    split at h
    · cases h
    · rename_i hsome
      cases h
      refine ⟨ds ++ '.' :: (takeDigits after).1, .pointed hdigits (allDigits_takeDigits _) ?_, ?_⟩
      · simpa [Classical.or_iff_not_imp_left] using hsome
      · rw [List.append_assoc, List.cons_append, takeDigits_split]
        exact hsplit.symm
  · rw [takeMantissa_whole hw hpoint] at h
    split at h
    · cases h
    · rename_i hsome
      cases h
      exact ⟨ds, .whole hdigits fun hnone => hsome (List.isEmpty_iff.2 hnone), hsplit.symm⟩

theorem scanUnsigned?_sound (h : scanUnsigned? negative cs = some (n, rest)) :
    ∃ u, Unsigned negative u n ∧ cs = u ++ rest := by
  unfold scanUnsigned? at h
  split at h
  · rename_i hword
    cases h
    obtain ⟨w, hw, hsplit⟩ := afterWord?_eq_some.1 hword
    exact ⟨w, .infinity hw, hsplit⟩
  · split at h
    · rename_i hword
      cases h
      obtain ⟨w, hw, hsplit⟩ := afterWord?_eq_some.1 hword
      exact ⟨w, .inf hw, hsplit⟩
    · split at h
      · rename_i hword
        cases h
        obtain ⟨w, hw, hsplit⟩ := afterWord?_eq_some.1 hword
        exact ⟨w, .nan hw, hsplit⟩
      · split at h
        · rename_i ws fs p after hmantissa
          cases h
          obtain ⟨m, hm, hsplit⟩ := takeMantissa_sound hmantissa
          obtain ⟨x, hx, hrest⟩ := takeExponent_sound after
          refine ⟨m ++ x, .number hm hx, ?_⟩
          calc cs = m ++ after := hsplit
            _ = m ++ (x ++ (takeExponent after).2) := congrArg _ hrest
            _ = m ++ x ++ (takeExponent after).2 := (List.append_assoc _ _ _).symm
        · cases h

/-- What the scanner reads is spelled by the characters that it takes. -/
theorem scan?_sound (h : scan? cs = some (n, rest)) : ∃ w, Spells w n ∧ cs = w ++ rest := by
  obtain ⟨sign, hsign, hsplit⟩ := takeSign_sound cs
  obtain ⟨u, hu, hrest⟩ := scanUnsigned?_sound h
  refine ⟨sign ++ u, .intro hsign hu, ?_⟩
  rw [List.append_assoc, ← hrest]
  exact hsplit

/-! ## The scanner stops no earlier than the grammar

A reader that could stop before `tail` either stops there, with the number that the grammar
gives, or goes on and leaves less. -/

theorem takeExponent_shorter (cs : List Char) :
    (takeExponent cs).2.length < cs.length ∨ takeExponent cs = (0, cs) := by
  obtain ⟨x, hx, hsplit⟩ := takeExponent_sound cs
  generalize takeExponent cs = r at hx hsplit
  obtain ⟨k, rest⟩ := r
  cases hx with
  | none => exact Or.inr (congrArg _ hsplit.symm)
  | some he h =>
    left
    rw [hsplit, List.length_append, List.length_cons]
    dsimp only
    omega

theorem takeExponent_reaches (hx : Exponent x e) (tail : List Char) :
    (takeExponent (x ++ tail)).2.length < tail.length ∨ takeExponent (x ++ tail) = (e, tail) := by
  cases hx with
  | none => exact takeExponent_shorter tail
  | some he h =>
    cases h with
    | @intro negative sign ds hsign hds hsome =>
      obtain ⟨d, more, rfl⟩ := List.exists_cons_of_ne_nil hsome
      have hdigit : d.isDigit = true := hds d List.mem_cons_self
      have hunsigned : takeSign (sign ++ (d :: more ++ tail)) = (negative, d :: more ++ tail) :=
        takeSign_exact hsign (noSignNext_of_digit hdigit _)
      rw [List.cons_append, List.append_assoc, takeExponent_letter he, hunsigned,
        takeDigits_append hds, if_neg (by simp)]
      rcases takeDigits_shorter tail with hless | hsame
      · exact Or.inl hless
      · right
        rw [hsame, List.append_nil]

theorem noDigitNext_point (rest : List Char) : NoDigitNext ('.' :: rest) := by
  intro c hc
  cases hc
  rfl

/-- The mantissa before something that cannot go on with it is taken and no more. -/
theorem takeMantissa_exact (hm : Mantissa m ds fs pointed) (hdigit : NoDigitNext tail)
    (hpoint : tail.head? ≠ some '.') : takeMantissa (m ++ tail) = some (ds, fs, pointed, tail) := by
  cases hm with
  | whole hds hsome =>
    rw [takeMantissa_whole (takeDigits_exact hds hdigit) hpoint, if_neg]
    simpa using hsome
  | pointed hds hfs hsome =>
    rw [List.append_assoc, List.cons_append,
      takeMantissa_point (takeDigits_exact hds (noDigitNext_point _)),
      takeDigits_exact hfs hdigit, if_neg]
    simpa [Classical.or_iff_not_imp_left] using hsome

theorem takeMantissa_reaches (hm : Mantissa m ds fs pointed) (tail : List Char) :
    ∃ ws vs p rest, takeMantissa (m ++ tail) = some (ws, vs, p, rest) ∧
      (rest.length < tail.length ∨ (ws, vs, p, rest) = (ds, fs, pointed, tail)) := by
  cases hm with
  | whole hds hsome =>
    have htaken := takeDigits_append hds tail
    have hmore : ¬ (ds ++ (takeDigits tail).1).isEmpty = true := by simp [hsome]
    by_cases hpoint : (takeDigits tail).2.head? = some '.'
    · obtain ⟨after, hafter⟩ := List.head?_eq_some_iff.1 hpoint
      have hle := takeDigits_le tail
      have hle' := takeDigits_le after
      rw [hafter] at htaken hle
      refine ⟨_, _, _, _, (takeMantissa_point htaken).trans (if_neg (by simp [hsome])), Or.inl ?_⟩
      rw [List.length_cons] at hle
      omega
    · refine ⟨_, _, _, _, (takeMantissa_whole htaken hpoint).trans (if_neg hmore), ?_⟩
      rcases takeDigits_shorter tail with hless | hsame
      · exact Or.inl hless
      · right
        rw [hsame, List.append_nil]
  | pointed hds hfs hsome =>
    have hnone : ¬ (ds.isEmpty && (fs ++ (takeDigits tail).1).isEmpty) = true := by
      rcases hsome with hsome | hsome <;> simp [hsome]
    refine ⟨ds, fs ++ (takeDigits tail).1, true, (takeDigits tail).2, ?_, ?_⟩
    · rw [List.append_assoc, List.cons_append,
        takeMantissa_point (takeDigits_exact hds (noDigitNext_point _)),
        takeDigits_append hfs, if_neg hnone]
    · rcases takeDigits_shorter tail with hless | hsame
      · exact Or.inl hless
      · right
        rw [hsame, List.append_nil]

/-! ## The first character of a number -/

theorem toLower_of_digit (h : c.isDigit = true) : c.toLower = c := by
  unfold Char.isDigit at h
  unfold Char.toLower
  simp only [Bool.and_eq_true, decide_eq_true_eq, ge_iff_le, UInt32.le_iff_toNat_le] at h ⊢
  refine dif_neg fun hupper => ?_
  have hlow : 'A'.val.toNat ≤ c.val.toNat := hupper.1
  have hhigh : c.val.toNat ≤ '9'.val.toNat := h.2
  exact absurd (Nat.le_trans hlow hhigh) (by decide)

theorem Mantissa.head (h : Mantissa m ds fs pointed) :
    ∃ c rest, m = c :: rest ∧ (c.isDigit = true ∨ c = '.') := by
  cases h with
  | whole hds hsome =>
    obtain ⟨c, rest, rfl⟩ := List.exists_cons_of_ne_nil hsome
    exact ⟨c, rest, rfl, Or.inl (hds c List.mem_cons_self)⟩
  | pointed hds hfs hsome =>
    cases ds with
    | nil => exact ⟨'.', fs, rfl, Or.inr rfl⟩
    | cons c rest => exact ⟨c, _, rfl, Or.inl (hds c List.mem_cons_self)⟩

/-- What starts with digits or a point starts with no word. -/
theorem Mantissa.afterWord?_eq_none (h : Mantissa m ds fs pointed) {d : Char}
    (hd : d = 'i' ∨ d = 'n') : afterWord? (d :: word) (m ++ tail) = none := by
  obtain ⟨c, rest, rfl, hc⟩ := h.head
  refine Decimal.afterWord?_eq_none ?_
  rintro rfl
  rcases hc with hc | rfl
  · rw [toLower_of_digit hc] at hd
    rcases hd with rfl | rfl
    · exact absurd hc (by decide)
    · exact absurd hc (by decide)
  · exact absurd hd (by decide)

/-- A number starts with a digit, with a point, or as one of the words. -/
theorem Unsigned.head (h : Unsigned negative u n) :
    ∃ c rest, u = c :: rest ∧ (c.isDigit = true ∨ c = '.' ∨ c.toLower = 'i' ∨ c.toLower = 'n') := by
  cases h with
  | inf hw | infinity hw =>
    cases u with
    | nil => cases hw
    | cons c rest => exact ⟨c, rest, rfl, Or.inr (Or.inr (Or.inl (List.cons.inj hw).1))⟩
  | nan hw =>
    cases u with
    | nil => cases hw
    | cons c rest => exact ⟨c, rest, rfl, Or.inr (Or.inr (Or.inr (List.cons.inj hw).1))⟩
  | number hm hx =>
    obtain ⟨c, rest, rfl, hc⟩ := hm.head
    exact ⟨c, _, rfl, hc.imp_right Or.inl⟩

/-- No number starts with a second sign. -/
theorem Unsigned.noSignNext (h : Unsigned negative u n) (tail : List Char) :
    NoSignNext (u ++ tail) := by
  obtain ⟨c, rest, rfl, hc⟩ := h.head
  intro d hd
  cases hd
  constructor
  · rintro rfl
    exact absurd hc (by decide)
  · rintro rfl
    exact absurd hc (by decide)

/-! ## The longest number -/

/-- A word is longer than the words that it starts with. -/
theorem length_lt_of_longer_word {longer : List Char} (hw : IsWord word w)
    (hlonger : afterWord? longer (w ++ tail) = some rest) (h : word.length < longer.length) :
    rest.length < tail.length := by
  obtain ⟨v, hv, hsplit⟩ := afterWord?_eq_some.1 hlonger
  have hlength := congrArg List.length hsplit
  rw [List.length_append, List.length_append, hw.length_eq, hv.length_eq] at hlength
  omega

/-- Digits and an exponent before something else: both are read and no more, or more is taken. -/
theorem takeMantissa_takeExponent_reaches (hm : Mantissa m ds fs pointed) (hx : Exponent x e)
    (tail : List Char) :
    ∃ ws vs p after, takeMantissa (m ++ (x ++ tail)) = some (ws, vs, p, after) ∧
      ((takeExponent after).2.length < tail.length ∨
        (ws, vs, p) = (ds, fs, pointed) ∧ takeExponent after = (e, tail)) := by
  cases hx with
  | none =>
    obtain ⟨ws, vs, p, after, htaken, hreach⟩ := takeMantissa_reaches hm tail
    refine ⟨ws, vs, p, after, htaken, ?_⟩
    have hshorter := takeExponent_shorter after
    rcases hreach with hless | hsame
    · left
      rcases hshorter with hless' | hstop
      · exact Nat.lt_trans hless' hless
      · rw [hstop]
        exact hless
    · cases hsame
      exact hshorter.imp_right fun hstop => ⟨rfl, hstop⟩
  | @some letter cs e he hspells =>
    -- The letter of the exponent ends the mantissa.
    have hletter : letter.isDigit = false ∧ letter ≠ '.' := by
      rcases he with rfl | rfl <;> decide
    have hdigit : NoDigitNext (letter :: cs ++ tail) := by
      intro c hc
      cases hc
      exact hletter.1
    have hpoint : (letter :: cs ++ tail).head? ≠ Option.some '.' := by
      intro hc
      exact hletter.2 (Option.some.inj hc)
    refine ⟨ds, fs, pointed, _, takeMantissa_exact hm hdigit hpoint, ?_⟩
    exact (takeExponent_reaches (.some he hspells) tail).imp_right fun hstop => ⟨rfl, hstop⟩

theorem scanUnsigned?_reaches (h : Unsigned negative u n) (tail : List Char) :
    ∃ k rest, scanUnsigned? negative (u ++ tail) = some (k, rest) ∧
      (rest.length < tail.length ∨ k = n ∧ rest = tail) := by
  unfold scanUnsigned?
  cases h with
  | infinity hw =>
    rw [afterWord?_eq_some.2 ⟨u, hw, rfl⟩]
    exact ⟨_, _, rfl, Or.inr ⟨rfl, rfl⟩⟩
  | inf hw =>
    cases hlonger : afterWord? ['i', 'n', 'f', 'i', 'n', 'i', 't', 'y'] (u ++ tail) with
    | some rest =>
      exact ⟨_, _, rfl, Or.inl (length_lt_of_longer_word hw hlonger (by decide))⟩
    | none =>
      dsimp only
      rw [afterWord?_eq_some.2 ⟨u, hw, rfl⟩]
      exact ⟨_, _, rfl, Or.inr ⟨rfl, rfl⟩⟩
  | nan hw =>
    have hother : ∀ word, afterWord? ('i' :: word) (u ++ tail) = none := by
      intro word
      cases u with
      | nil => cases hw
      | cons c u =>
        refine afterWord?_eq_none ?_
        rw [(List.cons.inj hw).1]
        decide
    rw [hother, hother, afterWord?_eq_some.2 ⟨u, hw, rfl⟩]
    exact ⟨_, _, rfl, Or.inr ⟨rfl, rfl⟩⟩
  | number hm hx =>
    obtain ⟨ws, vs, p, after, htaken, hreach⟩ := takeMantissa_takeExponent_reaches hm hx tail
    rw [List.append_assoc, hm.afterWord?_eq_none (Or.inl rfl), hm.afterWord?_eq_none (Or.inl rfl),
      hm.afterWord?_eq_none (Or.inr rfl)]
    dsimp only
    rw [htaken]
    refine ⟨_, _, rfl, ?_⟩
    rcases hreach with hless | ⟨hsame, hstop⟩
    · exact Or.inl hless
    · cases hsame
      right
      rw [hstop]
      exact ⟨rfl, rfl⟩

/-- Where the grammar spells a number, the scanner reads that number or a longer one. -/
theorem scan?_reaches (h : Spells w n) (tail : List Char) :
    ∃ k rest, scan? (w ++ tail) = some (k, rest) ∧
      (rest.length < tail.length ∨ k = n ∧ rest = tail) := by
  cases h with
  | intro hsign hu =>
    unfold scan?
    rw [List.append_assoc, takeSign_exact hsign (hu.noSignNext tail)]
    exact scanUnsigned?_reaches hu tail

/-- Some characters spell one number at most. -/
theorem Spells.unique {k : Numeral} (h : Spells w n) (h' : Spells w k) : n = k := by
  obtain ⟨_, _, hscan, hreach⟩ := scan?_reaches h []
  obtain ⟨_, _, hscan', hreach'⟩ := scan?_reaches h' []
  cases hscan.symm.trans hscan'
  rcases hreach with hless | ⟨rfl, rfl⟩
  · cases hless
  · rcases hreach' with hless | ⟨rfl, -⟩
    · cases hless
    · rfl

/-- The longest start of a text that spells a number, and the number. -/
structure LongestNumber (cs w : List Char) (n : Numeral) : Prop where
  begins : w <+: cs
  spells : Spells w n
  longest : ∀ v k, v <+: cs → Spells v k → v.length ≤ w.length

/-- The scanner takes the longest number. -/
theorem scan?_eq_some : scan? cs = some (n, rest) ↔ ∃ w, LongestNumber cs w n ∧ cs = w ++ rest := by
  constructor
  · intro h
    obtain ⟨w, hw, rfl⟩ := scan?_sound h
    refine ⟨w, ⟨List.prefix_append _ _, hw, ?_⟩, rfl⟩
    rintro v k ⟨tail, hsplit⟩ hv
    obtain ⟨k', rest', hscan, hreach⟩ := scan?_reaches hv tail
    rw [hsplit, h] at hscan
    cases hscan
    have hlength := congrArg List.length hsplit
    rw [List.length_append, List.length_append] at hlength
    have hle : rest.length ≤ tail.length := by
      rcases hreach with hless | ⟨-, rfl⟩
      · exact Nat.le_of_lt hless
      · exact Nat.le_refl _
    omega
  · rintro ⟨w, hlongest, rfl⟩
    obtain ⟨k, rest', hscan, hreach⟩ := scan?_reaches hlongest.spells rest
    rcases hreach with hless | ⟨rfl, rfl⟩
    · -- A number that leaves less would be longer than the longest.
      obtain ⟨v, hv, hsplit⟩ := scan?_sound hscan
      have hle := hlongest.longest v k ⟨rest', hsplit.symm⟩ hv
      have hlength := congrArg List.length hsplit
      rw [List.length_append, List.length_append] at hlength
      omega
    · exact hscan

theorem scan?_eq_none : scan? cs = none ↔ ∀ w n, w <+: cs → ¬ Spells w n := by
  constructor
  · rintro h w n ⟨tail, rfl⟩ hw
    obtain ⟨_, _, hscan, -⟩ := scan?_reaches hw tail
    cases h.symm.trans hscan
  · intro h
    cases hscan : scan? cs with
    | none => rfl
    | some r =>
      obtain ⟨n, rest⟩ := r
      obtain ⟨w, hw, hsplit⟩ := scan?_sound hscan
      exact absurd hw (h w n ⟨rest, hsplit.symm⟩)

/-! ## Whole numbers -/

theorem readInt?_eq_some {k : Int} : readInt? cs = some k ↔ SpellsInt cs k := by
  constructor
  · intro h
    obtain ⟨sign, hsign, hsplit⟩ := takeSign_sound cs
    unfold readInt? at h
    dsimp only at h
    split at h
    · cases h
    · rename_i hdigits
      simp only [Bool.or_eq_true, List.isEmpty_iff, Bool.not_eq_true', not_or,
        Bool.not_eq_false, List.all_eq_true] at hdigits
      cases h
      have hspells := SpellsInt.intro hsign hdigits.2 hdigits.1
      rw [← hsplit] at hspells
      exact hspells
  · intro h
    cases h with
    | @intro negative sign ds hsign hds hsome =>
      obtain ⟨d, more, rfl⟩ := List.exists_cons_of_ne_nil hsome
      have hdigit : d.isDigit = true := hds d List.mem_cons_self
      have hunsigned := takeSign_exact hsign (noSignNext_of_digit hdigit more)
      unfold readInt?
      rw [hunsigned]
      dsimp only
      rw [if_neg]
      · rfl
      · simpa [AllDigits] using hds

end LineBasic.Decimal
