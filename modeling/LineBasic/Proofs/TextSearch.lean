-- The search for a text in a text. It goes over bytes, and the byte that it finds is counted
-- back in characters. The first byte of a character is never a later byte of another one, so
-- the bytes of a text stand exactly where its characters do, and the search finds the first
-- position at which MID$ gives the text.
import Mathlib.Data.List.Infix
import Mathlib.Order.Bounds.Basic
import LineBasic.Proofs.Functions
import LineBasic.Proofs.Rounding

namespace LineBasic

namespace Excerpt

/-! ## The first match in a list -/

section FirstMatch

variable {α : Type} [BEq α] [LawfulBEq α] {needle xs : List α} {place p : Nat}

/-- Where a list begins with another, as a distance from its start. -/
def matchesIn (needle xs : List α) : Set Nat := {k | needle <+: xs.drop k}

/-- What is found is the least distance at which the list begins with the other. -/
theorem exists_of_firstMatch (h : firstMatch needle place xs = some p) :
    ∃ k, p = place + k ∧ IsLeast (matchesIn needle xs) k := by
  induction xs generalizing place with
  | nil =>
    unfold firstMatch at h
    split at h
    · rename_i hempty
      obtain rfl := List.isEmpty_iff.1 hempty
      cases h
      exact ⟨0, rfl, List.nil_prefix, fun _ _ => Nat.zero_le _⟩
    · cases h
  | cons x xs ih =>
    unfold firstMatch at h
    split at h
    · rename_i hhere
      cases h
      exact ⟨0, rfl, List.isPrefixOf_iff_prefix.1 hhere, fun _ _ => Nat.zero_le _⟩
    · rename_i hhere
      obtain ⟨k, rfl, hmatch, hleast⟩ := ih h
      refine ⟨k + 1, by omega, hmatch, fun j hj => ?_⟩
      cases j with
      | zero => exact absurd (List.isPrefixOf_iff_prefix.2 hj) hhere
      | succ j => exact Nat.succ_le_succ (hleast hj)

/-- Where nothing is found, the list nowhere begins with the other. -/
theorem not_mem_of_firstMatch (h : firstMatch needle place xs = none) (k : Nat) :
    k ∉ matchesIn needle xs := by
  induction xs generalizing place k with
  | nil =>
    unfold firstMatch at h
    split at h
    · cases h
    · rename_i hempty
      intro hk
      have hnil : needle <+: [] := by simpa [matchesIn] using hk
      exact hempty (List.isEmpty_iff.2 (List.prefix_nil.1 hnil))
  | cons x xs ih =>
    unfold firstMatch at h
    split at h
    · cases h
    · rename_i hhere
      cases k with
      | zero => exact fun hk => hhere (List.isPrefixOf_iff_prefix.2 hk)
      | succ k => exact ih h k

end FirstMatch

/-! ## Characters as bytes -/

variable {c : Char} {cs ds needle : List Char}

@[simp] theorem bytes_nil : bytes [] = [] := rfl

@[simp] theorem bytes_cons (c : Char) (cs : List Char) :
    bytes (c :: cs) = String.utf8EncodeChar c ++ bytes cs := List.flatMap_cons

@[simp] theorem bytes_append (cs ds : List Char) : bytes (cs ++ ds) = bytes cs ++ bytes ds :=
  List.flatMap_append

theorem bytes_eq_nil : bytes cs = [] ↔ cs = [] := by
  cases cs <;> simp

/-- One text begins with another exactly if its bytes do. -/
theorem bytes_prefix_iff : bytes cs <+: bytes ds ↔ cs <+: ds := by
  constructor
  · rintro ⟨rest, h⟩
    apply List.isPrefix_of_utf8Encode_append_eq_utf8Encode rest.toByteArray
    change (bytes cs).toByteArray ++ rest.toByteArray = (bytes ds).toByteArray
    rw [← List.toByteArray_append, h]
  · rintro ⟨rest, rfl⟩
    rw [bytes_append]
    exact List.prefix_append _ _

/-- The first byte of a text starts a character. -/
theorem isUTF8FirstByte_of_head {b : UInt8} {rest : List UInt8} (h : bytes cs = b :: rest) :
    b.IsUTF8FirstByte := by
  cases cs with
  | nil => cases h
  | cons c cs =>
    rw [bytes_cons] at h
    have hfirst : (String.utf8EncodeChar c ++ bytes cs)[0]? = some b := by rw [h]; rfl
    have hlength : 0 < (String.utf8EncodeChar c).length := by
      rw [String.length_utf8EncodeChar]
      exact c.utf8Size_pos
    rw [List.getElem?_append_left hlength, List.getElem?_eq_getElem hlength] at hfirst
    cases hfirst
    exact UInt8.isUTF8FirstByte_getElem_utf8EncodeChar.2 rfl

/-- The bytes of a text stand only where the text stands: the place is the end of some
characters, and the text comes next. -/
theorem exists_of_bytes_mem (hneedle : needle ≠ []) {i : Nat}
    (h : i ∈ matchesIn (bytes needle) (bytes cs)) :
    ∃ k ≤ cs.length, i = (bytes (cs.take k)).length ∧ k ∈ matchesIn needle cs := by
  induction cs generalizing i with
  | nil =>
    have hnil : bytes needle <+: [] := by simpa [matchesIn] using h
    exact absurd (bytes_eq_nil.1 (List.prefix_nil.1 hnil)) hneedle
  | cons c cs ih =>
    rcases Nat.eq_zero_or_pos i with rfl | hi
    · exact ⟨0, Nat.zero_le _, rfl, bytes_prefix_iff.1 h⟩
    rcases Nat.lt_or_ge i (String.utf8EncodeChar c).length with hinside | hbehind
    · -- Inside a character no text can start, for its first byte would be a later one.
      obtain ⟨b, rest, hbytes⟩ := List.exists_cons_of_ne_nil (mt bytes_eq_nil.1 hneedle)
      obtain ⟨behind, hbehind⟩ : bytes needle <+: (bytes (c :: cs)).drop i := h
      have hbyte : (bytes (c :: cs))[i]? = some b := by
        rw [← List.head?_drop, ← hbehind, hbytes]
        rfl
      rw [bytes_cons, List.getElem?_append_left hinside, List.getElem?_eq_getElem hinside] at hbyte
      have hfirst := isUTF8FirstByte_of_head hbytes
      rw [← Option.some.inj hbyte, UInt8.isUTF8FirstByte_getElem_utf8EncodeChar] at hfirst
      omega
    · have hrest : i - (String.utf8EncodeChar c).length ∈ matchesIn (bytes needle) (bytes cs) := by
        change bytes needle <+: (bytes (c :: cs)).drop i at h
        rwa [bytes_cons, List.drop_append, List.drop_eq_nil_of_le hbehind, List.nil_append] at h
      obtain ⟨k, hk, hlength, hmatch⟩ := ih hrest
      refine ⟨k + 1, Nat.succ_le_succ hk, ?_, hmatch⟩
      rw [List.take_succ_cons, bytes_cons, List.length_append]
      omega

/-- Where a text stands, its bytes stand. -/
theorem bytes_mem {k : Nat} (h : k ∈ matchesIn needle cs) :
    (bytes (cs.take k)).length ∈ matchesIn (bytes needle) (bytes cs) := by
  have hsplit : bytes cs = bytes (cs.take k) ++ bytes (cs.drop k) := by
    rw [← bytes_append, List.take_append_drop]
  change bytes needle <+: (bytes cs).drop _
  rw [hsplit, List.drop_left]
  exact bytes_prefix_iff.2 h

/-- A byte offset at the end of some characters counts these characters. -/
theorem positionAt_take (place : Nat) {k : Nat} (hk : k ≤ cs.length) :
    positionAt place (bytes (cs.take k)).length cs = place + k := by
  induction cs generalizing place k with
  | nil =>
    obtain rfl : k = 0 := by simpa using hk
    rfl
  | cons c cs ih =>
    cases k with
    | zero => exact if_pos c.utf8Size_pos
    | succ k =>
      have hsize : (bytes ((c :: cs).take (k + 1))).length =
          c.utf8Size + (bytes (cs.take k)).length := by
        rw [List.take_succ_cons, bytes_cons, List.length_append, String.length_utf8EncodeChar]
      unfold positionAt
      rw [hsize, if_neg (by omega), Nat.add_sub_cancel_left, ih _ (Nat.le_of_succ_le_succ hk)]
      omega

theorem length_bytes_take_le (cs : List Char) {j k : Nat} (h : j ≤ k) :
    (bytes (cs.take j)).length ≤ (bytes (cs.take k)).length := by
  have hprefix : cs.take j <+: cs.take k := List.take_prefix_take_left h
  exact (bytes_prefix_iff.2 hprefix).length_le

/-! ## The position that is found -/

/-- The search over bytes finds the least number of characters that can be left out so that
the rest begins with the text. -/
theorem position_found (place : Nat) {i : Nat}
    (h : firstMatch (bytes needle) 0 (bytes cs) = some i) :
    ∃ k, positionAt place i cs = place + k ∧ IsLeast (matchesIn needle cs) k := by
  obtain ⟨_, rfl, hmatch, hleast⟩ := exists_of_firstMatch h
  rw [Nat.zero_add]
  rcases eq_or_ne needle [] with rfl | hneedle
  · -- The empty text stands everywhere, and so at the start.
    have hstart := hleast (show 0 ∈ matchesIn (bytes []) (bytes cs) from List.nil_prefix)
    rw [Nat.le_zero.1 hstart]
    exact ⟨0, positionAt_take place (Nat.zero_le _), List.nil_prefix, fun _ _ => Nat.zero_le _⟩
  · obtain ⟨k, hk, rfl, hchars⟩ := exists_of_bytes_mem hneedle hmatch
    refine ⟨k, positionAt_take place hk, hchars, fun j hj => ?_⟩
    by_contra hbefore
    have hbytes := hleast (bytes_mem hj)
    have hback := length_bytes_take_le cs (Nat.le_of_lt (Nat.lt_of_not_le hbefore))
    have hsame : positionAt 0 (bytes (cs.take j)).length cs =
        positionAt 0 (bytes (cs.take k)).length cs := by
      rw [Nat.le_antisymm hback hbytes]
    rw [positionAt_take 0 (by omega), positionAt_take 0 hk] at hsame
    omega

/-- MID$ gives a text at a position exactly if the rest of the characters begins with it. -/
theorem mid_eq_iff {text needle : String} {p : Nat} :
    mid text p (some needle.length) = needle ↔ needle.toList <+: text.toList.drop (p - 1) := by
  rw [List.prefix_iff_eq_take, ← String.toList_inj]
  change (String.ofList _).toList = _ ↔ _
  rw [String.toList_ofList, String.length_toList]
  exact eq_comm

/-- The positions from `start` on at which MID$ gives a text. -/
def places (text needle : String) (start : Nat) : Set Nat :=
  {p | max start 1 ≤ p ∧ mid text p (some needle.length) = needle}

/-- The search finds the least position, and gives zero only where there is none. -/
theorem instr_least (text needle : String) (start : Nat) :
    IsLeast (places text needle start) (instr text needle start) ∨
      instr text needle start = 0 ∧ places text needle start = ∅ := by
  have hmem : ∀ k, max start 1 + k ∈ places text needle start ↔
      k ∈ matchesIn needle.toList (text.toList.drop (max start 1 - 1)) := by
    intro k
    have hdrop : max start 1 + k - 1 = max start 1 - 1 + k := by omega
    change _ ∧ _ ↔ _ <+: _
    rw [mid_eq_iff, List.drop_drop, hdrop]
    exact and_iff_right (Nat.le_add_right _ _)
  have hall : ∀ p ∈ places text needle start, ∃ k, p = max start 1 + k := fun p hp =>
    Nat.exists_eq_add_of_le hp.1
  unfold instr
  dsimp only
  split
  · rename_i i hfound
    obtain ⟨k, hposition, hmatch, hleast⟩ := position_found (max start 1) hfound
    rw [hposition]
    refine Or.inl ⟨(hmem k).2 hmatch, fun p hp => ?_⟩
    obtain ⟨j, rfl⟩ := hall p hp
    exact Nat.add_le_add_left (hleast ((hmem j).1 hp)) _
  · rename_i hnone
    refine Or.inr ⟨rfl, Set.eq_empty_of_forall_notMem fun p hp => ?_⟩
    obtain ⟨j, rfl⟩ := hall p hp
    have hbytes := bytes_mem ((hmem j).1 hp)
    exact not_mem_of_firstMatch hnone _ hbytes

end Excerpt

/-! ## The functions of a program -/

/-- The positions from `start` on at which MID$ returns a text, for the length that LEN returns. -/
def PositionsOf (text needle : String) (start : Int64) : Set Int64 :=
  {p | start ≤ p ∧ 1 ≤ p ∧ ∃ size, Returns "LEN" [.string needle] size ∧
    Returns "MID$" [.string text, .integer p, size] (.string needle)}

/-- The functions that measure and cut a text go by its characters. -/
structure CountsCharacters (text : String) : Prop where
  len : ∃ size : Int64, size.toInt = text.toList.length ∧
    Returns "LEN" [.string text] (.integer size)
  left : ∀ n : Int64, 0 ≤ n → Returns "LEFT$" [.string text, .integer n]
    (.string (String.ofList (text.toList.take n.toInt.toNat)))
  right : ∀ n : Int64, 0 ≤ n → Returns "RIGHT$" [.string text, .integer n]
    (.string (String.ofList (text.toList.drop (text.toList.length - n.toInt.toNat))))
  mid : ∀ p : Int64, 1 ≤ p → Returns "MID$" [.string text, .integer p]
    (.string (String.ofList (text.toList.drop (p.toInt.toNat - 1))))
  midLength : ∀ p n : Int64, 1 ≤ p → 0 ≤ n → Returns "MID$" [.string text, .integer p, .integer n]
    (.string (String.ofList ((text.toList.drop (p.toInt.toNat - 1)).take n.toInt.toNat)))

variable {text needle : String} {start p : Int64}

theorem returns_length (h : Text.Countable text) :
    ∃ size : Int64, size.toInt = text.toList.length ∧
      Returns "LEN" [.string text] (.integer size) := by
  refine ⟨Int64.ofNat text.length, ?_, returns_len text⟩
  rw [Integer.toInt_ofNat h, String.length_toList]

theorem countsCharacters (h : Text.Countable text) : CountsCharacters text where
  len := returns_length h
  left _ hn := returns_left rfl hn
  right _ hn := returns_right rfl hn
  mid _ hp := returns_mid rfl hp
  midLength _ _ hp hn := returns_mid_length rfl hp rfl hn

/-- A position in the program is one of the search. -/
theorem mem_positionsOf_iff (hneedle : Text.Countable needle) (hp : 1 ≤ p) (hstart : 0 ≤ start) :
    p ∈ PositionsOf text needle start ↔
      p.toInt.toNat ∈ Excerpt.places text needle start.toInt.toNat := by
  obtain ⟨size, hsize, hlen⟩ := returns_length hneedle
  rw [String.length_toList] at hsize
  have hzero : 0 ≤ size := by
    rw [Int64.le_iff_toInt_le, hsize]
    exact Int.natCast_nonneg _
  have hcut := returns_mid_length (s := text) (v := .integer p) (w := .integer size) rfl hp rfl hzero
  rw [hsize, Int.toNat_natCast] at hcut
  have hslice : (∃ w, Returns "LEN" [.string needle] w ∧
      Returns "MID$" [.string text, .integer p, w] (.string needle)) ↔
      Excerpt.mid text p.toInt.toNat (some needle.length) = needle := by
    rw [← hcut.string_iff]
    constructor
    · rintro ⟨w, hw, hmid⟩
      rwa [hlen.unique hw]
    · exact fun hmid => ⟨_, hlen, hmid⟩
  have hbound : start ≤ p ∧ 1 ≤ p ↔ max start.toInt.toNat 1 ≤ p.toInt.toNat := by
    have hone : (1 : Int64).toInt = 1 := rfl
    have hnone : (0 : Int64).toInt = 0 := rfl
    simp only [Int64.le_iff_toInt_le, hone, hnone] at hp hstart ⊢
    omega
  change start ≤ p ∧ 1 ≤ p ∧ _ ↔ _ ∧ _
  rw [← and_assoc, hslice, hbound]

/-- The position that is found is one that an INTEGER holds. -/
theorem instr_le_greatest (htext : Text.Countable text) (needle : String) {k : Nat}
    (hk : k ≤ Real.greatest.toNat) : Excerpt.instr text needle k ≤ Real.greatest.toNat := by
  rcases Excerpt.instr_least text needle k with ⟨⟨hstart, hmid⟩, hleast⟩ | ⟨hzero, -⟩
  · have hprefix := Excerpt.mid_eq_iff.1 hmid
    rcases eq_or_ne needle.toList [] with hempty | hneedle
    · -- The empty text is found at the start of the search.
      have hfirst : max k 1 ∈ Excerpt.places text needle k :=
        ⟨Nat.le_refl _, Excerpt.mid_eq_iff.2 (hempty ▸ List.nil_prefix)⟩
      have hone : 1 ≤ Real.greatest.toNat := by decide
      have := hleast hfirst
      omega
    · have hlength := hprefix.length_le
      have hpos := List.length_pos_iff.2 hneedle
      simp only [List.length_drop, String.length_toList] at hlength hpos
      unfold Text.Countable at htext
      omega
  · rw [hzero]
    exact Nat.zero_le _

/-- INSTR returns the least position, at or after the start, at which MID$ returns the text it
looks for, and zero exactly if there is none. Without a start it begins at the first character,
and every position and length counts characters. -/
theorem a_search_finds_the_first_slice (v : Value) (htext : Text.Countable text)
    (hneedle : Text.Countable needle) (hv : v.toInteger = .ok start) (hstart : 0 ≤ start) :
    (∃ p : Int64, Returns "INSTR" [.string text, .string needle, v] (.integer p) ∧
      (p = 0 ↔ PositionsOf text needle start = ∅) ∧
      (p ≠ 0 → IsLeast (PositionsOf text needle start) p)) ∧
    (∀ w, Returns "INSTR" [.string text, .string needle] w ↔
      Returns "INSTR" [.string text, .string needle, .integer 1] w) ∧
    CountsCharacters text ∧ CountsCharacters needle := by
  refine ⟨?_, fun w => Iff.rfl, countsCharacters htext, countsCharacters hneedle⟩
  have hcount : start.toInt.toNat ≤ Real.greatest.toNat := by
    have := (Integer.toInt_bounds start).2
    omega
  have hint := Integer.toInt_ofNat (instr_le_greatest htext needle hcount)
  refine ⟨_, returns_instr text needle hv hstart, ?_⟩
  rcases Excerpt.instr_least text needle start.toInt.toNat with ⟨hplace, hleast⟩ | ⟨hzero, hnone⟩
  · generalize Excerpt.instr text needle start.toInt.toNat = i at *
    have hpos : 1 ≤ i := Nat.le_trans (Nat.le_max_right _ _) hplace.1
    have hone : 1 ≤ Int64.ofNat i := by
      rw [Int64.le_iff_toInt_le, hint]
      exact Int.ofNat_le.2 hpos
    have hmem : Int64.ofNat i ∈ PositionsOf text needle start := by
      rw [mem_positionsOf_iff hneedle hone hstart, hint, Int.toNat_natCast]
      exact hplace
    refine ⟨⟨fun hzero => ?_, fun hempty => ?_⟩, fun _ => ⟨hmem, fun q hq => ?_⟩⟩
    · exact absurd (hzero ▸ hone) (by decide)
    · rw [hempty] at hmem
      exact hmem.elim
    · have hlow := hleast ((mem_positionsOf_iff hneedle hq.2.1 hstart).1 hq)
      rw [Int64.le_iff_toInt_le, hint]
      have hqpos := Int64.le_iff_toInt_le.1 hq.2.1
      omega
  · rw [hzero]
    refine ⟨⟨fun _ => ?_, fun _ => rfl⟩, fun h => absurd rfl h⟩
    refine Set.eq_empty_of_forall_notMem fun q hq => ?_
    have hmem := (mem_positionsOf_iff hneedle hq.2.1 hstart).1 hq
    rw [hnone] at hmem
    exact hmem

/-- The text stands again behind characters of two and of four bytes. The start is a REAL, rounded
to the second position. -/
theorem a_search_counts_characters :
    let text := "né😀né"
    let needle := "né"
    let start := Value.real 2.5
    Text.Countable text ∧ Text.Countable needle ∧ start.toInteger = .ok 2 ∧ 0 ≤ (2 : Int64) ∧
      Returns "INSTR" [.string text, .string needle, start] (.integer 4) ∧
      IsLeast (PositionsOf text needle 2) 4 := by
  intro text needle start
  have htext : Text.Countable text := by decide
  have hneedle : Text.Countable needle := by decide
  have hstart : start.toInteger = .ok 2 := by rfl
  obtain ⟨⟨p, hp, -, hleast⟩, -, -⟩ :=
    a_search_finds_the_first_slice start htext hneedle hstart (by decide)
  have hfound : Excerpt.instr text needle 2 = 4 := by decide +kernel
  have hfour : Returns "INSTR" [.string text, .string needle, start] (.integer 4) := by
    have hreturns := returns_instr text needle hstart (by decide)
    change Returns _ _ (.integer (Int64.ofNat (Excerpt.instr text needle 2))) at hreturns
    rwa [hfound] at hreturns
  cases hp.unique hfour
  exact ⟨htext, hneedle, hstart, by decide, hfour, hleast (by decide)⟩

end LineBasic
