-- What stands between two lines of a block. The own lines of a block share one
-- indent, and all that is between them stands further in or is a clause. So a
-- search that starts in between ends in between, and two blocks of one text are
-- apart or one is inside the other.
import LineBasic.Proofs.Moves
import LineBasic.Proofs.Search

namespace LineBasic

namespace Program

/-! ## Searches by place -/

/-- A line that a search at an indent goes past. -/
def Passes (indent : Nat) (l : Line) : Prop :=
  indent < l.indent ∨ l.indent = indent ∧ l.role = .clause

theorem passes_of_look {indent : Nat} {wanted : Statement → Bool} {l : Line}
    (h : look indent wanted l = .onward) : Passes indent l := by
  unfold look at h
  split at h
  · cases h
  · split at h
    · rename_i hi
      split at h
      · cases h
      · split at h
        · rename_i hr
          exact Or.inr ⟨hi, hr⟩
        · cases h
    · exact Or.inl (by omega)

theorem searchDown_passes {indent place i : Nat} {wanted : Statement → Bool} {l : List Line}
    (h : searchDown indent wanted place l = some i) :
    ∀ j, place ≤ j → j < i → ∃ a, l[j - place]? = some a ∧ Passes indent a := by
  induction l generalizing place with
  | nil => cases h
  | cons a rest ih =>
    intro j hj hji
    rw [searchDown] at h
    split at h
    · cases h
      omega
    · rename_i hl
      rcases Nat.eq_or_lt_of_le hj with rfl | hlt
      · exact ⟨a, by simp, passes_of_look hl⟩
      · obtain ⟨b, hb, hp⟩ := ih h j hlt hji
        refine ⟨b, ?_, hp⟩
        rw [show j - place = (j - (place + 1)) + 1 by omega, List.getElem?_cons_succ]
        exact hb
    · cases h

theorem searchUp_passes {indent i : Nat} {wanted : Statement → Bool} {l : List Line}
    (h : searchUp indent wanted l = some i) :
    (∃ a, l.reverse[i]? = some a ∧ a.indent = indent) ∧
      ∀ j, i < j → j < l.length → ∃ a, l.reverse[j]? = some a ∧ Passes indent a := by
  induction l with
  | nil => cases h
  | cons a rest ih =>
    rw [searchUp] at h
    rw [List.reverse_cons, List.length_cons]
    split at h
    · rename_i hl
      cases h
      refine ⟨⟨a, by simp, (look_eq_found.1 hl).1⟩, fun j hj hj' => ?_⟩
      omega
    · rename_i hl
      obtain ⟨⟨b, hb, hi⟩, hall⟩ := ih h
      have hlt : i < rest.reverse.length := (List.getElem?_eq_some_iff.1 hb).1
      refine ⟨⟨b, by rw [List.getElem?_append_left hlt, hb], hi⟩, fun j hj hj' => ?_⟩
      rcases Nat.lt_or_ge j rest.length with hjl | hjl
      · obtain ⟨c, hc, hp⟩ := hall j hj hjl
        refine ⟨c, ?_, hp⟩
        rw [List.getElem?_append_left (by simpa using hjl), hc]
      · obtain rfl : j = rest.length := by omega
        exact ⟨a, by simp, passes_of_look hl⟩
    · cases h

/-! ## Between two lines of a block -/

/-- Lines `a` and `z` stand at one indent, and a search at that indent goes past
all lines between them. -/
structure Spans (p : Program) (level a z : Nat) : Prop where
  lt : a < z
  low : ∃ l, p.line? a = some l ∧ l.indent = level
  high : ∃ l, p.line? z = some l ∧ l.indent = level
  inner : ∀ i, a < i → i < z → ∃ l, p.line? i = some l ∧ Passes level l

variable {p : Program} {level a z b y : Nat} {wanted : Statement → Bool}

theorem closer_spans (h : p.closer a wanted = some z) : ∃ level, p.Spans level a z := by
  unfold closer at h
  split at h
  · cases h
  · rename_i l hl
    obtain ⟨hle, c, hc, hi, _⟩ := searchDown_eq_some h
    rw [List.getElem?_drop, show a + 1 + (z - (a + 1)) = z by omega] at hc
    refine ⟨l.indent, hle, ⟨l, hl, rfl⟩, ⟨c, hc, hi⟩, fun i hai hiz => ?_⟩
    obtain ⟨d, hd, hp⟩ := searchDown_passes h i hai hiz
    rw [List.getElem?_drop, show a + 1 + (i - (a + 1)) = i by omega] at hd
    exact ⟨d, hd, hp⟩

theorem opener_spans (h : p.opener z wanted = some a) : ∃ level, p.Spans level a z := by
  unfold opener at h
  split at h
  · cases h
  · rename_i l hl
    have hlt := searchUp_lt h
    have hz : z < p.lines.length := (List.getElem?_eq_some_iff.1 hl).1
    simp only [List.length_reverse, List.length_take] at hlt
    obtain ⟨⟨c, hc, hi⟩, hall⟩ := searchUp_passes h
    rw [List.reverse_reverse, List.getElem?_take_of_lt (by omega)] at hc
    refine ⟨l.indent, by omega, ⟨c, hc, hi⟩, ⟨l, hl, rfl⟩, fun i hai hiz => ?_⟩
    obtain ⟨d, hd, hp⟩ := hall i hai (by simp only [List.length_reverse, List.length_take]; omega)
    rw [List.reverse_reverse, List.getElem?_take_of_lt hiz] at hd
    exact ⟨d, hd, hp⟩

theorem line_of_statement? {i : Nat} {st : Statement} (h : p.statement? i = some st) :
    ∃ l, p.line? i = some l ∧ l.statement = st := Option.map_eq_some_iff.1 h

namespace Spans

/-- What is between and is no clause stands further in. -/
theorem deeper {st : Statement} (h : p.Spans level a z) (ha : a < b) (hz : b < z)
    (hst : p.statement? b = some st) (hr : st.role ≠ .clause) :
    ∃ l, p.line? b = some l ∧ level < l.indent := by
  obtain ⟨l, hl, hp⟩ := h.inner b ha hz
  obtain ⟨l', hl', rfl⟩ := line_of_statement? hst
  cases hl.symm.trans hl'
  rcases hp with hp | ⟨_, hc⟩
  · exact ⟨l, hl, hp⟩
  · exact absurd hc hr

/-- Two stretches that start one inside the other end so. -/
theorem last_lt {inside : Nat} (h : p.Spans level a z) (h' : p.Spans inside b y) (hz : b < z)
    (hi : level < inside) : y < z := by
  obtain ⟨lz, hlz, hiz⟩ := h.high
  rcases Nat.lt_trichotomy y z with hlt | rfl | hgt
  · exact hlt
  · obtain ⟨l, hl, hy⟩ := h'.high
    cases hl.symm.trans hlz
    omega
  · obtain ⟨l, hl, hp⟩ := h'.inner z hz hgt
    cases hl.symm.trans hlz
    rcases hp with hp | hp <;> omega

/-- Two stretches that end one inside the other start so. -/
theorem lt_first {inside : Nat} (h : p.Spans level a z) (h' : p.Spans inside y b) (ha : a < b)
    (hi : level < inside) : a < y := by
  obtain ⟨la, hla, hia⟩ := h.low
  rcases Nat.lt_trichotomy a y with hlt | rfl | hgt
  · exact hlt
  · obtain ⟨l, hl, hy⟩ := h'.low
    cases hl.symm.trans hla
    omega
  · obtain ⟨l, hl, hp⟩ := h'.inner a hgt ha
    cases hl.symm.trans hla
    rcases hp with hp | hp <;> omega

/-- A search down from further in ends before the last line. -/
theorem closer_lt {l : Line} (h : p.Spans level a z) (hz : b < z)
    (hl : p.line? b = some l) (hi : level < l.indent) (hc : p.closer b wanted = some y) :
    y < z := by
  obtain ⟨inside, h'⟩ := closer_spans hc
  obtain ⟨l', hl', rfl⟩ := h'.low
  cases hl.symm.trans hl'
  exact h.last_lt h' hz hi

/-- A search up from further in ends after the first line. -/
theorem lt_opener {l : Line} (h : p.Spans level a z) (ha : a < b)
    (hl : p.line? b = some l) (hi : level < l.indent) (hc : p.opener b wanted = some y) :
    a < y := by
  obtain ⟨inside, h'⟩ := opener_spans hc
  obtain ⟨l', hl', rfl⟩ := h'.high
  cases hl.symm.trans hl'
  exact h.lt_first h' ha hi

/-- A search up for the first line of a block, from a line that shares the indent of
one around it, finds that one. -/
theorem opener_eq {st : Statement} (h : p.Spans level a z) (hst : p.statement? a = some st)
    (hr : st.role = .opener) (ha : a < b) (hz : b ≤ z)
    (hb : ∃ l, p.line? b = some l ∧ l.indent = level)
    (hw : ∀ st, wanted st = true → st.role = .opener) (ho : p.opener b wanted = some y) :
    y = a := by
  obtain ⟨other, h'⟩ := opener_spans ho
  obtain ⟨l, hl, hi⟩ := hb
  obtain ⟨l', hl', hi'⟩ := h'.high
  cases hl.symm.trans hl'
  obtain rfl : other = level := by omega
  rcases Nat.lt_trichotomy y a with hlt | heq | hgt
  · obtain ⟨la, hla, hia⟩ := h.low
    obtain ⟨lb, hlb, hp⟩ := h'.inner a hlt ha
    cases hla.symm.trans hlb
    obtain ⟨lc, hlc, rfl⟩ := line_of_statement? hst
    cases hla.symm.trans hlc
    rcases hp with hp | ⟨_, hc⟩
    · omega
    · cases hr.symm.trans hc
  · exact heq
  · obtain ⟨_, o, ho', hwo⟩ := opener_eq_some ho
    obtain ⟨lo, hlo, hio⟩ := h'.low
    obtain ⟨lc, hlc, hstep⟩ := h.deeper hgt (by have := h'.lt; omega) ho' (by simp [hw o hwo])
    cases hlo.symm.trans hlc
    omega

/-- A search up for the first line of a block finds it if it looks for it. -/
theorem opener_of_wanted {st : Statement} (h : p.Spans level a z) (hst : p.statement? a = some st)
    (hw : wanted st = true) (hc : ∀ st, wanted st = true → st.role = .opener) :
    p.opener z wanted = some a := by
  obtain ⟨l, hl, rfl⟩ := h.high
  obtain ⟨la, hla, hia⟩ := h.low
  obtain ⟨lb, hlb, rfl⟩ := line_of_statement? hst
  cases hla.symm.trans hlb
  have hlt := h.lt
  have hz : z < p.lines.length := (List.getElem?_eq_some_iff.1 hl).1
  -- The lines above `z`, from the last to the first: those between, and then `a`.
  have hsplit : (p.lines.take z).reverse =
      ((p.lines.take z).drop (a + 1)).reverse ++ (la :: (p.lines.take a).reverse) := by
    have ha : a < (p.lines.take z).length := by
      rw [List.length_take]
      omega
    have hget : (p.lines.take z)[a]? = some la := (List.getElem?_take_of_lt hlt).trans hla
    have hcut : p.lines.take z = p.lines.take a ++ la :: (p.lines.take z).drop (a + 1) := by
      obtain ⟨_, hga⟩ := List.getElem?_eq_some_iff.1 hget
      rw [← hga, ← List.drop_eq_getElem_cons ha]
      have htake : (p.lines.take z).take a = p.lines.take a := by
        rw [List.take_take, Nat.min_eq_left (Nat.le_of_lt hlt)]
      rw [← htake, List.take_append_drop]
    rw [congrArg List.reverse hcut]
    simp
  unfold opener
  rw [show p.lines[z]? = some l from hl]
  dsimp only
  rw [hsplit, searchUp_skip, searchUp, look_eq_found.2 ⟨hia, hw⟩]
  · simp only [List.length_reverse, List.length_take]
    exact congrArg some (by omega)
  · intro c hc'
    obtain ⟨j, hj⟩ := List.mem_iff_getElem?.1 (List.mem_reverse.1 hc')
    rw [List.getElem?_drop] at hj
    have hjz : a + 1 + j < z := by
      have := (List.getElem?_eq_some_iff.1 hj).1
      rw [List.length_take] at this
      omega
    rw [List.getElem?_take_of_lt hjz] at hj
    obtain ⟨d, hd, hp⟩ := h.inner (a + 1 + j) (by omega) hjz
    cases hj.symm.trans hd
    refine look_eq_onward ?_
    rcases hp with hp | ⟨hi, hr⟩
    · exact Or.inl hp
    · exact Or.inr ⟨hi, Statement.not_wanted_of_role hc (by rw [← Line.role, hr]; simp), hr⟩

/-- A search down ends at the first line of its indent that is no clause, or before. -/
theorem closer_le {st : Statement} (h : p.Spans level a z) (hst : p.statement? z = some st)
    (hr : st.role ≠ .clause) (hc : p.closer a wanted = some y) : y ≤ z := by
  obtain ⟨other, h'⟩ := closer_spans hc
  obtain ⟨l, hl, rfl⟩ := h.low
  obtain ⟨l', hl', rfl⟩ := h'.low
  cases hl.symm.trans hl'
  rcases Nat.lt_or_ge z y with hlt | hge
  · obtain ⟨lz, hlz, hi⟩ := h'.deeper h.lt hlt hst hr
    obtain ⟨lh, hlh, hih⟩ := h.high
    cases hlz.symm.trans hlh
    omega
  · exact hge

end Spans

end Program

end LineBasic
