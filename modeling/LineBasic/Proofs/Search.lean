-- What the searches for the lines of a block find: a line of the right indent,
-- on the right side, that is one of those looked for.
import LineBasic.Program.Block

namespace LineBasic

/-- A search for statements of one role does not look for others. -/
theorem Statement.not_wanted_of_role {wanted : Statement → Bool} {role : Role} {st : Statement}
    (h : ∀ st, wanted st = true → st.role = role) (hr : st.role ≠ role) : wanted st = false := by
  cases hw : wanted st with
  | false => rfl
  | true => exact absurd (h st hw) hr

namespace Program

theorem lt_size_of_statement? {p : Program} {i : Nat} {st : Statement}
    (h : p.statement? i = some st) : i < p.size := by
  unfold statement? line? at h
  obtain ⟨l, hl, _⟩ := Option.map_eq_some_iff.1 h
  exact (List.getElem?_eq_some_iff.1 hl).1

/-- A line at which a search stops with success. -/
theorem look_eq_found {indent : Nat} {wanted : Statement → Bool} {l : Line} :
    look indent wanted l = .found ↔ l.indent = indent ∧ wanted l.statement = true := by
  unfold look
  split
  · simp only [reduceCtorEq, false_iff]
    omega
  · split
    · rename_i he
      split
      · simp [*]
      · split <;> simp [*]
    · simp [*]

theorem look_eq_onward {indent : Nat} {wanted : Statement → Bool} {l : Line}
    (h : indent < l.indent ∨ l.indent = indent ∧ wanted l.statement = false ∧ l.role = .clause) :
    look indent wanted l = .onward := by
  unfold look
  rcases h with h | ⟨hi, hw, hr⟩
  · rw [if_neg (by omega), if_neg (by omega)]
  · rw [if_neg (by omega), if_pos hi, hw, if_neg (by simp), if_pos hr]

/-! ## Up -/

/-- A search up finds a line above. -/
theorem searchUp_lt {indent : Nat} {wanted : Statement → Bool} {l : List Line} {i : Nat}
    (h : searchUp indent wanted l = some i) : i < l.length := by
  induction l with
  | nil => cases h
  | cons a rest ih =>
    rw [searchUp] at h
    split at h
    · cases h
      exact Nat.lt_succ_self _
    · exact Nat.lt_succ_of_lt (ih h)
    · cases h

/-- A search up finds a line that it looks for. -/
theorem searchUp_wanted {indent : Nat} {wanted : Statement → Bool} {l : List Line} {i : Nat}
    (h : searchUp indent wanted l = some i) :
    ∃ a, l.reverse[i]? = some a ∧ wanted a.statement = true := by
  induction l with
  | nil => cases h
  | cons a rest ih =>
    rw [searchUp] at h
    rw [List.reverse_cons]
    split at h
    · rename_i hl
      cases h
      refine ⟨a, by simp, ?_⟩
      exact (look_eq_found.1 hl).2
    · obtain ⟨b, hb, hw⟩ := ih h
      refine ⟨b, ?_, hw⟩
      rw [List.getElem?_append_left, hb]
      exact (List.getElem?_eq_some_iff.1 hb).1
    · cases h

/-- A search up goes past lines that it passes. -/
theorem searchUp_skip {indent : Nat} {wanted : Statement → Bool} {l m : List Line}
    (h : ∀ a ∈ l, look indent wanted a = .onward) :
    searchUp indent wanted (l ++ m) = searchUp indent wanted m := by
  induction l with
  | nil => rfl
  | cons a rest ih =>
    have ha := h a List.mem_cons_self
    simp only [List.cons_append, searchUp, ha]
    exact ih fun b hb => h b (List.mem_cons_of_mem a hb)

/-- The line that `opener` finds is above and is one that it looks for. -/
theorem opener_eq_some {p : Program} {place first : Nat} {wanted : Statement → Bool}
    (h : p.opener place wanted = some first) :
    first < place ∧ ∃ st, p.statement? first = some st ∧ wanted st = true := by
  unfold opener at h
  split at h
  · cases h
  · rename_i l hl
    have hlt := searchUp_lt h
    obtain ⟨a, ha, hw⟩ := searchUp_wanted h
    rw [List.reverse_reverse] at ha
    simp only [List.length_reverse, List.length_take] at hlt
    refine ⟨by omega, a.statement, ?_, hw⟩
    rw [List.getElem?_take_of_lt (by omega)] at ha
    simp [statement?, line?, ha]

/-- The line that `subPlace?` finds holds a SUB. -/
theorem subPlace?_eq_some {p : Program} {name : Name} {first : Nat}
    (h : p.subPlace? name = some first) :
    ∃ other params, p.statement? first = some (.sub other params) ∧ other.alike name = true := by
  unfold subPlace? at h
  rw [List.findIdx?_eq_some_iff_getElem] at h
  obtain ⟨hi, ht, _⟩ := h
  split at ht
  · rename_i other params hs
    refine ⟨other, params, ?_, ht⟩
    simp [statement?, line?, hi, hs]
  · cases ht

/-! ## Down -/

theorem searchDown_eq_some {indent place i : Nat} {wanted : Statement → Bool} {l : List Line}
    (h : searchDown indent wanted place l = some i) :
    place ≤ i ∧ ∃ a, l[i - place]? = some a ∧ a.indent = indent ∧ wanted a.statement = true := by
  induction l generalizing place with
  | nil => cases h
  | cons a rest ih =>
    rw [searchDown] at h
    split at h
    · rename_i hl
      cases h
      refine ⟨Nat.le_refl _, a, by simp, look_eq_found.1 hl⟩
    · obtain ⟨hle, b, hb, hw⟩ := ih h
      refine ⟨by omega, b, ?_, hw⟩
      rw [show i - place = (i - (place + 1)) + 1 by omega, List.getElem?_cons_succ]
      exact hb
    · cases h

/-- A search down goes past lines that it passes. -/
theorem searchDown_skip {indent place : Nat} {wanted : Statement → Bool} {l m : List Line}
    (h : ∀ a ∈ l, look indent wanted a = .onward) :
    searchDown indent wanted place (l ++ m) = searchDown indent wanted (place + l.length) m := by
  induction l generalizing place with
  | nil => rfl
  | cons a rest ih =>
    have ha := h a List.mem_cons_self
    simp only [List.cons_append, searchDown, ha, List.length_cons]
    rw [ih fun b hb => h b (List.mem_cons_of_mem a hb), Nat.add_right_comm, Nat.add_assoc]

/-- The line that `closer` finds is below and is one that it looks for. -/
theorem closer_eq_some {p : Program} {start i : Nat} {wanted : Statement → Bool}
    (h : p.closer start wanted = some i) :
    start < i ∧ i < p.size ∧ ∃ st, p.statement? i = some st ∧ wanted st = true := by
  unfold closer at h
  split at h
  · cases h
  · obtain ⟨hle, a, ha, _, hw⟩ := searchDown_eq_some h
    rw [List.getElem?_drop, show start + 1 + (i - (start + 1)) = i by omega] at ha
    refine ⟨hle, (List.getElem?_eq_some_iff.1 ha).1, a.statement, ?_, hw⟩
    simp [statement?, line?, ha]

/-- A search that stops at every line that another looks for ends before it. -/
theorem searchDown_lt {indent place i j : Nat} {wanted other : Statement → Bool} {l : List Line}
    (hi : searchDown indent wanted place l = some i) (hj : searchDown indent other place l = some j)
    (hstop : ∀ st, other st = true → wanted st = false ∧ st.role ≠ .clause) : i < j := by
  induction l generalizing place with
  | nil => cases hi
  | cons a rest ih =>
    cases hlj : look indent other a with
    | found =>
      -- The first search cannot go past the line that the second one found.
      obtain ⟨hindent, hw⟩ := look_eq_found.1 hlj
      obtain ⟨hnot, hrole⟩ := hstop _ hw
      have hla : look indent wanted a = .stop := by
        unfold look
        rw [if_neg (by omega), if_pos hindent, hnot]
        simp [Line.role, hrole]
      simp [searchDown, hla] at hi
    | stop => simp [searchDown, hlj] at hj
    | onward =>
      simp only [searchDown, hlj] at hj
      have hplace := (searchDown_eq_some hj).1
      cases hla : look indent wanted a with
      | found =>
        simp only [searchDown, hla, Option.some.injEq] at hi
        omega
      | stop => simp [searchDown, hla] at hi
      | onward =>
        simp only [searchDown, hla] at hi
        exact ih hi hj

/-- A clause that is found from the head of a block stands before the end of the block. -/
theorem closer_lt_closer {p : Program} {start i j : Nat} {wanted other : Statement → Bool}
    (hi : p.closer start wanted = some i) (hj : p.closer start other = some j)
    (hstop : ∀ st, other st = true → wanted st = false ∧ st.role ≠ .clause) : i < j := by
  unfold closer at hi hj
  split at hi
  · cases hi
  · rename_i l hl
    simp only [hl] at hj
    exact searchDown_lt hi hj hstop

end Program

end LineBasic
