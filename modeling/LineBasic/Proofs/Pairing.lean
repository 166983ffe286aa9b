-- Opening and closing lines come in pairs. The search down from an opening line
-- and the search up from a closing line stop under the same conditions, so each
-- finds the other whatever the indents are, and two pairs of one text never cross.
import LineBasic.Proofs.Around

namespace LineBasic.Program

variable {p : Program} {level a z b y : Nat} {wanted opens closes opens' closes' : Statement → Bool}

/-! ## Both searches by what is between -/

/-- A search down for the last line of a block finds it if it looks for it. -/
theorem Spans.closer_of_wanted {st : Statement} (h : p.Spans level a z)
    (hst : p.statement? z = some st) (hw : wanted st = true)
    (hc : ∀ st, wanted st = true → st.role = .closer) : p.closer a wanted = some z := by
  obtain ⟨la, hla, rfl⟩ := h.low
  obtain ⟨lz, hlz, hiz⟩ := h.high
  obtain ⟨lc, hlc, rfl⟩ := line_of_statement? hst
  cases hlz.symm.trans hlc
  have hlt := h.lt
  obtain ⟨hz, hget⟩ := List.getElem?_eq_some_iff.1 hlz
  -- The lines below `a`: those between, and then `z`.
  have hsplit : p.lines.drop (a + 1) =
      (p.lines.drop (a + 1)).take (z - (a + 1)) ++ lz :: p.lines.drop (z + 1) := by
    have hrest : (p.lines.drop (a + 1)).drop (z - (a + 1)) = lz :: p.lines.drop (z + 1) := by
      rw [List.drop_drop, show a + 1 + (z - (a + 1)) = z by omega, ← hget]
      exact List.drop_eq_getElem_cons hz
    rw [← hrest, List.take_append_drop]
  have hlength : ((p.lines.drop (a + 1)).take (z - (a + 1))).length = z - (a + 1) := by
    simp only [List.length_take, List.length_drop]
    omega
  unfold closer
  rw [show p.lines[a]? = some la from hla]
  dsimp only
  rw [hsplit, searchDown_skip, searchDown, look_eq_found.2 ⟨hiz, hw⟩, hlength]
  · apply congrArg some
    omega
  · intro c hc'
    obtain ⟨j, hj⟩ := List.mem_iff_getElem?.1 hc'
    have hjz : j < z - (a + 1) := by
      have := (List.getElem?_eq_some_iff.1 hj).1
      omega
    rw [List.getElem?_take_of_lt hjz, List.getElem?_drop] at hj
    obtain ⟨d, hd, hp⟩ := h.inner (a + 1 + j) (by omega) (by omega)
    cases hj.symm.trans hd
    apply look_eq_onward
    rcases hp with hp | ⟨hi, hr⟩
    · exact Or.inl hp
    · exact Or.inr ⟨hi, Statement.not_wanted_of_role hc (by rw [← Line.role, hr]; simp), hr⟩

/-- A search down for closing lines finds the line that ends a stretch. -/
theorem closer_eq_some_iff (hc : ∀ st, wanted st = true → st.role = .closer) :
    p.closer a wanted = some z ↔
      (∃ level, p.Spans level a z) ∧ ∃ st, p.statement? z = some st ∧ wanted st = true := by
  constructor
  · intro h
    exact ⟨closer_spans h, (closer_eq_some h).2.2⟩
  · rintro ⟨⟨level, h⟩, st, hst, hw⟩
    exact h.closer_of_wanted hst hw hc

/-- A search up for opening lines finds the line that begins a stretch. -/
theorem opener_eq_some_iff (ho : ∀ st, wanted st = true → st.role = .opener) :
    p.opener z wanted = some a ↔
      (∃ level, p.Spans level a z) ∧ ∃ st, p.statement? a = some st ∧ wanted st = true := by
  constructor
  · intro h
    exact ⟨opener_spans h, (opener_eq_some h).2⟩
  · rintro ⟨⟨level, h⟩, st, hst, hw⟩
    exact h.opener_of_wanted hst hw ho

/-! ## Pairs -/

/-- A line is one that a search looks for. -/
def LineIs (p : Program) (i : Nat) (wanted : Statement → Bool) : Prop :=
  ∃ st, p.statement? i = some st ∧ wanted st = true

/-- The search down from an opening line finds a closing line. -/
structure Paired (p : Program) (opens closes : Statement → Bool) (a z : Nat) : Prop where
  first : p.LineIs a opens
  last : p.LineIs z closes
  found : p.closer a closes = some z

/-- A line of another role than a clause, between the lines of a pair, stands further in. -/
theorem Spans.deeper_of_lineIs {role : Role} (h : p.Spans level a z) (hb : p.LineIs b wanted)
    (hw : ∀ st, wanted st = true → st.role = role) (hr : role ≠ .clause) (hab : a < b)
    (hbz : b < z) : ∃ l, p.line? b = some l ∧ level < l.indent := by
  obtain ⟨st, hst, hwst⟩ := hb
  apply h.deeper hab hbz hst
  rw [hw st hwst]
  exact hr

/-- Of two pairs, the one that begins first ends before the other begins or after it ends. -/
theorem Paired.apart_or_inside (h : p.Paired opens closes a z) (h' : p.Paired opens' closes' b y)
    (ho : ∀ st, opens' st = true → st.role = .opener)
    (hc : ∀ st, closes st = true → st.role = .closer) (hab : a < b) : z < b ∨ y < z := by
  obtain ⟨level, hs⟩ := closer_spans h.found
  obtain ⟨inside, hs'⟩ := closer_spans h'.found
  rcases Nat.lt_trichotomy z b with hlt | rfl | hgt
  · exact Or.inl hlt
  · -- One line cannot close a block and open another.
    obtain ⟨st, hst, hw⟩ := h.last
    obtain ⟨st', hst', hw'⟩ := h'.first
    cases hst.symm.trans hst'
    cases (ho st hw').symm.trans (hc st hw)
  · obtain ⟨l, hl, hdeep⟩ := hs.deeper_of_lineIs h'.first ho (by simp) hab hgt
    obtain ⟨l', hl', hi⟩ := hs'.low
    cases hl.symm.trans hl'
    exact Or.inr (hs.last_lt hs' hgt (by omega))

/-- An opening line has one closing line, whatever is looked for. -/
theorem Paired.last_unique (h : p.Paired opens closes a z) (h' : p.Paired opens' closes' a y)
    (hc : ∀ st, closes st = true → st.role = .closer)
    (hc' : ∀ st, closes' st = true → st.role = .closer) : z = y := by
  obtain ⟨level, hs⟩ := closer_spans h.found
  obtain ⟨level', hs'⟩ := closer_spans h'.found
  obtain ⟨st, hst, hw⟩ := h.last
  obtain ⟨st', hst', hw'⟩ := h'.last
  apply Nat.le_antisymm
  · exact hs'.closer_le hst' (by simp [hc' st' hw']) h.found
  · exact hs.closer_le hst (by simp [hc st hw]) h'.found

/-! ## Symmetry, and no crossing -/

/-- Take any text, with any indents, and any choice of opening and closing lines. An
opening line finds a closing line by the search down if and only if that one finds it by
the search up. Of two pairs that are found so, for one choice or for two, the lines are
apart or those of one contain those of the other. -/
theorem pairs_are_mutual_and_never_cross (p : Program)
    (ho : ∀ st, opens st = true → st.role = .opener)
    (hc : ∀ st, closes st = true → st.role = .closer)
    (ho' : ∀ st, opens' st = true → st.role = .opener)
    (hc' : ∀ st, closes' st = true → st.role = .closer) :
    (∀ a z, p.LineIs a opens → p.LineIs z closes →
      (p.closer a closes = some z ↔ p.opener z opens = some a)) ∧
    ∀ a z b y, p.Paired opens closes a z → p.Paired opens' closes' b y →
      (z < b ∨ y < a) ∨ (a ≤ b ∧ y ≤ z) ∨ (b ≤ a ∧ z ≤ y) := by
  constructor
  · intro a z ha hz
    rw [closer_eq_some_iff hc, opener_eq_some_iff ho]
    constructor
    · rintro ⟨hs, -⟩
      exact ⟨hs, ha⟩
    · rintro ⟨hs, -⟩
      exact ⟨hs, hz⟩
  · intro a z b y h h'
    rcases Nat.lt_trichotomy a b with hlt | rfl | hgt
    · rcases h.apart_or_inside h' ho' hc hlt with hz | hy
      · exact Or.inl (Or.inl hz)
      · exact Or.inr (Or.inl ⟨Nat.le_of_lt hlt, Nat.le_of_lt hy⟩)
    · have hzy := h.last_unique h' hc hc'
      exact Or.inr (Or.inl ⟨Nat.le_refl a, Nat.le_of_eq hzy.symm⟩)
    · rcases h'.apart_or_inside h ho hc' hgt with hy | hz
      · exact Or.inl (Or.inr hy)
      · exact Or.inr (Or.inr ⟨Nat.le_of_lt hgt, Nat.le_of_lt hz⟩)

/-- A loop in a loop with ragged indents and a clause that belongs to neither. -/
def ragged : Program :=
  .ofLines [⟨2, .while (.integer 1)⟩, ⟨7, .do .always⟩, ⟨9, .remark ""⟩, ⟨7, .loop .always⟩,
    ⟨2, .else⟩, ⟨2, .wend⟩, ⟨0, .wend⟩]

/-- The WHILE and the first WEND find each other, and the DO loop is inside. -/
theorem ragged_loops_are_mutual_and_never_cross :
    (ragged.closer 0 Statement.closesWhile = some 5 ∧
      ragged.opener 5 Statement.opensWhile = some 0) ∧
    ((5 < 1 ∨ 3 < 0) ∨ (0 ≤ 1 ∧ 3 ≤ 5) ∨ (1 ≤ 0 ∧ 5 ≤ 3)) := by
  have hopens : ∀ st, Statement.opensWhile st = true → st.role = .opener :=
    fun _ h => (@Statement.opens_of_openedBy .wend _ h).1
  have hopens' : ∀ st, Statement.opensDo st = true → st.role = .opener :=
    fun _ h => (@Statement.opens_of_openedBy (.loop .always) _ h).1
  have hcloses : ∀ st, Statement.closesWhile st = true → st.role = .closer :=
    fun _ h => Statement.role_of_closedBy (o := .while (.integer 1)) h
  have hcloses' : ∀ st, Statement.closesDo st = true → st.role = .closer :=
    fun _ h => Statement.role_of_closedBy (o := .do .always) h
  obtain ⟨hmutual, hcross⟩ :=
    pairs_are_mutual_and_never_cross ragged hopens hcloses hopens' hcloses'
  have hwhile : ragged.LineIs 0 Statement.opensWhile := ⟨_, rfl, rfl⟩
  have hwend : ragged.LineIs 5 Statement.closesWhile := ⟨_, rfl, rfl⟩
  have hdo : ragged.LineIs 1 Statement.opensDo := ⟨_, rfl, rfl⟩
  have hloop : ragged.LineIs 3 Statement.closesDo := ⟨_, rfl, rfl⟩
  have hfound : ragged.closer 0 Statement.closesWhile = some 5 := by decide
  have hfound' : ragged.closer 1 Statement.closesDo = some 3 := by decide
  exact ⟨⟨hfound, (hmutual 0 5 hwhile hwend).1 hfound⟩,
    hcross 0 5 1 3 ⟨hwhile, hwend, hfound⟩ ⟨hdo, hloop, hfound'⟩⟩

end LineBasic.Program
