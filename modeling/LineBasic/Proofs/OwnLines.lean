-- The layout of a well-nested text and the searches for blocks undo each other. The
-- own lines of a block are its first line, its clauses and its last line. A search
-- from one of them sees the others, nearest first, and no line of another block,
-- whatever stands in the block and beside it.
import LineBasic.Proofs.Around
import LineBasic.Proofs.Nesting

namespace LineBasic

/-! ## The blocks of a text -/

/-- A block of a text: where it starts, its first line, and all that follows that line. -/
structure Block where
  place : Nat
  first : Statement
  parts : Parts

mutual

/-- The blocks of a body that starts at `place`, each before those inside it. -/
def Body.blocks : (place : Nat) → Body → List Block
  | _, .nil => []
  | place, .line _ rest => rest.blocks (place + 1)
  | place, .block first parts rest =>
    ⟨place, first, parts⟩ :: (parts.blocks (place + 1) ++ rest.blocks (place + parts.size + 1))

def Parts.blocks : (place : Nat) → Parts → List Block
  | place, .last body _ => body.blocks place
  | place, .clause body _ rest => body.blocks place ++ rest.blocks (place + body.size + 1)

end

/-- The clauses of a block and its last line, with their places. -/
def Parts.marks : (place : Nat) → Parts → List (Nat × Statement)
  | place, .last body closing => [(place + body.size, closing)]
  | place, .clause body dividing rest =>
    (place + body.size, dividing) :: rest.marks (place + body.size + 1)

namespace Block

/-- The clauses of a block and its last line. -/
def marks (k : Block) : List (Nat × Statement) := k.parts.marks (k.place + 1)

/-- The own lines of a block. -/
def lines (k : Block) : List (Nat × Statement) := (k.place, k.first) :: k.marks

/-- The place of the last line of a block. -/
def last (k : Block) : Nat := k.place + k.parts.size

end Block

/-- The place of the nearest of some lines that a search looks for. -/
def nearestMark (wanted : Statement → Bool) (lines : List (Nat × Statement)) : Option Nat :=
  (lines.find? fun x => wanted x.2).map (·.1)

@[simp] theorem nearestMark_nil (wanted : Statement → Bool) : nearestMark wanted [] = none := rfl

theorem nearestMark_cons (wanted : Statement → Bool) (x : Nat × Statement)
    (l : List (Nat × Statement)) :
    nearestMark wanted (x :: l) = if wanted x.2 then some x.1 else nearestMark wanted l := by
  unfold nearestMark
  rw [List.find?_cons]
  cases wanted x.2 <;> rfl

/-- Lines that are not looked for make no difference. -/
theorem nearestMark_append_of_not {wanted : Statement → Bool} {l m : List (Nat × Statement)}
    (h : ∀ x ∈ l, wanted x.2 = false) : nearestMark wanted (l ++ m) = nearestMark wanted m := by
  induction l with
  | nil => rfl
  | cons x rest ih =>
    rw [List.cons_append, nearestMark_cons, h x List.mem_cons_self]
    simp only [Bool.false_eq_true, if_false]
    apply ih
    intro y hy
    exact h y (List.mem_cons_of_mem x hy)

/-- A search of a tree and a search of its marks are the same. -/
theorem Parts.find_eq_nearestMark (wanted : Statement → Bool) : (parts : Parts) → (place : Nat) →
    parts.find wanted place = nearestMark wanted (parts.marks place)
  | .last body closing, place => by
    rw [Parts.find, Parts.marks, nearestMark_cons, nearestMark_nil]
  | .clause body dividing rest, place => by
    rw [Parts.find, Parts.marks, nearestMark_cons, rest.find_eq_nearestMark wanted]

/-- Clauses come first, and the last line is the only one that ends the block. -/
theorem Parts.marks_eq {first : Statement} : (parts : Parts) → (place : Nat) →
    parts.nested first = true →
    ∃ clauses closing, parts.marks (place + 1) = clauses ++ [(place + parts.size, closing)] ∧
      (∀ x ∈ clauses, first.divides x.2 = true) ∧ first.ends closing = true
  | .last body closing, place, h => by
    simp only [Parts.nested, Bool.and_eq_true] at h
    refine ⟨[], closing, ?_, by simp, h.2⟩
    simp only [Parts.marks, Parts.size, List.nil_append]
    rw [Nat.add_right_comm, Nat.add_assoc]
  | .clause body dividing rest, place, h => by
    simp only [Parts.nested, Bool.and_eq_true] at h
    obtain ⟨clauses, closing, hmarks, hdivides, hends⟩ :=
      rest.marks_eq (place + 1 + body.size) h.2
    refine ⟨(place + 1 + body.size, dividing) :: clauses, closing, ?_, ?_, hends⟩
    · have hlast : place + 1 + body.size + rest.size = place + (body.size + rest.size + 1) := by
        omega
      rw [Parts.marks, hmarks, Parts.size, hlast, List.cons_append]
    · intro x hx
      rcases List.mem_cons.1 hx with rfl | hx
      · exact h.1.2
      · exact hdivides x hx

/-! ## Searches from the lines of a block -/

section Searches

variable {p : Program} {first : Statement} {level place : Nat}

/-- A program has a block at an indent. -/
structure Block.StandsAt (p : Program) (level : Nat) (k : Block) : Prop where
  lays : p.Lays k.place (⟨level, k.first⟩ :: k.parts.laid level)
  nested : k.parts.nested k.first = true

mutual

/-- Each block of a text that is laid out stands in the program. -/
theorem Body.standsAt (level : Nat) : (b : Body) → (place : Nat) → b.nested = true →
    p.Lays place (b.laid level) → ∀ k ∈ b.blocks place, ∃ inside, k.StandsAt p inside
  | .nil, _, _, _, k, hk => by cases hk
  | .line st rest, place, hn, hl, k, hk => by
    simp only [Body.nested, Bool.and_eq_true] at hn
    exact rest.standsAt level (place + 1) hn.2 hl.tail k hk
  | .block first parts rest, place, hn, hl, k, hk => by
    simp only [Body.nested, Bool.and_eq_true] at hn
    rw [Body.laid, ← List.cons_append] at hl
    have hrest := hl.right
    rw [List.length_cons, parts.length_laid, ← Nat.add_assoc] at hrest
    simp only [Body.blocks, List.mem_cons, List.mem_append] at hk
    rcases hk with rfl | hk | hk
    · exact ⟨level, hl.left, hn.1⟩
    · exact parts.standsAt level (place + 1) hn.1 hl.left.tail k hk
    · exact rest.standsAt level (place + parts.size + 1) hn.2 hrest k hk

theorem Parts.standsAt {first : Statement} (level : Nat) : (parts : Parts) → (place : Nat) →
    parts.nested first = true → p.Lays place (parts.laid level) →
    ∀ k ∈ parts.blocks place, ∃ inside, k.StandsAt p inside
  | .last body closing, place, hn, hl, k, hk => by
    simp only [Parts.nested, Bool.and_eq_true] at hn
    exact body.standsAt (level + 1) place hn.1 hl.left k hk
  | .clause body dividing rest, place, hn, hl, k, hk => by
    simp only [Parts.nested, Bool.and_eq_true] at hn
    have hrest := hl.right.tail
    rw [body.length_laid] at hrest
    simp only [Parts.blocks, List.mem_append] at hk
    rcases hk with hk | hk
    · exact body.standsAt (level + 1) place hn.1.1 hl.left k hk
    · exact rest.standsAt level (place + body.size + 1) hn.2 hrest k hk

end

/-- Each mark is a line of the program. -/
theorem Parts.statement_marks : (parts : Parts) → (place : Nat) →
    p.Lays place (parts.laid level) → ∀ x ∈ parts.marks place, p.statement? x.1 = some x.2
  | .last body closing, place, h, x, hx => by
    have hclosing := h.right.statement
    rw [body.length_laid] at hclosing
    rw [Parts.marks, List.mem_singleton] at hx
    subst hx
    exact hclosing
  | .clause body dividing rest, place, h, x, hx => by
    have hclause := h.right
    rw [body.length_laid] at hclause
    rw [Parts.marks, List.mem_cons] at hx
    rcases hx with rfl | hx
    · exact hclause.statement
    · exact rest.statement_marks (place + body.size + 1) hclause.tail x hx

/-! ### Down -/

/-- The search down from an own line of a block, but for the last, sees those below it. -/
theorem Parts.closer_marks (wanted : Statement → Bool) {after : List (Nat × Statement)}
    (hafter : after ≠ []) {x : Nat × Statement} : (parts : Parts) → (place : Nat) →
    (st : Statement) → (before : List (Nat × Statement)) → parts.nested first = true →
    p.Lays place (⟨level, st⟩ :: parts.laid level) →
    (place, st) :: parts.marks (place + 1) = before ++ x :: after →
    p.closer x.1 wanted = nearestMark wanted after
  | parts, place, st, [], hn, hl, hsplit => by
    obtain ⟨rfl, rfl⟩ := List.cons.inj hsplit
    rw [← Parts.find_eq_nearestMark]
    exact hl.closer fun post => parts.searchDown_laid post (place + 1) hn
  | .last body closing, place, st, _ :: before, hn, hl, hsplit => by
    obtain ⟨rfl, hmarks⟩ := List.cons.inj hsplit
    rw [Parts.marks] at hmarks
    cases before with
    | nil => exact absurd (List.cons.inj hmarks).2.symm hafter
    | cons _ before => simp at hmarks
  | .clause body dividing rest, place, st, _ :: before, hn, hl, hsplit => by
    obtain ⟨rfl, hmarks⟩ := List.cons.inj hsplit
    simp only [Parts.nested, Bool.and_eq_true] at hn
    have hclause := hl.tail.right
    rw [body.length_laid] at hclause
    exact rest.closer_marks wanted hafter (place + 1 + body.size) dividing before hn.2 hclause
      hmarks

/-! ### Up -/

variable {wanted : Statement → Bool}

/-- The lines above a place, in the order of a search up. -/
theorem Program.Lays.above {l m : List Line} (h : p.Lays place (l ++ m)) :
    (p.lines.take (place + l.length)).reverse = l.reverse ++ (p.lines.take place).reverse := by
  obtain ⟨pre, post, hlines, rfl⟩ := h
  have htake : p.lines.take pre.length = pre := by
    rw [hlines, List.take_left' rfl]
  have htake' : p.lines.take (pre.length + l.length) = pre ++ l := by
    rw [hlines, List.append_assoc, ← List.append_assoc pre, List.take_left' List.length_append]
  rw [htake, htake', List.reverse_append]

/-- A search up goes past a body that stands further in. -/
theorem Program.Lays.searchUp_body {body : Body} {m : List Line}
    (h : p.Lays place (body.laid (level + 1) ++ m)) :
    Program.searchUp level wanted (p.lines.take (place + body.size)).reverse =
      Program.searchUp level wanted (p.lines.take place).reverse := by
  have hup := h.above
  rw [body.length_laid] at hup
  rw [hup]
  apply Program.searchUp_skip
  intro c hc
  exact body.look_laid level wanted c (List.mem_reverse.1 hc)

/-- A search up meets a line of its indent. -/
theorem Program.Lays.searchUp_line {st : Statement} {m : List Line}
    (h : p.Lays place (⟨level, st⟩ :: m)) :
    Program.searchUp level wanted (p.lines.take (place + 1)).reverse =
      if wanted st then some place
      else if st.role = .clause then Program.searchUp level wanted (p.lines.take place).reverse
      else none := by
  have hlength : (p.lines.take place).reverse.length = place := by
    have := (List.getElem?_eq_some_iff.1 h.line).1
    rw [List.length_reverse, List.length_take]
    omega
  have hup := Program.Lays.above (l := [⟨level, st⟩]) h
  rw [List.length_singleton, List.reverse_singleton, List.singleton_append] at hup
  rw [hup, Program.searchUp, Program.look, hlength]
  by_cases hw : wanted st = true
  · simp [hw]
  · by_cases hr : st.role = .clause
    · simp [hw, hr, Line.role]
    · simp [hw, hr, Line.role]

theorem Program.Lays.opener_eq {st : Statement} {m : List Line}
    (h : p.Lays place (⟨level, st⟩ :: m)) :
    p.opener place wanted = Program.searchUp level wanted (p.lines.take place).reverse := by
  unfold Program.opener
  rw [h.line]

/-- The search up from a mark sees the marks before it and then what is above the tree. -/
theorem Parts.opener_marks {after : List (Nat × Statement)} {x : Nat × Statement} :
    (parts : Parts) → (place : Nat) → (above before : List (Nat × Statement)) →
    parts.nested first = true → p.Lays place (parts.laid level) →
    Program.searchUp level wanted (p.lines.take place).reverse = nearestMark wanted above →
    parts.marks place = before ++ x :: after →
    p.opener x.1 wanted = nearestMark wanted (before.reverse ++ above)
  | .last body closing, place, above, before, hn, hl, habove, hsplit => by
    have hmark := hl.right
    rw [body.length_laid] at hmark
    rw [Parts.marks] at hsplit
    cases before with
    | nil =>
      obtain ⟨rfl, -⟩ := List.cons.inj hsplit
      rw [hmark.opener_eq, hl.searchUp_body, habove]
      rfl
    | cons _ before => simp at hsplit
  | .clause body dividing rest, place, above, before, hn, hl, habove, hsplit => by
    have hmark := hl.right
    rw [body.length_laid] at hmark
    simp only [Parts.nested, Bool.and_eq_true] at hn
    rw [Parts.marks] at hsplit
    cases before with
    | nil =>
      obtain ⟨rfl, -⟩ := List.cons.inj hsplit
      rw [hmark.opener_eq, hl.searchUp_body, habove]
      rfl
    | cons _ before =>
      obtain ⟨rfl, hmarks⟩ := List.cons.inj hsplit
      rw [List.reverse_cons, List.append_assoc]
      apply rest.opener_marks (place + body.size + 1) _ before hn.2 hmark.tail _ hmarks
      rw [hmark.searchUp_line, if_pos (Statement.role_of_divides hn.1.2).2, hl.searchUp_body,
        habove, List.singleton_append, nearestMark_cons]

end Searches

/-! ## What the searches find -/

namespace Block

variable {p : Program} {k : Block} {level : Nat} {wanted : Statement → Bool}

/-- The own lines of a block are lines of the program. A search down from one of them
finds the nearest one below that it looks for, and a search up the nearest one above. -/
structure Found (p : Program) (k : Block) : Prop where
  text : ∀ x ∈ k.lines, p.statement? x.1 = some x.2
  down : ∀ wanted before x after, k.lines = before ++ x :: after → after ≠ [] →
    p.closer x.1 wanted = nearestMark wanted after
  up : ∀ wanted before x after, k.lines = before ++ x :: after → before ≠ [] →
    p.opener x.1 wanted = nearestMark wanted before.reverse

theorem StandsAt.found (h : k.StandsAt p level) : k.Found p where
  text := by
    intro x hx
    rcases List.mem_cons.1 hx with rfl | hx
    · exact h.lays.statement
    · exact k.parts.statement_marks (k.place + 1) h.lays.tail x hx
  down := by
    intro wanted before x after hsplit hafter
    exact k.parts.closer_marks wanted hafter k.place k.first before h.nested h.lays hsplit
  up := by
    intro wanted before x after hsplit hbefore
    have hrole := Parts.nested_opener h.nested
    cases before with
    | nil => exact absurd rfl hbefore
    | cons _ before =>
      obtain ⟨rfl, hmarks⟩ := List.cons.inj hsplit
      rw [List.reverse_cons]
      apply k.parts.opener_marks (k.place + 1) _ before h.nested h.lays.tail _ hmarks
      rw [h.lays.searchUp_line, if_neg (by simp [hrole] : k.first.role ≠ .clause), nearestMark_cons,
        nearestMark_nil]

end Block

namespace Statement

/-- A search for the last line of the block that a line opens. -/
structure ClosingTest (first : Statement) (wanted : Statement → Bool) : Prop where
  ends : ∀ st, first.ends st = true → wanted st = true
  closer : ∀ st, wanted st = true → st.role = .closer

/-- A search for any own line that follows in the block that a line opens. -/
def DividingTest (first : Statement) (wanted : Statement → Bool) : Prop :=
  ∀ st, first.divides st = true ∨ first.ends st = true → wanted st = true

/-- A search for the first line of a block, which is such a line. -/
structure OpeningTest (first : Statement) (wanted : Statement → Bool) : Prop where
  first : wanted first = true
  opener : ∀ st, wanted st = true → st.role = .opener

theorem closingTest_closedBy (first : Statement) : first.ClosingTest first.closedBy where
  ends _ h := closedBy_of_ends h
  closer _ h := role_of_closedBy h

theorem dividingTest_branchEndedBy {first : Statement} (h : first.branches = true) :
    first.DividingTest first.branchEndedBy := fun _ hst => branchEndedBy_of_own h hst

theorem openingTest_openedBy {first st : Statement} (h : st.openedBy first = true) :
    first.OpeningTest st.openedBy where
  first := h
  opener _ hw := (opens_of_openedBy hw).1

end Statement

namespace Block

variable {p : Program} {k : Block} {wanted : Statement → Bool}

/-- The marks of a block are clauses and then its last line. -/
theorem marks_eq (hn : k.parts.nested k.first = true) : ∃ clauses closing,
    k.marks = clauses ++ [(k.last, closing)] ∧
      (∀ x ∈ clauses, k.first.divides x.2 = true) ∧ k.first.ends closing = true :=
  k.parts.marks_eq k.place hn

/-- A search for lines that are no clauses sees no clause. -/
theorem not_wanted_of_divides {first : Statement} {role : Role} {clauses : List (Nat × Statement)}
    (hdivides : ∀ x ∈ clauses, first.divides x.2 = true)
    (hw : ∀ st, wanted st = true → st.role = role) (hr : role ≠ .clause) :
    ∀ x ∈ clauses, wanted x.2 = false := by
  intro x hx
  apply Statement.not_wanted_of_role hw
  rw [(Statement.role_of_divides (hdivides x hx)).2]
  exact hr.symm

/-- The last line of a block is found from the first. -/
theorem Found.closer_last (h : k.Found p) (hn : k.parts.nested k.first = true)
    (hw : k.first.ClosingTest wanted) : p.closer k.place wanted = some k.last := by
  obtain ⟨clauses, closing, hmarks, hdivides, hends⟩ := marks_eq hn
  have hlines : k.lines = [] ++ (k.place, k.first) :: (clauses ++ [(k.last, closing)]) := by
    rw [lines, hmarks, List.nil_append]
  have hnone := not_wanted_of_divides hdivides hw.closer (by simp)
  rw [h.down wanted [] _ _ hlines (by simp), nearestMark_append_of_not hnone, nearestMark_cons,
    if_pos (hw.ends closing hends)]

/-- Each own line of a block finds the next one. -/
theorem Found.closer_next (h : k.Found p) (hn : k.parts.nested k.first = true)
    (hw : k.first.DividingTest wanted) {before after : List (Nat × Statement)}
    {x y : Nat × Statement} (hsplit : k.lines = before ++ x :: y :: after) :
    p.closer x.1 wanted = some y.1 := by
  have hy : y ∈ k.marks := by
    cases before with
    | nil =>
      obtain ⟨-, hmarks⟩ := List.cons.inj hsplit
      simp [hmarks]
    | cons _ before =>
      obtain ⟨-, hmarks⟩ := List.cons.inj hsplit
      simp [hmarks]
  obtain ⟨clauses, closing, hmarks, hdivides, hends⟩ := marks_eq hn
  have hown : k.first.divides y.2 = true ∨ k.first.ends y.2 = true := by
    rw [hmarks, List.mem_append, List.mem_singleton] at hy
    rcases hy with hy | rfl
    · exact Or.inl (hdivides y hy)
    · exact Or.inr hends
  rw [h.down wanted before x _ hsplit (by simp), nearestMark_cons, if_pos (hw y.2 hown)]

/-- The marks before a mark are clauses. -/
theorem divides_of_before (hn : k.parts.nested k.first = true)
    {before after : List (Nat × Statement)} {x : Nat × Statement}
    (hsplit : k.marks = before ++ x :: after) : ∀ y ∈ before, k.first.divides y.2 = true := by
  obtain ⟨clauses, closing, hmarks, hdivides, -⟩ := marks_eq hn
  rw [hmarks] at hsplit
  intro y hy
  apply hdivides
  rcases List.eq_nil_or_concat after with rfl | ⟨after, z, rfl⟩
  · rw [List.append_inj_left' hsplit rfl]
    exact hy
  · rw [List.concat_eq_append, ← List.cons_append, ← List.append_assoc] at hsplit
    rw [List.append_inj_left' hsplit rfl]
    exact List.mem_append_left _ hy

/-- The first line of a block is found from every clause and from the last line. -/
theorem Found.opener_first (h : k.Found p) (hn : k.parts.nested k.first = true)
    (hw : k.first.OpeningTest wanted) {x : Nat × Statement} (hx : x ∈ k.marks) :
    p.opener x.1 wanted = some k.place := by
  obtain ⟨before, after, hsplit⟩ := List.append_of_mem hx
  have hlines : k.lines = ((k.place, k.first) :: before) ++ x :: after := by
    rw [lines, hsplit, List.cons_append]
  have hclauses : ∀ y ∈ before.reverse, k.first.divides y.2 = true := by
    intro y hy
    exact divides_of_before hn hsplit y (List.mem_reverse.1 hy)
  have hnone := not_wanted_of_divides hclauses hw.opener (by simp)
  rw [h.up wanted _ x after hlines (by simp), List.reverse_cons, nearestMark_append_of_not hnone,
    nearestMark_cons, if_pos hw.first]

end Block

/-- Every block of a well-nested text is found from its own lines, whatever is in it and
beside it. Its first line finds its last line, each own line finds the next one, and all
find the first line; so it is for every search of these kinds, and those of the statements
themselves are of these kinds. -/
theorem searches_find_the_lines_of_their_block {b : Body} (h : b.nested = true) {k : Block}
    (hk : k ∈ b.blocks 0) :
    let p := Program.ofStatements b.text
    (∀ x ∈ k.lines, p.statement? x.1 = some x.2) ∧
    (∃ closing, k.lines.getLast? = some (k.last, closing) ∧ k.first.ends closing = true) ∧
    (∀ wanted, k.first.ClosingTest wanted → p.closer k.place wanted = some k.last) ∧
    (∀ wanted, k.first.DividingTest wanted → ∀ before x y after,
      k.lines = before ++ x :: y :: after → p.closer x.1 wanted = some y.1) ∧
    (∀ wanted, k.first.OpeningTest wanted → ∀ x ∈ k.marks, p.opener x.1 wanted = some k.place) ∧
    k.first.ClosingTest k.first.closedBy ∧
    (k.first.branches = true → k.first.DividingTest k.first.branchEndedBy) ∧
    ∀ x ∈ k.marks, x.2 ≠ .endSub → k.first.OpeningTest x.2.openedBy := by
  intro p
  have hlays : p.Lays 0 (b.laid 0) := ⟨[], [], by simpa using Body.lines_ofStatements h, rfl⟩
  obtain ⟨level, hstands⟩ := b.standsAt 0 0 h hlays k hk
  have hfound := hstands.found
  obtain ⟨clauses, closing, hmarks, hdivides, hends⟩ := Block.marks_eq hstands.nested
  refine ⟨hfound.text, ⟨closing, ?_, hends⟩, ?_, ?_, ?_, k.first.closingTest_closedBy,
    Statement.dividingTest_branchEndedBy, ?_⟩
  · rw [Block.lines, hmarks, ← List.cons_append, List.getLast?_concat]
  · intro wanted hw
    exact hfound.closer_last hstands.nested hw
  · intro wanted hw before x y after hsplit
    exact hfound.closer_next hstands.nested hw hsplit
  · intro wanted hw x hx
    exact hfound.opener_first hstands.nested hw hx
  · intro x hx hsub
    apply Statement.openingTest_openedBy
    rw [hmarks, List.mem_append, List.mem_singleton] at hx
    rcases hx with hx | rfl
    · exact Statement.openedBy_of_divides (hdivides x hx)
    · exact Statement.openedBy_of_ends hends hsub

/-- Two IF blocks beside each other, with one of their kind in the first. -/
def twoChoices : Body :=
  .block (.if (.integer 1))
    (.clause (.block (.if (.integer 0)) (.clause .nil .else (.last .nil .endIf)) .nil) .else
      (.last .nil .endIf))
    (.block (.if (.integer 1)) (.last .nil .endIf) .nil)

/-- The searches from the first of two IF blocks stay in it and pass the one inside. -/
theorem searches_find_the_lines_of_a_choice :
    let p := Program.ofStatements twoChoices.text
    twoChoices.nested = true ∧ p.closer 0 Statement.closesIf = some 5 ∧
      p.closer 0 Statement.endsIfBranch = some 4 ∧ p.closer 4 Statement.endsIfBranch = some 5 ∧
      p.opener 4 Statement.opensIfOrUnless = some 0 ∧
      p.opener 5 Statement.opensIfOrUnless = some 0 := by
  intro p
  have hn : twoChoices.nested = true := by decide
  obtain ⟨-, -, hlast, hnext, hfirst, hcloses, hdivides, hopens⟩ :=
    searches_find_the_lines_of_their_block hn List.mem_cons_self
  have hwanted := hdivides rfl
  refine ⟨hn, hlast _ hcloses, ?_, ?_, ?_, ?_⟩
  · exact hnext _ hwanted [] (0, .if (.integer 1)) (4, .else) [(5, .endIf)] rfl
  · exact hnext _ hwanted [(0, .if (.integer 1))] (4, .else) (5, .endIf) [] rfl
  · have hmem := List.mem_cons_self (a := (4, Statement.else)) (l := [(5, .endIf)])
    exact hfirst _ (hopens _ hmem (by simp)) _ hmem
  · have hmem : (5, Statement.endIf) ∈ [(4, Statement.else), (5, .endIf)] := by simp
    exact hfirst _ (hopens _ hmem (by simp)) _ hmem

end LineBasic
