-- Well-nested programs as trees. A body is a run of plain lines and blocks, and
-- a block has bodies that its clauses divide. The layout of a tree gives every
-- line its indent, and a search from a line of a block finds exactly the other
-- lines of that block.
import LineBasic.Proofs.Moves
import LineBasic.Proofs.Search

namespace LineBasic

/-! ## Trees -/

mutual

/-- A run of lines and blocks. -/
inductive Body where
  | nil
  | line (st : Statement) (rest : Body)
  | block (first : Statement) (parts : Parts) (rest : Body)

/-- What follows the first line of a block, up to its closing line. -/
inductive Parts where
  | last (body : Body) (closing : Statement)
  | clause (body : Body) (clause : Statement) (rest : Parts)

end

namespace Statement

/-- A clause that may divide the block that a line opens. -/
def divides : Statement → Statement → Bool
  | .if _, .elseIf _ | .if _, .else | .unless _, .else => true
  | .select _, .case _ => true
  | .try, .catch _ | .try, .finally => true
  | _, _ => false

/-- The closing line of the block that a line opens. A NEXT names the variable
of its loop or nothing. -/
def ends : Statement → Statement → Bool
  | .if _, .endIf | .unless _, .endUnless => true
  | .while _, .wend | .until _, .uend => true
  | .do _, .loop _ => true
  | .for .., .next none => true
  | .for name .., .next (some other) => other.alike name
  | .select _, .endSelect | .try, .endTry | .sub .., .endSub => true
  | _, _ => false

end Statement

mutual

/-- Every block has its own clauses and its own closing line. -/
def Body.nested : Body → Bool
  | .nil => true
  | .line st rest => st.role = .plain && rest.nested
  | .block first parts rest => parts.nested first && rest.nested

def Parts.nested (first : Statement) : Parts → Bool
  | .last body closing => body.nested && first.ends closing
  | .clause body clause rest => body.nested && first.divides clause && rest.nested first

end

mutual

/-- The statements of a tree in the order of their lines. -/
def Body.text : Body → List Statement
  | .nil => []
  | .line st rest => st :: rest.text
  | .block first parts rest => first :: (parts.text ++ rest.text)

def Parts.text : Parts → List Statement
  | .last body closing => body.text ++ [closing]
  | .clause body clause rest => body.text ++ clause :: rest.text

end

mutual

/-- The lines of a tree whose outermost lines stand at `level`. -/
def Body.laid (level : Nat) : Body → List Line
  | .nil => []
  | .line st rest => ⟨level, st⟩ :: rest.laid level
  | .block first parts rest => ⟨level, first⟩ :: (parts.laid level ++ rest.laid level)

def Parts.laid (level : Nat) : Parts → List Line
  | .last body closing => body.laid (level + 1) ++ [⟨level, closing⟩]
  | .clause body clause rest => body.laid (level + 1) ++ ⟨level, clause⟩ :: rest.laid level

end

mutual

def Body.size : Body → Nat
  | .nil => 0
  | .line _ rest => rest.size + 1
  | .block _ parts rest => parts.size + rest.size + 1

def Parts.size : Parts → Nat
  | .last body _ => body.size + 1
  | .clause body _ rest => body.size + rest.size + 1

end

/-! ## Roles -/

theorem Name.alike_comm (a b : Name) : a.alike b = b.alike a := by
  simp only [alike, eq_comm]

namespace Statement

theorem role_of_divides {first st : Statement} (h : first.divides st = true) :
    first.role = .opener ∧ st.role = .clause := by
  unfold divides at h
  split at h <;> first | exact ⟨rfl, rfl⟩ | cases h

theorem role_of_ends {first st : Statement} (h : first.ends st = true) :
    first.role = .opener ∧ st.role = .closer := by
  unfold ends at h
  split at h <;> first | exact ⟨rfl, rfl⟩ | cases h

/-- A clause finds the first line of its block. -/
theorem openedBy_of_divides {first st : Statement} (h : first.divides st = true) :
    st.openedBy first = true := by
  unfold divides at h
  split at h <;> first | rfl | cases h

/-- The first line of a block finds its closing line. -/
theorem closedBy_of_ends {first st : Statement} (h : first.ends st = true) :
    first.closedBy st = true := by
  unfold ends at h
  split at h <;> first | rfl | exact h | cases h

/-- A closing line finds the first line of its block, unless the block is a SUB. -/
theorem openedBy_of_ends {first st : Statement} (h : first.ends st = true) (hs : st ≠ .endSub) :
    st.openedBy first = true := by
  unfold ends at h
  split at h <;> first | rfl | exact absurd rfl hs | cases h

theorem not_closedBy_of_divides {first st : Statement} (h : first.divides st = true) :
    first.closedBy st = false := by
  unfold divides at h
  split at h <;> first | rfl | cases h

/-- Each own line of a choosing block ends the branch before it. -/
theorem branchEndedBy_of_own {first st : Statement} (hb : first.branches = true)
    (h : first.divides st = true ∨ first.ends st = true) : first.branchEndedBy st = true := by
  rcases h with h | h
  · unfold divides at h
    split at h <;> first | rfl | cases hb | cases h
  · unfold ends at h
    split at h <;> first | rfl | cases hb | cases h

theorem blockKind_of_divides {first st : Statement} (h : first.divides st = true) :
    first.blockKind? = st.blockKind? := by
  unfold divides at h
  split at h <;> first | rfl | cases h

end Statement

theorem Parts.nested_opener {first : Statement} {parts : Parts} (h : parts.nested first = true) :
    first.role = .opener := by
  cases parts with
  | last body closing =>
    rw [Parts.nested, Bool.and_eq_true] at h
    exact (Statement.role_of_ends h.2).1
  | clause body clause rest =>
    rw [Parts.nested, Bool.and_eq_true, Bool.and_eq_true] at h
    exact (Statement.role_of_divides h.1.2).1

/-! ## Layout -/

mutual

theorem Body.length_laid (level : Nat) : (b : Body) → (b.laid level).length = b.size
  | .nil => rfl
  | .line _ rest => by simp [Body.laid, Body.size, rest.length_laid level]
  | .block _ parts rest => by
    simp [Body.laid, Body.size, parts.length_laid level, rest.length_laid level]

theorem Parts.length_laid (level : Nat) : (parts : Parts) → (parts.laid level).length = parts.size
  | .last body _ => by simp [Parts.laid, Parts.size, body.length_laid (level + 1)]
  | .clause body _ rest => by
    simp [Parts.laid, Parts.size, body.length_laid (level + 1), rest.length_laid level]
    omega

end

theorem Parts.size_pos (parts : Parts) : 0 < parts.size := by
  cases parts <;> simp [Parts.size]

mutual

/-- No line of a body stands further out than its level. -/
theorem Body.le_indent (level : Nat) : (b : Body) → ∀ l ∈ b.laid level, level ≤ l.indent
  | .nil, l, hl => by cases hl
  | .line _ rest, l, hl => by
    rcases List.mem_cons.1 hl with rfl | hl
    · exact Nat.le_refl _
    · exact rest.le_indent level l hl
  | .block _ parts rest, l, hl => by
    rcases List.mem_cons.1 hl with rfl | hl
    · exact Nat.le_refl _
    · rcases List.mem_append.1 hl with hl | hl
      · exact parts.le_indent level l hl
      · exact rest.le_indent level l hl

theorem Parts.le_indent (level : Nat) : (parts : Parts) → ∀ l ∈ parts.laid level, level ≤ l.indent
  | .last body _, l, hl => by
    rcases List.mem_append.1 hl with hl | hl
    · exact Nat.le_of_succ_le (body.le_indent (level + 1) l hl)
    · obtain rfl := List.mem_singleton.1 hl
      exact Nat.le_refl _
  | .clause body _ rest, l, hl => by
    rcases List.mem_append.1 hl with hl | hl
    · exact Nat.le_of_succ_le (body.le_indent (level + 1) l hl)
    · rcases List.mem_cons.1 hl with rfl | hl
      · exact Nat.le_refl _
      · exact rest.le_indent level l hl

end

mutual

/-- The layout of the statements of a tree is the tree laid out. -/
theorem Body.layoutFrom_text (level : Nat) (tail : List Statement) : (b : Body) →
    b.nested = true →
    layoutFrom level (b.text ++ tail) = b.laid level ++ layoutFrom level tail
  | .nil, _ => rfl
  | .line st rest, h => by
    simp only [Body.nested, Bool.and_eq_true, decide_eq_true_eq] at h
    simp only [Body.text, Body.laid, List.cons_append, layoutFrom, h.1,
      rest.layoutFrom_text level tail h.2]
  | .block first parts rest, h => by
    simp only [Body.nested, Bool.and_eq_true] at h
    simp only [Body.text, Body.laid, List.cons_append, List.append_assoc, layoutFrom,
      Parts.nested_opener h.1, parts.layoutFrom_text level (rest.text ++ tail) h.1,
      rest.layoutFrom_text level tail h.2]

theorem Parts.layoutFrom_text (level : Nat) (tail : List Statement) : (parts : Parts) →
    {first : Statement} → parts.nested first = true →
    layoutFrom (level + 1) (parts.text ++ tail) = parts.laid level ++ layoutFrom level tail
  | .last body closing, first, h => by
    simp only [Parts.nested, Bool.and_eq_true] at h
    simp only [Parts.text, Parts.laid, List.append_assoc, List.singleton_append,
      body.layoutFrom_text (level + 1) (closing :: tail) h.1, layoutFrom,
      (Statement.role_of_ends h.2).2, Nat.add_sub_cancel]
  | .clause body clause rest, first, h => by
    simp only [Parts.nested, Bool.and_eq_true] at h
    simp only [Parts.text, Parts.laid, List.append_assoc, List.cons_append,
      body.layoutFrom_text (level + 1) (clause :: (rest.text ++ tail)) h.1.1, layoutFrom,
      (Statement.role_of_divides h.1.2).2, rest.layoutFrom_text level tail h.2, Nat.add_sub_cancel]

end

/-- Layout adds indents and nothing else. -/
theorem statements_layoutFrom (level : Nat) (l : List Statement) :
    (layoutFrom level l).map (·.statement) = l := by
  induction l generalizing level with
  | nil => rfl
  | cons st rest ih =>
    rw [layoutFrom]
    split <;> rw [List.map_cons, ih]

theorem Program.statement?_ofStatements (l : List Statement) (i : Nat) :
    (Program.ofStatements l).statement? i = l[i]? := by
  have h := congrArg (·[i]?) (statements_layoutFrom 0 l)
  rw [List.getElem?_map] at h
  exact h

/-- The program of a well-nested tree. -/
theorem Body.lines_ofStatements {b : Body} (h : b.nested = true) :
    (Program.ofStatements b.text).lines = b.laid 0 := by
  have := b.layoutFrom_text 0 [] h
  rw [List.append_nil] at this
  unfold Program.ofStatements Program.ofLines Program.reindexed layout
  dsimp only
  rw [this]
  exact List.append_nil _

/-! ## Searches in a laid-out block -/

namespace Program

variable {p : Program} {place : Nat}

/-- The program has these lines from `place` on. -/
def Lays (p : Program) (place : Nat) (lines : List Line) : Prop :=
  ∃ pre post, p.lines = pre ++ (lines ++ post) ∧ pre.length = place

theorem Lays.left {l m : List Line} (h : p.Lays place (l ++ m)) : p.Lays place l := by
  obtain ⟨pre, post, hl, hp⟩ := h
  exact ⟨pre, m ++ post, by rw [hl, List.append_assoc], hp⟩

theorem Lays.right {l m : List Line} (h : p.Lays place (l ++ m)) :
    p.Lays (place + l.length) m := by
  obtain ⟨pre, post, hl, hp⟩ := h
  refine ⟨pre ++ l, post, by rw [hl]; simp only [List.append_assoc], ?_⟩
  rw [List.length_append, hp]

theorem Lays.tail {a : Line} {l : List Line} (h : p.Lays place (a :: l)) : p.Lays (place + 1) l :=
  h.right (l := [a])

theorem Lays.line {a : Line} {l : List Line} (h : p.Lays place (a :: l)) :
    p.lines[place]? = some a := by
  obtain ⟨pre, post, hl, rfl⟩ := h
  rw [hl, List.getElem?_append_right (Nat.le_refl _), Nat.sub_self]
  rfl

theorem Lays.statement {a : Line} {l : List Line} (h : p.Lays place (a :: l)) :
    p.statement? place = some a.statement := by
  simp [statement?, line?, h.line]

/-- A search down from a line sees the lines that follow it. -/
theorem Lays.closer {a : Line} {l : List Line} {wanted : Statement → Bool} {r : Option Nat}
    (h : p.Lays place (a :: l))
    (hr : ∀ post, searchDown a.indent wanted (place + 1) (l ++ post) = r) :
    p.closer place wanted = r := by
  have hline := h.line
  obtain ⟨pre, post, hl, rfl⟩ := h
  unfold Program.closer
  rw [hline]
  have hdrop : p.lines.drop (pre.length + 1) = l ++ post := by
    rw [hl, List.drop_length_add_append]
    rfl
  dsimp only
  rw [hdrop, hr]

/-- A search up from a line past others finds the line above them. -/
theorem Lays.opener {a b : Line} {l m : List Line} {wanted : Statement → Bool}
    (h : p.Lays place (a :: (l ++ b :: m))) (hi : b.indent = a.indent)
    (ha : wanted a.statement = true)
    (hl : ∀ c ∈ l, look a.indent wanted c = .onward) :
    p.opener (place + 1 + l.length) wanted = some place := by
  have hline := h.tail.right.line
  obtain ⟨pre, post, hlines, rfl⟩ := h
  unfold Program.opener
  rw [hline]
  have htake : (p.lines.take (pre.length + 1 + l.length)).reverse =
      l.reverse ++ (a :: pre.reverse) := by
    have hsplit : p.lines = (pre ++ a :: l) ++ (b :: m ++ post) := by
      rw [hlines]
      simp only [List.cons_append, List.append_assoc]
    rw [hsplit, List.take_left']
    · simp
    · simp only [List.length_append, List.length_cons]
      omega
  dsimp only
  rw [htake, hi, searchUp_skip fun c hc => hl c (List.mem_reverse.1 hc), searchUp,
    look_eq_found.2 ⟨rfl, ha⟩]
  simp

end Program

/-- The first own line of a block, after its opening line, that a search looks for. -/
def Parts.find (wanted : Statement → Bool) : (place : Nat) → Parts → Option Nat
  | place, .last body closing => if wanted closing then some (place + body.size) else none
  | place, .clause body dividing rest =>
    if wanted dividing then some (place + body.size)
    else rest.find wanted (place + body.size + 1)

theorem Body.look_laid (b : Body) (level : Nat) (wanted : Statement → Bool) :
    ∀ l ∈ b.laid (level + 1), Program.look level wanted l = .onward :=
  fun l hl => Program.look_eq_onward (Or.inl (b.le_indent (level + 1) l hl))

/-- A search down from a line of a block sees the own lines of the block and no others. -/
theorem Parts.searchDown_laid {first : Statement} {level : Nat} {wanted : Statement → Bool}
    (post : List Line) : (parts : Parts) → (place : Nat) → parts.nested first = true →
    Program.searchDown level wanted place (parts.laid level ++ post) = parts.find wanted place
  | .last body closing, place, h => by
    simp only [Parts.nested, Bool.and_eq_true] at h
    have hrole := (Statement.role_of_ends h.2).2
    rw [Parts.laid, List.append_assoc, Program.searchDown_skip (body.look_laid level wanted),
      body.length_laid, List.singleton_append, Parts.find, Program.searchDown, Program.look]
    cases hw : wanted closing with
    | true => simp
    | false => simp [Line.role, hrole]
  | .clause body dividing rest, place, h => by
    simp only [Parts.nested, Bool.and_eq_true] at h
    have hrole := (Statement.role_of_divides h.1.2).2
    rw [Parts.laid, List.append_assoc, Program.searchDown_skip (body.look_laid level wanted),
      body.length_laid, List.cons_append, Parts.find, Program.searchDown, Program.look]
    cases hw : wanted dividing with
    | true => simp
    | false =>
      simp only [Line.role, hrole, Nat.lt_irrefl, if_false, if_true, Bool.false_eq_true]
      exact rest.searchDown_laid post (place + body.size + 1) h.2

/-- The body before the next own line of a block. -/
def Parts.ahead : Parts → Body
  | .last body _ => body
  | .clause body _ _ => body

/-- A search for any own line of a block stops at the next one. -/
theorem Parts.find_next {first : Statement} {wanted : Statement → Bool} {parts : Parts}
    (place : Nat) (h : parts.nested first = true)
    (hw : ∀ st, first.divides st = true ∨ first.ends st = true → wanted st = true) :
    parts.find wanted place = some (place + parts.ahead.size) := by
  cases parts with
  | last body closing =>
    simp only [Parts.nested, Bool.and_eq_true] at h
    rw [Parts.find, if_pos (hw _ (Or.inr h.2)), Parts.ahead]
  | clause body dividing rest =>
    simp only [Parts.nested, Bool.and_eq_true] at h
    rw [Parts.find, if_pos (hw _ (Or.inl h.1.2)), Parts.ahead]

/-- The first line of a block finds the last. -/
theorem Parts.find_closedBy {first : Statement} : (parts : Parts) → (place : Nat) →
    parts.nested first = true → parts.find first.closedBy (place + 1) = some (place + parts.size)
  | .last body closing, place, h => by
    simp only [Parts.nested, Bool.and_eq_true] at h
    rw [Parts.find, if_pos (Statement.closedBy_of_ends h.2), Parts.size]
    exact congrArg some (by omega)
  | .clause body dividing rest, place, h => by
    simp only [Parts.nested, Bool.and_eq_true] at h
    rw [Parts.find, if_neg (by simp [Statement.not_closedBy_of_divides h.1.2]), Parts.size,
      rest.find_closedBy (place + 1 + body.size) h.2]
    exact congrArg some (by omega)

/-! ## Blocks in a program -/

/-- A block starts at `place`. Of what follows its first line, `behind` is
already passed and `parts` is still ahead. -/
structure BlockAt (p : Program) (place level : Nat) (first : Statement) (behind : List Line)
    (parts : Parts) : Prop where
  lines : p.Lays place (⟨level, first⟩ :: (behind ++ parts.laid level))
  passed : ∀ l ∈ behind, level < l.indent ∨ l.indent = level ∧ l.role = .clause
  nested : parts.nested first = true

namespace BlockAt

variable {p : Program} {place level : Nat} {first dividing closing : Statement}
  {behind : List Line} {parts rest : Parts} {body : Body}

/-- The body that comes next. -/
theorem lays_body (h : BlockAt p place level first behind (.last body closing)) :
    p.Lays (place + 1 + behind.length) (body.laid (level + 1)) :=
  h.lines.tail.right.left

theorem lays_clause_body (h : BlockAt p place level first behind (.clause body dividing rest)) :
    p.Lays (place + 1 + behind.length) (body.laid (level + 1)) :=
  h.lines.tail.right.left

/-- The closing line. -/
theorem lays_closing (h : BlockAt p place level first behind (.last body closing)) :
    p.Lays (place + 1 + behind.length + body.size) [⟨level, closing⟩] := by
  have := h.lines.tail.right.right
  rwa [body.length_laid] at this

/-- The next clause and all that follows it. -/
theorem lays_clause (h : BlockAt p place level first behind (.clause body dividing rest)) :
    p.Lays (place + 1 + behind.length + body.size) (⟨level, dividing⟩ :: rest.laid level) := by
  have := h.lines.tail.right.right
  rwa [body.length_laid] at this

/-- Past a clause. -/
theorem next (h : BlockAt p place level first behind (.clause body dividing rest)) :
    BlockAt p place level first (behind ++ (body.laid (level + 1) ++ [⟨level, dividing⟩])) rest := by
  have hn := h.nested
  simp only [Parts.nested, Bool.and_eq_true] at hn
  refine ⟨?_, ?_, hn.2⟩
  · have := h.lines
    simpa only [Parts.laid, List.append_assoc, List.singleton_append] using this
  · intro l hl
    rcases List.mem_append.1 hl with hl | hl
    · exact h.passed l hl
    · rcases List.mem_append.1 hl with hl | hl
      · exact Or.inl (body.le_indent (level + 1) l hl)
      · obtain rfl := List.mem_singleton.1 hl
        exact Or.inr ⟨rfl, (Statement.role_of_divides hn.1.2).2⟩

/-- What a search from the first line of a block finds. -/
theorem closer (h : BlockAt p place level first [] parts) (wanted : Statement → Bool) :
    p.closer place wanted = parts.find wanted (place + 1) :=
  h.lines.closer fun post => parts.searchDown_laid post (place + 1) h.nested

/-- What a search from a clause finds. -/
theorem closer_clause (h : BlockAt p place level first behind (.clause body dividing rest))
    (wanted : Statement → Bool) :
    p.closer (place + 1 + behind.length + body.size) wanted =
      rest.find wanted (place + 1 + behind.length + body.size + 1) :=
  h.lays_clause.closer fun post => rest.searchDown_laid post _ h.next.nested

/-- Lines that are passed do not stop a search for the first line of a block. -/
theorem look_behind (h : BlockAt p place level first behind parts) {wanted : Statement → Bool}
    (hw : ∀ st, wanted st = true → st.role = .opener) :
    ∀ l ∈ behind, Program.look level wanted l = .onward := by
  intro l hl
  refine Program.look_eq_onward ?_
  rcases h.passed l hl with hdeep | ⟨hi, hr⟩
  · exact Or.inl hdeep
  · exact Or.inr ⟨hi, Statement.not_wanted_of_role hw (by rw [← Line.role, hr]; simp), hr⟩

/-- A clause finds the first line of its block. -/
theorem opener_clause (h : BlockAt p place level first behind (.clause body dividing rest)) :
    p.opener (place + 1 + behind.length + body.size) dividing.openedBy = some place := by
  have hn := h.nested
  simp only [Parts.nested, Bool.and_eq_true] at hn
  have hl : p.Lays place (⟨level, first⟩ ::
      ((behind ++ body.laid (level + 1)) ++ ⟨level, dividing⟩ :: rest.laid level)) := by
    simpa only [Parts.laid, List.append_assoc] using h.lines
  have := hl.opener rfl (Statement.openedBy_of_divides hn.1.2) fun c hc => ?_
  · rwa [List.length_append, body.length_laid, ← Nat.add_assoc] at this
  · rcases List.mem_append.1 hc with hc | hc
    · exact h.look_behind (fun st hst => (Statement.opens_of_openedBy hst).1) c hc
    · exact body.look_laid level _ c hc

/-- A closing line finds the first line of its block. -/
theorem opener_closing (h : BlockAt p place level first behind (.last body closing))
    (hc : closing ≠ .endSub) :
    p.opener (place + 1 + behind.length + body.size) closing.openedBy = some place := by
  have hn := h.nested
  simp only [Parts.nested, Bool.and_eq_true] at hn
  have hl : p.Lays place (⟨level, first⟩ ::
      ((behind ++ body.laid (level + 1)) ++ ⟨level, closing⟩ :: [])) := by
    simpa only [Parts.laid, List.append_assoc] using h.lines
  have := hl.opener rfl (Statement.openedBy_of_ends hn.2 hc) fun c hc => ?_
  · rwa [List.length_append, body.length_laid, ← Nat.add_assoc] at this
  · rcases List.mem_append.1 hc with hc | hc
    · exact h.look_behind (fun st hst => (Statement.opens_of_openedBy hst).1) c hc
    · exact body.look_laid level _ c hc

end BlockAt

end LineBasic
