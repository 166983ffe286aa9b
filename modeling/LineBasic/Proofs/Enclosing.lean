-- The blocks around a line of a well-nested program, from the outside in. For
-- every line it is known how they change from this line to the next and at the
-- ends of the block that the line belongs to.
import LineBasic.Proofs.Nesting

namespace LineBasic

/-! ## Spans -/

/-- A block as it stands in the text. -/
structure Span where
  kind : Option BlockKind
  first : Nat
  last : Nat
deriving DecidableEq, Inhabited

/-- A program at `line` is in the block: past its first line and not past its last. -/
def Span.holds (line : Nat) (b : Span) : Bool := b.first < line && line ≤ b.last

mutual

/-- The blocks of a body that starts at `place`, each before those inside it. -/
def Body.spans : (place : Nat) → Body → List Span
  | _, .nil => []
  | place, .line _ rest => rest.spans (place + 1)
  | place, .block first parts rest =>
    ⟨first.blockKind?, place, place + parts.size⟩ ::
      (parts.spans (place + 1) ++ rest.spans (place + parts.size + 1))

def Parts.spans : (place : Nat) → Parts → List Span
  | place, .last body _ => body.spans place
  | place, .clause body _ rest => body.spans place ++ rest.spans (place + body.size + 1)

end

/-- The blocks around a line, outermost first. -/
def Body.enclosing (b : Body) (line : Nat) : List Span := (b.spans 0).filter (Span.holds line)

mutual

theorem Body.spans_bounds : (b : Body) → (place : Nat) →
    ∀ s ∈ b.spans place, place ≤ s.first ∧ s.last < place + b.size
  | .nil, _, s, hs => by cases hs
  | .line _ rest, place, s, hs => by
    have := rest.spans_bounds (place + 1) s hs
    simp only [Body.size]
    omega
  | .block first parts rest, place, s, hs => by
    simp only [Body.spans, List.mem_cons, List.mem_append] at hs
    simp only [Body.size]
    rcases hs with rfl | hs | hs
    · dsimp only
      omega
    · have := parts.spans_bounds (place + 1) s hs
      omega
    · have := rest.spans_bounds (place + parts.size + 1) s hs
      omega

theorem Parts.spans_bounds : (parts : Parts) → (place : Nat) →
    ∀ s ∈ parts.spans place, place ≤ s.first ∧ s.last + 1 < place + parts.size
  | .last body _, place, s, hs => by
    have := body.spans_bounds place s hs
    simp only [Parts.size]
    omega
  | .clause body _ rest, place, s, hs => by
    simp only [Parts.spans, List.mem_append] at hs
    simp only [Parts.size]
    rcases hs with hs | hs
    · have := body.spans_bounds place s hs
      have := rest.size_pos
      omega
    · have := rest.spans_bounds (place + body.size + 1) s hs
      omega

end

/-- Blocks that begin at a line or below it are not around it. -/
theorem filter_holds_below {l : List Span} {line : Nat} (h : ∀ s ∈ l, line ≤ s.first) :
    l.filter (Span.holds line) = [] := by
  rw [List.filter_eq_nil_iff]
  intro s hs
  have := h s hs
  simp only [Span.holds, Bool.and_eq_true, decide_eq_true_eq]
  omega

/-- Blocks that end above a line are not around it. -/
theorem filter_holds_above {l : List Span} {line : Nat} (h : ∀ s ∈ l, s.last < line) :
    l.filter (Span.holds line) = [] := by
  rw [List.filter_eq_nil_iff]
  intro s hs
  have := h s hs
  simp only [Span.holds, Bool.and_eq_true, decide_eq_true_eq]
  omega

theorem Body.filter_spans_below {b : Body} {place line : Nat} (h : line ≤ place) :
    (b.spans place).filter (Span.holds line) = [] :=
  filter_holds_below fun s hs => Nat.le_trans h (b.spans_bounds place s hs).1

theorem Body.filter_spans_above {b : Body} {place line : Nat} (h : place + b.size ≤ line) :
    (b.spans place).filter (Span.holds line) = [] :=
  filter_holds_above fun s hs => Nat.lt_of_lt_of_le (b.spans_bounds place s hs).2 h

theorem Parts.filter_spans_below {parts : Parts} {place line : Nat} (h : line ≤ place) :
    (parts.spans place).filter (Span.holds line) = [] :=
  filter_holds_below fun s hs => Nat.le_trans h (parts.spans_bounds place s hs).1

theorem Parts.filter_spans_above {parts : Parts} {place line : Nat}
    (h : place + parts.size ≤ line + 1) : (parts.spans place).filter (Span.holds line) = [] :=
  filter_holds_above fun s hs => by
    have := (parts.spans_bounds place s hs).2
    omega

/-! ## Own lines -/

/-- The clauses and the closing line of a block. -/
def Parts.own : (place : Nat) → Parts → List Nat
  | place, .last body _ => [place + body.size]
  | place, .clause body _ rest => (place + body.size) :: rest.own (place + body.size + 1)

theorem Parts.own_bounds : (parts : Parts) → (place : Nat) →
    ∀ t ∈ parts.own place, place ≤ t ∧ t < place + parts.size
  | .last body _, place, t, ht => by
    rw [Parts.own, List.mem_singleton] at ht
    simp only [Parts.size]
    omega
  | .clause body _ rest, place, t, ht => by
    simp only [Parts.own, List.mem_cons] at ht
    simp only [Parts.size]
    rcases ht with rfl | ht
    · omega
    · have := rest.own_bounds (place + body.size + 1) t ht
      omega

theorem Parts.find_mem_own {wanted : Statement → Bool} {t : Nat} : (parts : Parts) →
    (place : Nat) → parts.find wanted place = some t → t ∈ parts.own place
  | .last body _, place, h => by
    rw [Parts.find] at h
    split at h
    · cases h
      exact List.mem_singleton.2 rfl
    · cases h
  | .clause body _ rest, place, h => by
    rw [Parts.find] at h
    rw [Parts.own]
    split at h
    · cases h
      exact List.mem_cons_self
    · exact List.mem_cons_of_mem _ (rest.find_mem_own _ h)

/-- No inner block is around an own line of a block, or around the line after it. -/
theorem Parts.filter_spans_own : (parts : Parts) → (place : Nat) → ∀ t ∈ parts.own place,
    (parts.spans place).filter (Span.holds t) = [] ∧
      (parts.spans place).filter (Span.holds (t + 1)) = []
  | .last body _, place, t, ht => by
    rw [Parts.own, List.mem_singleton] at ht
    exact ⟨Body.filter_spans_above (by omega), Body.filter_spans_above (by omega)⟩
  | .clause body _ rest, place, t, ht => by
    simp only [Parts.own, List.mem_cons] at ht
    simp only [Parts.spans, List.filter_append, List.append_eq_nil_iff]
    rcases ht with rfl | ht
    · exact ⟨⟨Body.filter_spans_above (by omega), Parts.filter_spans_below (by omega)⟩,
        Body.filter_spans_above (by omega), Parts.filter_spans_below (by omega)⟩
    · have hle := (rest.own_bounds (place + body.size + 1) t ht).1
      obtain ⟨h, h'⟩ := rest.filter_spans_own (place + body.size + 1) t ht
      exact ⟨⟨Body.filter_spans_above (by omega), h⟩, Body.filter_spans_above (by omega), h'⟩

/-! ## What is known of a block -/

section Facts

variable {p : Program} {around : Nat → List Span}

/-- What a program needs to know of one of its blocks, where `around` tells the
blocks around each line. -/
structure Span.IsBlock (p : Program) (around : Nat → List Span) (b : Span) : Prop where
  opens : ∃ st, p.statement? b.first = some st ∧ st.role = .opener ∧ st.blockKind? = b.kind ∧
    p.closer b.first st.closedBy = some b.last
  inside : around (b.first + 1) = around b.first ++ [b]
  /-- Every own line is in the block and in no inner one, and so is the line after a clause. -/
  own : ∀ wanted t, p.closer b.first wanted = some t →
    around t = around b.first ++ [b] ∧ (t < b.last → around (t + 1) = around b.first ++ [b])
  after : around (b.last + 1) = around b.first

theorem Span.IsBlock.last {b : Span} (h : b.IsBlock p around) :
    around b.last = around b.first ++ [b] := by
  obtain ⟨st, _, _, _, hclose⟩ := h.opens
  exact (h.own _ _ hclose).1

/-- Every block of a list is a block of the program, and those before it are all
that is around it. -/
def Chain (p : Program) (around : Nat → List Span) (l : List Span) : Prop :=
  ∀ outer b inner, l = outer ++ b :: inner → b.IsBlock p around ∧ outer = around b.first

theorem chain_nil : Chain p around [] := by
  intro outer b inner h
  cases outer <;> cases h

theorem Chain.concat {l : List Span} {b : Span} (h : Chain p around l) (hb : b.IsBlock p around)
    (hl : l = around b.first) : Chain p around (l ++ [b]) := by
  intro outer c inner he
  rcases List.eq_nil_or_concat inner with rfl | ⟨inner, d, rfl⟩
  · obtain ⟨rfl, hc⟩ := List.append_inj_left' he rfl, List.append_inj_right' he rfl
    cases hc
    exact ⟨hb, hl⟩
  · have hcons : l ++ [b] = (outer ++ c :: inner) ++ [d] := by
      rw [he]
      simp
    exact h outer c inner (List.append_inj_left' hcons rfl)

/-- What is known of a line, by the role of its statement. -/
inductive LineAt (p : Program) (around : Nat → List Span) (line : Nat) (st : Statement) : Prop where
  | plain (hr : st.role = .plain) (hn : around (line + 1) = around line)
  | opener (b : Span) (hr : st.role = .opener) (hb : b.IsBlock p around) (hl : b.first = line)
  | clause (b : Span) (hr : st.role = .clause) (hb : b.IsBlock p around)
      (he : around line = around b.first ++ [b]) (hn : around (line + 1) = around line)
      (ho : p.opener line st.openedBy = some b.first)
      (hc : ∀ wanted t, p.closer line wanted = some t → around t = around line)
  | closer (b : Span) (first : Statement) (hr : st.role = .closer) (hb : b.IsBlock p around)
      (hl : b.last = line) (hf : p.statement? b.first = some first) (hm : first.ends st = true)
      (ho : st ≠ .endSub → p.opener line st.openedBy = some b.first)

end Facts

/-! ## Every line -/

section Lines

variable {p : Program} {around : Nat → List Span}

/-- A body stands in the program at `place`, inside the blocks `outer`. -/
structure Body.Placed (p : Program) (around : Nat → List Span) (b : Body) (place level : Nat)
    (outer : List Span) : Prop where
  lines : p.Lays place (b.laid level)
  around_eq : ∀ l, place ≤ l → l ≤ place + b.size →
    around l = outer ++ (b.spans place).filter (Span.holds l)
  chain : Chain p around outer

namespace Body.Placed

variable {first st : Statement} {parts : Parts} {rest : Body} {place level : Nat}
  {outer : List Span}

theorem around_start {b : Body} (h : Placed p around b place level outer) : around place = outer := by
  rw [h.around_eq place (Nat.le_refl _) (by omega), filter_spans_below (Nat.le_refl _),
    List.append_nil]

theorem line_rest (h : Placed p around (.line st rest) place level outer) :
    Placed p around rest (place + 1) level outer where
  lines := h.lines.tail
  around_eq l hl hl' := h.around_eq l (by omega) (by simp only [Body.size]; omega)
  chain := h.chain

/-- In a block, and past it. -/
theorem around_block (h : Placed p around (.block first parts rest) place level outer) {l : Nat}
    (hl : place < l) (hl' : l ≤ place + parts.size + rest.size + 1) :
    around l = outer ++ if l ≤ place + parts.size then
        ⟨first.blockKind?, place, place + parts.size⟩ ::
          (parts.spans (place + 1)).filter (Span.holds l)
      else (rest.spans (place + parts.size + 1)).filter (Span.holds l) := by
  rw [h.around_eq l (Nat.le_of_lt hl) (by simp only [Body.size]; omega), Body.spans,
    List.filter_cons, List.filter_append]
  by_cases hin : l ≤ place + parts.size
  · have hholds : Span.holds l ⟨first.blockKind?, place, place + parts.size⟩ = true := by
      simp [Span.holds, hl, hin]
    rw [if_pos hholds, if_pos hin, rest.filter_spans_below (by omega), List.append_nil]
  · have hholds : ¬ Span.holds l ⟨first.blockKind?, place, place + parts.size⟩ = true := by
      simp [Span.holds, hin]
    rw [if_neg hholds, if_neg hin, parts.filter_spans_above (by omega), List.nil_append]

theorem blockAt (h : Placed p around (.block first parts rest) place level outer)
    (hn : parts.nested first = true) : BlockAt p place level first [] parts where
  lines := by
    have hl := h.lines
    rw [Body.laid, ← List.cons_append] at hl
    exact hl.left
  passed l hl := by cases hl
  nested := hn

theorem isBlock (h : Placed p around (.block first parts rest) place level outer)
    (hn : parts.nested first = true) :
    Span.IsBlock p around ⟨first.blockKind?, place, place + parts.size⟩ := by
  have hpos := parts.size_pos
  have hat := h.blockAt hn
  have hstart := h.around_start
  refine ⟨⟨first, hat.lines.statement, Parts.nested_opener hn, rfl, ?_⟩, ?_, ?_, ?_⟩
  · rw [hat.closer, parts.find_closedBy place hn]
  · dsimp only
    rw [hstart, h.around_block (by omega) (by omega), if_pos (by omega),
      parts.filter_spans_below (Nat.le_refl _)]
  · intro wanted t ht
    dsimp only at ht ⊢
    rw [hat.closer] at ht
    have hown := parts.find_mem_own _ ht
    obtain ⟨hlow, hhigh⟩ := parts.own_bounds _ t hown
    obtain ⟨hnone, hnone'⟩ := parts.filter_spans_own _ t hown
    refine ⟨?_, fun hlt => ?_⟩
    · rw [hstart, h.around_block (by omega) (by omega), if_pos (by omega), hnone]
    · rw [hstart, h.around_block (by omega) (by omega), if_pos (by omega), hnone']
  · dsimp only
    rw [hstart, h.around_block (by omega) (by omega), if_neg (by omega),
      rest.filter_spans_below (Nat.le_refl _), List.append_nil]

theorem block_rest (h : Placed p around (.block first parts rest) place level outer) :
    Placed p around rest (place + parts.size + 1) level outer where
  lines := by
    have hl := h.lines
    rw [Body.laid, ← List.cons_append] at hl
    have := hl.right
    rwa [List.length_cons, parts.length_laid, ← Nat.add_assoc] at this
  around_eq l hl hl' := by
    rw [h.around_block (by omega) (by omega), if_neg (by omega)]
  chain := h.chain

end Body.Placed

/-- The rest of a block `b`, from `place` on. -/
structure Parts.Placed (p : Program) (around : Nat → List Span) (parts : Parts) (place level : Nat)
    (first : Statement) (behind : List Line) (b : Span) : Prop where
  block : BlockAt p b.first level first behind parts
  isBlock : b.IsBlock p around
  place_eq : place = b.first + 1 + behind.length
  last_eq : b.last + 1 = place + parts.size
  around_eq : ∀ l, place ≤ l → l < place + parts.size →
    around l = (around b.first ++ [b]) ++ (parts.spans place).filter (Span.holds l)
  chain : Chain p around (around b.first ++ [b])

/-- All that follows the first line of a block. -/
theorem Body.Placed.parts {first : Statement} {parts : Parts} {rest : Body} {place level : Nat}
    {outer : List Span} (h : Body.Placed p around (.block first parts rest) place level outer)
    (hn : parts.nested first = true) :
    parts.Placed p around (place + 1) level first []
      ⟨first.blockKind?, place, place + parts.size⟩ where
  block := h.blockAt hn
  isBlock := h.isBlock hn
  place_eq := rfl
  last_eq := by
    dsimp only
    omega
  around_eq l hl hl' := by
    dsimp only
    rw [h.around_start, h.around_block (by omega) (by omega), if_pos (by omega), List.append_assoc]
    rfl
  chain := by
    dsimp only
    rw [h.around_start]
    exact h.chain.concat (h.isBlock hn) h.around_start.symm

namespace Parts.Placed

variable {first closing dividing : Statement} {rest : Parts} {body : Body} {place level : Nat}
  {behind : List Line} {b : Span}

theorem last_body (h : Placed p around (.last body closing) place level first behind b) :
    Body.Placed p around body place (level + 1) (around b.first ++ [b]) where
  lines := by
    rw [h.place_eq]
    exact h.block.lays_body
  around_eq l hl hl' := h.around_eq l hl (by simp only [Parts.size]; omega)
  chain := h.chain

/-- In the body before a clause, at the clause, and past it. -/
theorem around_clause (h : Placed p around (.clause body dividing rest) place level first behind b)
    {l : Nat} (hl : place ≤ l) (hl' : l < place + body.size + rest.size + 1) :
    around l = (around b.first ++ [b]) ++ ((body.spans place).filter (Span.holds l) ++
      (rest.spans (place + body.size + 1)).filter (Span.holds l)) := by
  rw [h.around_eq l hl (by simp only [Parts.size]; omega), Parts.spans, List.filter_append]

theorem clause_body (h : Placed p around (.clause body dividing rest) place level first behind b) :
    Body.Placed p around body place (level + 1) (around b.first ++ [b]) where
  lines := by
    rw [h.place_eq]
    exact h.block.lays_clause_body
  around_eq l hl hl' := by
    rw [h.around_clause hl (by omega), rest.filter_spans_below (by omega), List.append_nil]
  chain := h.chain

theorem clause_rest (h : Placed p around (.clause body dividing rest) place level first behind b) :
    Placed p around rest (place + body.size + 1) level first
      (behind ++ (body.laid (level + 1) ++ [⟨level, dividing⟩])) b where
  block := h.block.next
  isBlock := h.isBlock
  place_eq := by
    rw [h.place_eq, List.length_append, List.length_append, body.length_laid, List.length_singleton]
    omega
  last_eq := by
    have := h.last_eq
    simp only [Parts.size] at this
    omega
  around_eq l hl hl' := by
    rw [h.around_clause (by omega) (by omega), body.filter_spans_above (by omega), List.nil_append]
  chain := h.chain

/-- What is known of a clause. -/
theorem lineAt_clause
    (h : Placed p around (.clause body dividing rest) place level first behind b) :
    around (place + body.size) = around b.first ++ [b] ∧
      LineAt p around (place + body.size) dividing := by
  have hn := h.block.nested
  simp only [Parts.nested, Bool.and_eq_true] at hn
  have hpos := rest.size_pos
  have hhere : around (place + body.size) = around b.first ++ [b] := by
    rw [h.around_clause (by omega) (by omega), body.filter_spans_above (Nat.le_refl _),
      rest.filter_spans_below (by omega), List.append_nil, List.append_nil]
  refine ⟨hhere, .clause b (Statement.role_of_divides hn.1.2).2 h.isBlock hhere ?_ ?_ ?_⟩
  · rw [hhere, h.clause_rest.around_eq _ (Nat.le_refl _) (by omega),
      rest.filter_spans_below (Nat.le_refl _), List.append_nil]
  · rw [h.place_eq]
    exact h.block.opener_clause
  · intro wanted t ht
    rw [h.place_eq, h.block.closer_clause, ← h.place_eq] at ht
    have hown := rest.find_mem_own _ ht
    obtain ⟨hlow, hhigh⟩ := rest.own_bounds _ t hown
    rw [hhere, h.clause_rest.around_eq t hlow hhigh, (rest.filter_spans_own _ t hown).1,
      List.append_nil]

/-- What is known of a closing line. -/
theorem lineAt_closing (h : Placed p around (.last body closing) place level first behind b) :
    around (place + body.size) = around b.first ++ [b] ∧
      LineAt p around (place + body.size) closing := by
  have hn := h.block.nested
  simp only [Parts.nested, Bool.and_eq_true] at hn
  have hlast : b.last = place + body.size := by
    have := h.last_eq
    simp only [Parts.size] at this
    omega
  refine ⟨?_, .closer b first (Statement.role_of_ends hn.2).2 h.isBlock hlast
    h.block.lines.statement hn.2 fun hsub => ?_⟩
  · rw [← hlast]
    exact h.isBlock.last
  · rw [h.place_eq]
    exact h.block.opener_closing hsub

end Parts.Placed

mutual

/-- Every line of a body is known, and so are the blocks around it. -/
theorem Body.lineAt : (b : Body) → b.nested = true → {place level : Nat} → {outer : List Span} →
    b.Placed p around place level outer → ∀ l st, place ≤ l → l < place + b.size →
    p.statement? l = some st → Chain p around (around l) ∧ LineAt p around l st
  | .nil, _, place, _, _, _, l, st, hl, hl', _ => by
    simp only [Body.size] at hl'
    omega
  | .line st' rest, hn, place, level, outer, h, l, st, hl, hl', hst => by
    simp only [Body.nested, Bool.and_eq_true, decide_eq_true_eq] at hn
    simp only [Body.size] at hl'
    rcases Nat.eq_or_lt_of_le hl with rfl | hlt
    · rw [h.lines.statement] at hst
      cases hst
      have hnext := h.line_rest.around_start
      have hhere := h.around_start
      refine ⟨?_, .plain hn.1 (by rw [hhere, hnext])⟩
      rw [hhere]
      exact h.chain
    · exact rest.lineAt hn.2 h.line_rest l st hlt (by omega) hst
  | .block first parts rest, hn, place, level, outer, h, l, st, hl, hl', hst => by
    simp only [Body.nested, Bool.and_eq_true] at hn
    simp only [Body.size] at hl'
    rcases Nat.eq_or_lt_of_le hl with rfl | hlt
    · rw [(h.blockAt hn.1).lines.statement] at hst
      cases hst
      rw [h.around_start]
      exact ⟨h.chain, .opener _ (Parts.nested_opener hn.1) (h.isBlock hn.1) rfl⟩
    · rcases Nat.lt_or_ge (place + parts.size) l with hpast | hin
      · exact rest.lineAt hn.2 h.block_rest l st hpast (by omega) hst
      · exact parts.lineAt (h.parts hn.1) l st hlt (by omega) hst

theorem Parts.lineAt : (parts : Parts) → {place level : Nat} → {first : Statement} →
    {behind : List Line} → {b : Span} → parts.Placed p around place level first behind b →
    ∀ l st, place ≤ l → l < place + parts.size → p.statement? l = some st →
    Chain p around (around l) ∧ LineAt p around l st
  | .last body closing, place, level, first, behind, b, h, l, st, hl, hl', hst => by
    have hn := h.block.nested
    simp only [Parts.nested, Bool.and_eq_true] at hn
    simp only [Parts.size] at hl'
    rcases Nat.lt_or_ge l (place + body.size) with hin | hout
    · exact body.lineAt hn.1 h.last_body l st hl hin hst
    · obtain rfl : l = place + body.size := by omega
      have hline := h.block.lays_closing.statement
      rw [← h.place_eq, hst] at hline
      cases hline
      obtain ⟨he, hat⟩ := h.lineAt_closing
      rw [he]
      exact ⟨h.chain, hat⟩
  | .clause body dividing rest, place, level, first, behind, b, h, l, st, hl, hl', hst => by
    have hn := h.block.nested
    simp only [Parts.nested, Bool.and_eq_true] at hn
    simp only [Parts.size] at hl'
    rcases Nat.lt_trichotomy l (place + body.size) with hin | rfl | hout
    · exact body.lineAt hn.1.1 h.clause_body l st hl hin hst
    · have hline := h.block.lays_clause.statement
      rw [← h.place_eq, hst] at hline
      cases hline
      obtain ⟨he, hat⟩ := h.lineAt_clause
      rw [he]
      exact ⟨h.chain, hat⟩
    · exact rest.lineAt h.clause_rest l st hout (by omega) hst

end

/-- Every line of the program of a well-nested tree is known. -/
theorem Body.lineAt_program {b : Body} (h : b.nested = true) {l : Nat} {st : Statement}
    (hst : (Program.ofStatements b.text).statement? l = some st) :
    Chain (Program.ofStatements b.text) b.enclosing (b.enclosing l) ∧
      LineAt (Program.ofStatements b.text) b.enclosing l st := by
  have hlines := b.lines_ofStatements h
  have hl := Program.lt_size_of_statement? hst
  rw [Program.size, hlines, b.length_laid] at hl
  have hplaced : b.Placed (Program.ofStatements b.text) b.enclosing 0 0 [] := by
    refine ⟨⟨[], [], ?_, rfl⟩, fun l _ _ => rfl, chain_nil⟩
    rw [hlines, List.append_nil, List.nil_append]
  exact b.lineAt h hplaced l st (Nat.zero_le l) (by omega) hst

theorem Body.enclosing_zero (b : Body) : b.enclosing 0 = [] := b.filter_spans_below (Nat.le_refl 0)

/-- Past the end there are no blocks. -/
theorem Body.enclosing_end {b : Body} {l : Nat} (h : b.size ≤ l) : b.enclosing l = [] :=
  b.filter_spans_above (by omega)

/-- The blocks around any line at all are a chain. -/
theorem Body.chain_enclosing {b : Body} (h : b.nested = true) (l : Nat) :
    Chain (Program.ofStatements b.text) b.enclosing (b.enclosing l) := by
  cases hst : (Program.ofStatements b.text).statement? l with
  | some st => exact (b.lineAt_program h hst).1
  | none =>
    have hsize : b.size ≤ l := by
      simp only [Program.statement?, Program.line?, Option.map_eq_none_iff,
        List.getElem?_eq_none_iff, b.lines_ofStatements h, b.length_laid] at hst
      exact hst
    rw [Body.enclosing_end hsize]
    exact chain_nil

end Lines

end LineBasic
