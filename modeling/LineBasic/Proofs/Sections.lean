-- The sections of a TRY block. In a well-nested text with at most one CATCH and,
-- after it, at most one FINALLY, these two are the only lines between the first and
-- the last that share the indent of the block, so each section is a stretch of
-- deeper lines between two lines of the block.
import LineBasic.Proofs.Around
import LineBasic.Proofs.Mirror

namespace LineBasic

/-! ## Tidy trees -/

/-- The clauses that divide a block, in order. -/
def Parts.clauses : Parts → List Statement
  | .last _ _ => []
  | .clause _ dividing rest => dividing :: rest.clauses

/-- At most one CATCH, and after it at most one FINALLY. -/
def tidyClauses : List Statement → Bool
  | [] => true
  | [st] => st.isCatch || st.isFinally
  | [st, st'] => st.isCatch && st'.isFinally
  | _ => false

mutual

/-- Every TRY block has at most one CATCH and after it at most one FINALLY. -/
def Body.tidy : Body → Bool
  | .nil => true
  | .line _ rest => rest.tidy
  | .block first parts rest =>
    (!first.opensTry || tidyClauses parts.clauses) && parts.tidy && rest.tidy

def Parts.tidy : Parts → Bool
  | .last body _ => body.tidy
  | .clause body _ rest => body.tidy && rest.tidy

end

section Find

variable {p : Program}

mutual

/-- The block that begins at a line of a body. -/
theorem Body.exists_blockAt : (b : Body) → {place level : Nat} → b.nested = true →
    b.tidy = true → p.Lays place (b.laid level) → ∀ l st, place ≤ l → l < place + b.size →
    p.statement? l = some st → st.role = .opener →
    ∃ level parts, BlockAt p l level st [] parts ∧
      (st.opensTry = true → tidyClauses parts.clauses = true)
  | .nil, place, level, _, _, _, l, st, hl, hl', _, _ => by
    simp only [Body.size] at hl'
    omega
  | .line st' rest, place, level, hn, ht, h, l, st, hl, hl', hst, hr => by
    simp only [Body.nested, Bool.and_eq_true, decide_eq_true_eq] at hn
    simp only [Body.size] at hl'
    rcases Nat.eq_or_lt_of_le hl with rfl | hlt
    · cases h.statement.symm.trans hst
      cases hn.1.symm.trans hr
    · exact rest.exists_blockAt hn.2 ht h.tail l st hlt (by omega) hst hr
  | .block first parts rest, place, level, hn, ht, h, l, st, hl, hl', hst, hr => by
    simp only [Body.nested, Bool.and_eq_true] at hn
    simp only [Body.tidy, Bool.and_eq_true] at ht
    simp only [Body.size] at hl'
    rcases Nat.eq_or_lt_of_le hl with rfl | hlt
    · cases h.statement.symm.trans hst
      rw [Body.laid, ← List.cons_append] at h
      refine ⟨level, parts, ⟨h.left, fun l hl => (by cases hl), hn.1⟩, fun htry => ?_⟩
      simpa [htry] using ht.1.1
    · rcases Nat.lt_or_ge l (place + 1 + parts.size) with hin | hout
      · exact parts.exists_blockAt hn.1 ht.1.2 h.tail.left l st hlt hin hst hr
      · have hrest := h.tail.right
        rw [parts.length_laid] at hrest
        exact rest.exists_blockAt hn.2 ht.2 hrest l st hout (by omega) hst hr

theorem Parts.exists_blockAt : (parts : Parts) → {place level : Nat} → {first : Statement} →
    parts.nested first = true → parts.tidy = true → p.Lays place (parts.laid level) →
    ∀ l st, place ≤ l → l < place + parts.size → p.statement? l = some st → st.role = .opener →
    ∃ level parts, BlockAt p l level st [] parts ∧
      (st.opensTry = true → tidyClauses parts.clauses = true)
  | .last body closing, place, level, first, hn, ht, h, l, st, hl, hl', hst, hr => by
    simp only [Parts.nested, Bool.and_eq_true] at hn
    simp only [Parts.size] at hl'
    rcases Nat.lt_or_ge l (place + body.size) with hin | hout
    · exact body.exists_blockAt hn.1 ht h.left l st hl hin hst hr
    · obtain rfl : l = place + body.size := by omega
      have hline := h.right.statement
      rw [body.length_laid] at hline
      cases hline.symm.trans hst
      cases (Statement.role_of_ends hn.2).2.symm.trans hr
  | .clause body dividing rest, place, level, first, hn, ht, h, l, st, hl, hl', hst, hr => by
    simp only [Parts.nested, Bool.and_eq_true] at hn
    simp only [Parts.tidy, Bool.and_eq_true] at ht
    simp only [Parts.size] at hl'
    have hright := h.right
    rw [body.length_laid] at hright
    rcases Nat.lt_trichotomy l (place + body.size) with hin | rfl | hout
    · exact body.exists_blockAt hn.1.1 ht.1 h.left l st hl hin hst hr
    · cases hright.statement.symm.trans hst
      cases (Statement.role_of_divides hn.1.2).2.symm.trans hr
    · exact rest.exists_blockAt hn.2 ht.2 hright.tail l st hout (by omega) hst hr

end

theorem Body.deeper_of_laid {b : Body} {place level : Nat} (h : p.Lays place (b.laid (level + 1)))
    {i : Nat} (hi : place ≤ i) (hi' : i < place + b.size) :
    ∃ l, p.line? i = some l ∧ level < l.indent := by
  obtain ⟨pre, post, hlines, rfl⟩ := h
  have hlt : i - pre.length < (b.laid (level + 1)).length := by
    rw [b.length_laid]
    omega
  have hget : p.lines[i]? = (b.laid (level + 1))[i - pre.length]? := by
    rw [hlines, List.getElem?_append_right hi, List.getElem?_append_left hlt]
  rw [List.getElem?_eq_getElem hlt] at hget
  exact ⟨_, hget, b.le_indent (level + 1) _ (List.getElem_mem hlt)⟩

/-- Between its own lines a block has only deeper ones. -/
theorem Parts.deeper_of_not_own : (parts : Parts) → {place level : Nat} →
    p.Lays place (parts.laid level) → ∀ i, place ≤ i → i < place + parts.size →
    i ∉ parts.own place → ∃ l, p.line? i = some l ∧ level < l.indent
  | .last body closing, place, level, h, i, hi, hi', hown => by
    simp only [Parts.size] at hi'
    simp only [Parts.own, List.mem_singleton] at hown
    exact Body.deeper_of_laid h.left hi (by omega)
  | .clause body dividing rest, place, level, h, i, hi, hi', hown => by
    simp only [Parts.size] at hi'
    simp only [Parts.own, List.mem_cons, not_or] at hown
    rcases Nat.lt_or_ge i (place + body.size) with hin | hout
    · exact Body.deeper_of_laid h.left hi hin
    · have hright := h.right
      rw [body.length_laid] at hright
      exact rest.deeper_of_not_own hright.tail i (by omega) (by omega) hown.2

end Find

/-! ## Tidy programs -/

/-- The CATCH of a TRY block stands before its FINALLY, and what else is between its
first and last line stands further in. -/
structure Program.TidyTry (p : Program) (first : Nat) : Prop where
  ordered : ∀ c f, p.closer first Statement.isCatch = some c →
    p.closer first Statement.isFinally = some f → c < f
  deeper : ∀ level last i, p.Spans level first last →
    p.closer first Statement.closesTry = some last → first < i → i < last →
    p.closer first Statement.isCatch ≠ some i → p.closer first Statement.isFinally ≠ some i →
    ∃ l, p.line? i = some l ∧ level < l.indent

/-- What may follow the first line of a tidy TRY block. -/
inductive Parts.OfTry : Parts → Prop where
  | bare (body : Body) : OfTry (.last body .endTry)
  | catching (body handler : Body) (name : Option Name) :
      OfTry (.clause body (.catch name) (.last handler .endTry))
  | finishing (body cleanup : Body) : OfTry (.clause body .finally (.last cleanup .endTry))
  | both (body handler cleanup : Body) (name : Option Name) :
      OfTry (.clause body (.catch name) (.clause handler .finally (.last cleanup .endTry)))

theorem Statement.eq_endTry_of_ends {st : Statement} (h : Statement.ends .try st = true) :
    st = .endTry := by
  cases st <;> first | rfl | cases h

theorem Statement.eq_finally {st : Statement} (h : st.isFinally = true) : st = .finally := by
  cases st <;> first | rfl | cases h

theorem Statement.eq_catch {st : Statement} (h : st.isCatch = true) : ∃ name, st = .catch name := by
  cases st <;> first | exact ⟨_, rfl⟩ | cases h

theorem Parts.ofTry {parts : Parts} (hn : parts.nested .try = true)
    (ht : tidyClauses parts.clauses = true) : parts.OfTry := by
  cases parts with
  | last body closing =>
    simp only [Parts.nested, Bool.and_eq_true] at hn
    obtain rfl := Statement.eq_endTry_of_ends hn.2
    exact .bare body
  | clause body dividing rest =>
    cases rest with
    | last body' closing =>
      simp only [Parts.nested, Bool.and_eq_true] at hn
      obtain rfl := Statement.eq_endTry_of_ends hn.2.2
      simp only [Parts.clauses, tidyClauses, Bool.or_eq_true] at ht
      rcases ht with ht | ht
      · obtain ⟨name, rfl⟩ := Statement.eq_catch ht
        exact .catching body body' name
      · obtain rfl := Statement.eq_finally ht
        exact .finishing body body'
    | clause body' dividing' rest =>
      cases rest with
      | last body'' closing =>
        simp only [Parts.nested, Bool.and_eq_true] at hn
        obtain rfl := Statement.eq_endTry_of_ends hn.2.2.2
        simp only [Parts.clauses, tidyClauses, Bool.and_eq_true] at ht
        obtain ⟨name, rfl⟩ := Statement.eq_catch ht.1
        obtain rfl := Statement.eq_finally ht.2
        exact .both body body' body'' name
      | clause _ _ _ => cases ht

/-- The own lines of a tidy TRY block are the two clauses and the end. -/
theorem Parts.OfTry.find_of_own {parts : Parts} {place i : Nat} (h : parts.OfTry)
    (hi : i ∈ parts.own place) :
    parts.find Statement.isCatch place = some i ∨ parts.find Statement.isFinally place = some i ∨
      parts.find Statement.closesTry place = some i := by
  cases h with
  | bare body => simp_all [Parts.own, Parts.find, Statement.closesTry]
  | catching body handler name =>
    rcases (by simpa [Parts.own] using hi) with rfl | rfl
    · exact Or.inl rfl
    · exact Or.inr (Or.inr rfl)
  | finishing body cleanup =>
    rcases (by simpa [Parts.own] using hi) with rfl | rfl
    · exact Or.inr (Or.inl rfl)
    · exact Or.inr (Or.inr rfl)
  | both body handler cleanup name =>
    rcases (by simpa [Parts.own] using hi) with rfl | rfl | rfl
    · exact Or.inl rfl
    · exact Or.inr (Or.inl rfl)
    · exact Or.inr (Or.inr rfl)

theorem Parts.OfTry.find_lt_find {parts : Parts} {place c f : Nat} (h : parts.OfTry)
    (hc : parts.find Statement.isCatch place = some c)
    (hf : parts.find Statement.isFinally place = some f) : c < f := by
  cases h with
  | bare body => cases hc
  | catching body handler name => cases hf
  | finishing body cleanup => cases hc
  | both body handler cleanup name =>
    cases hc
    cases hf
    omega

theorem BlockAt.tidyTry {p : Program} {first level : Nat} {parts : Parts}
    (h : BlockAt p first level .try [] parts) (ht : tidyClauses parts.clauses = true) :
    p.TidyTry first := by
  refine ⟨fun c f hc hf => ?_, fun level' last i hspan hlast hi hi' hcatch hfinally => ?_⟩
  · rw [h.closer] at hc hf
    exact (Parts.ofTry h.nested ht).find_lt_find hc hf
  · rw [h.closer] at hlast hcatch hfinally
    rw [show Statement.closesTry = Statement.closedBy .try from rfl,
      parts.find_closedBy first h.nested] at hlast
    cases hlast
    obtain ⟨l, hl, rfl⟩ := hspan.low
    cases hl.symm.trans h.lines.line
    refine parts.deeper_of_not_own h.lines.tail i hi (by omega) fun hown => ?_
    rcases (Parts.ofTry h.nested ht).find_of_own hown with hf | hf | hf
    · exact hcatch hf
    · exact hfinally hf
    · rw [show Statement.closesTry = Statement.closedBy .try from rfl,
        parts.find_closedBy first h.nested] at hf
      cases hf
      omega

/-- A well-nested program without jumps to labels, with tidy TRY blocks whose CATCH
variables can hold text. -/
structure Body.Guarded (b : Body) : Prop where
  nested : b.nested = true
  tidy : b.tidy = true
  jumps : ∀ st ∈ b.text, st.jumps = false
  names : ∀ st ∈ b.text, ∀ name, st = .catch (some name) → name.isText = true

/-- What is used of such a program. -/
structure Program.Guarded (p : Program) : Prop where
  made : p.Made
  jumpless : p.Jumpless
  tidy : ∀ l, p.statement? l = some .try → p.TidyTry l
  /-- Every END SUB ends a SUB. -/
  paired : ∀ l, p.statement? l = some .endSub → ∃ a, p.IsSub a l
  names : ∀ l name, p.catchName? l = some name → name.isText = true

theorem Body.Guarded.program {b : Body} (h : b.Guarded) :
    (Program.ofStatements b.text).Guarded := by
  have htext : ∀ {l st}, (Program.ofStatements b.text).statement? l = some st → st ∈ b.text := by
    intro l st hst
    rw [Program.statement?_ofStatements] at hst
    exact List.mem_of_getElem? hst
  refine ⟨.ofLines _, ?_, ?_, ?_, ?_⟩
  · intro l st hst label
    have hjumps := h.jumps st (htext hst)
    refine ⟨?_, ?_⟩
    · rintro rfl
      cases hjumps
    · rintro rfl
      cases hjumps
  · intro l hst
    have hlines := b.lines_ofStatements h.nested
    have hlays : (Program.ofStatements b.text).Lays 0 (b.laid 0) := by
      refine ⟨[], [], ?_, rfl⟩
      rw [hlines, List.append_nil, List.nil_append]
    have hl := Program.lt_size_of_statement? hst
    rw [Program.size, hlines, b.length_laid] at hl
    obtain ⟨level, parts, hat, htidy⟩ :=
      b.exists_blockAt h.nested h.tidy hlays l .try (Nat.zero_le l) (by omega) hst rfl
    exact hat.tidyTry (htidy rfl)
  · intro l hst
    cases (b.lineAt_program h.nested hst).2 with
    | plain hr _ => cases hr
    | opener _ hr _ _ => cases hr
    | clause _ hr _ _ _ _ _ => cases hr
    | closer s first _ hs hl hf hm _ =>
      have hclose := (hs.opens_of hf).2
      rw [hl] at hclose
      cases first <;> first | exact ⟨s.first, _, _, hf, hclose⟩ | cases hm
  · intro l name hname
    unfold Program.catchName? at hname
    split at hname
    · rename_i name' hst
      exact h.names _ (htext hst) name (by rw [hname])
    · cases hname

/-! ## Sections -/

/-- A TRY block that a program has entered: the blocks below its frame, its first and
last line, its call and its clauses. -/
structure Attempt where
  below : List Frame
  first : Nat
  last : Nat
  depth : Nat
  catchLine : Option Nat
  finallyLine : Option Nat

namespace Attempt

/-- The frame of the block in a phase, with the error that waits for its end. -/
def frame (X : Attempt) (phase : TryPhase) (pending : Option Error) : Frame :=
  ⟨X.first, X.last, X.depth, .try ⟨phase, X.catchLine, X.finallyLine, pending⟩⟩

/-- The line before a section. -/
def low (X : Attempt) : TryPhase → Nat
  | .body => X.first
  | .catch => X.catchLine.getD X.first
  | .finally => X.finallyLine.getD X.first

/-- The line after a section. -/
def high (X : Attempt) : TryPhase → Nat
  | .body => (X.catchLine <|> X.finallyLine).getD X.last
  | .catch => X.finallyLine.getD X.last
  | .finally => X.last

variable {X : Attempt} {c f : Nat}

theorem low_catch (hc : X.catchLine = some c) : X.low .catch = c := by simp [low, hc]

theorem low_finally (hf : X.finallyLine = some f) : X.low .finally = f := by simp [low, hf]

theorem high_body_of_catch (hc : X.catchLine = some c) : X.high .body = c := by simp [high, hc]

/-- Without a CATCH the body ends where a CATCH section would. -/
theorem high_body_of_none (hc : X.catchLine = none) : X.high .body = X.high .catch := by
  simp [high, hc]

theorem high_catch_of_finally (hf : X.finallyLine = some f) : X.high .catch = f := by
  simp [high, hf]

theorem high_catch_of_none (hf : X.finallyLine = none) : X.high .catch = X.last := by
  simp [high, hf]

/-- The block has such a section. -/
def has (X : Attempt) : TryPhase → Bool
  | .body => true
  | .catch => X.catchLine.isSome
  | .finally => X.finallyLine.isSome

/-- The block stands in the program. -/
structure Stands (X : Attempt) (p : Program) : Prop where
  statement : p.statement? X.first = some .try
  tidy : p.TidyTry X.first
  last : p.closer X.first Statement.closesTry = some X.last
  catchLine : X.catchLine = p.closer X.first Statement.isCatch
  finallyLine : X.finallyLine = p.closer X.first Statement.isFinally

namespace Stands

variable {p : Program} {phase : TryPhase}

/-- The clauses of the block share its indent. -/
theorem spans_clause {level m : Nat} {wanted : Statement → Bool} (h : X.Stands p)
    (hspan : p.Spans level X.first X.last) (hm : p.closer X.first wanted = some m)
    (hw : wanted .endTry = false) : p.Spans level X.first m ∧ m < X.last := by
  obtain ⟨other, hother⟩ := Program.closer_spans hm
  obtain ⟨l, hl, rfl⟩ := hspan.low
  obtain ⟨l', hl', rfl⟩ := hother.low
  cases hl.symm.trans hl'
  refine ⟨hother, Program.closer_lt_closer hm h.last fun o ho => ?_⟩
  obtain rfl := Statement.eq_endTry ho
  exact ⟨hw, by simp [Statement.role]⟩

/-- A section is a stretch of deeper lines between two lines of the block. -/
theorem stretch (h : X.Stands p) (hp : X.has phase = true) :
    ∃ level, p.Spans level X.first X.last ∧ p.Spans level (X.low phase) (X.high phase) ∧
      (∀ i, X.low phase < i → i < X.high phase → ∃ l, p.line? i = some l ∧ level < l.indent) ∧
      (X.low phase = X.first ∨ p.Spans level X.first (X.low phase)) ∧ X.high phase ≤ X.last := by
  obtain ⟨level, hspan⟩ := Program.closer_spans h.last
  have hcatch : ∀ c, X.catchLine = some c → p.Spans level X.first c ∧ c < X.last := by
    intro c hc
    exact h.spans_clause hspan (h.catchLine ▸ hc) rfl
  have hfinally : ∀ f, X.finallyLine = some f → p.Spans level X.first f ∧ f < X.last := by
    intro f hf
    exact h.spans_clause hspan (h.finallyLine ▸ hf) rfl
  have hordered : ∀ c f, X.catchLine = some c → X.finallyLine = some f → c < f := by
    intro c f hc hf
    exact h.tidy.ordered c f (h.catchLine ▸ hc) (h.finallyLine ▸ hf)
  -- Between two lines of the block with no clause between them all lines are deeper.
  have hstretch : ∀ a z, (∃ l, p.line? a = some l ∧ l.indent = level) →
      (∃ l, p.line? z = some l ∧ l.indent = level) → X.first ≤ a → a < z → z ≤ X.last →
      (∀ i, a < i → i < z → X.catchLine ≠ some i ∧ X.finallyLine ≠ some i) →
      p.Spans level a z ∧ (∀ i, a < i → i < z → ∃ l, p.line? i = some l ∧ level < l.indent) ∧
        (a = X.first ∨ p.Spans level X.first a) ∧ z ≤ X.last := by
    intro a z hla hlz hfirst hlt hlast hnone
    refine ⟨⟨hlt, hla, hlz, fun i hi hi' => hspan.inner i (by omega) (by omega)⟩, ?_, ?_, hlast⟩
    · intro i hi hi'
      obtain ⟨hc, hf⟩ := hnone i hi hi'
      exact h.tidy.deeper level X.last i hspan h.last (by omega) (by omega) (h.catchLine ▸ hc)
        (h.finallyLine ▸ hf)
    · rcases Nat.eq_or_lt_of_le hfirst with heq | hfa
      · exact Or.inl heq.symm
      · exact Or.inr ⟨hfa, hspan.low, hla, fun i hi hi' => hspan.inner i hi (by omega)⟩
  refine ⟨level, hspan, ?_⟩
  cases phase with
  | body =>
    cases hc : X.catchLine with
    | some c =>
      obtain ⟨hsc, hlt⟩ := hcatch c hc
      rw [high_body_of_catch hc]
      refine hstretch X.first c hspan.low hsc.high (Nat.le_refl _) hsc.lt (Nat.le_of_lt hlt) ?_
      refine fun i hi hi' => ⟨fun h => ?_, fun h => ?_⟩
      · cases hc.symm.trans h
        omega
      · have := hordered c i hc h
        omega
    | none =>
      rw [high_body_of_none hc]
      cases hf : X.finallyLine with
      | some f =>
        obtain ⟨hsf, hlt⟩ := hfinally f hf
        rw [high_catch_of_finally hf]
        refine hstretch X.first f hspan.low hsf.high (Nat.le_refl _) hsf.lt (Nat.le_of_lt hlt) ?_
        refine fun i hi hi' => ⟨by simp [hc], fun h => ?_⟩
        cases hf.symm.trans h
        omega
      | none =>
        rw [high_catch_of_none hf]
        exact hstretch X.first X.last hspan.low hspan.high (Nat.le_refl _) hspan.lt (Nat.le_refl _)
          fun i _ _ => ⟨by simp [hc], by simp [hf]⟩
  | «catch» =>
    obtain ⟨c, hc⟩ := Option.isSome_iff_exists.1 hp
    obtain ⟨hsc, hclast⟩ := hcatch c hc
    have hfirst := Nat.le_of_lt hsc.lt
    rw [low_catch hc]
    cases hf : X.finallyLine with
    | some f =>
      obtain ⟨hsf, hlt⟩ := hfinally f hf
      rw [high_catch_of_finally hf]
      refine hstretch c f hsc.high hsf.high hfirst (hordered c f hc hf) (Nat.le_of_lt hlt) ?_
      refine fun i hi hi' => ⟨fun h => ?_, fun h => ?_⟩
      · cases hc.symm.trans h
        omega
      · cases hf.symm.trans h
        omega
    | none =>
      rw [high_catch_of_none hf]
      refine hstretch c X.last hsc.high hspan.high hfirst hclast (Nat.le_refl _) ?_
      refine fun i hi hi' => ⟨fun h => ?_, by simp [hf]⟩
      cases hc.symm.trans h
      omega
  | «finally» =>
    obtain ⟨f, hf⟩ := Option.isSome_iff_exists.1 hp
    obtain ⟨hsf, hflast⟩ := hfinally f hf
    rw [low_finally hf]
    refine hstretch f X.last hsf.high hspan.high (Nat.le_of_lt hsf.lt) hflast (Nat.le_refl _) ?_
    refine fun i hi hi' => ⟨fun h => ?_, fun h => ?_⟩
    · have := hordered i f h hf
      omega
    · cases hf.symm.trans h
      omega

variable {m t : Nat} {wanted : Statement → Bool}

/-- A search down from inside a section ends inside it. -/
theorem closer_lt (h : X.Stands p) (hp : X.has phase = true) (hlow : X.low phase < m)
    (hhigh : m < X.high phase) (hc : p.closer m wanted = some t) : t < X.high phase := by
  obtain ⟨level, _, hspan, hdeep, _⟩ := h.stretch hp
  obtain ⟨l, hl, hi⟩ := hdeep m hlow hhigh
  exact hspan.closer_lt hhigh hl hi hc

/-- A search up from inside a section ends inside it. -/
theorem lt_opener (h : X.Stands p) (hp : X.has phase = true) (hlow : X.low phase < m)
    (hhigh : m < X.high phase) (hc : p.opener m wanted = some t) : X.low phase < t := by
  obtain ⟨level, _, hspan, hdeep, _⟩ := h.stretch hp
  obtain ⟨l, hl, hi⟩ := hdeep m hlow hhigh
  exact hspan.lt_opener hlow hl hi hc

theorem first_le (h : X.Stands p) (hp : X.has phase = true) : X.first ≤ X.low phase := by
  obtain ⟨level, _, _, _, heq | hspan, _⟩ := h.stretch hp
  · omega
  · exact Nat.le_of_lt hspan.lt

/-- An inner block around a line of a section, or around the line after it, is inside
the section. -/
theorem block_inside {g : Frame} {l : Nat} (h : X.Stands p) (hp : X.has phase = true)
    (hg : g.Fits p) (hfirst : X.first < g.first) (hgl : g.first < l) (hlg : l ≤ g.last)
    (hlow : X.low phase < l) (hhigh : l ≤ X.high phase) :
    X.low phase < g.first ∧ g.last < X.high phase := by
  obtain ⟨level, hblock, hspan, hdeep, hbefore, hlast⟩ := h.stretch hp
  obtain ⟨st, hst, hr, _, hclose⟩ := hg.opens
  have hlt : X.low phase < g.first := by
    rcases Nat.lt_trichotomy (X.low phase) g.first with hlt | heq | hgt
    · exact hlt
    · obtain ⟨l', hl', hi⟩ := hblock.deeper hfirst (by omega) hst (by simp [hr])
      obtain ⟨l'', hl'', hi'⟩ := hspan.low
      rw [heq] at hl''
      cases hl'.symm.trans hl''
      omega
    · rcases hbefore with heq | hbefore
      · omega
      · have := hbefore.clear _ _ _ _ hfirst hgt hst hr hclose
        omega
  exact ⟨hlt, hspan.clear _ _ _ _ hlt (by omega) hst hr hclose⟩

/-- The own lines of the block after the first find it. -/
theorem opener_eq {level : Nat} (h : X.Stands p) (hs : p.Spans level X.first m) :
    p.opener m Statement.opensTry = some X.first := by
  refine hs.opener_of_wanted h.statement rfl fun st hst => ?_
  cases st <;> first | rfl | cases hst

theorem catch_at {c : Nat} (h : X.Stands p) (hc : X.catchLine = some c) :
    (∃ name, p.statement? c = some (.catch name)) ∧
      p.opener c Statement.opensTry = some X.first := by
  rw [h.catchLine] at hc
  obtain ⟨_, _, st, hst, hw⟩ := Program.closer_eq_some hc
  obtain ⟨name, rfl⟩ := Statement.eq_catch hw
  obtain ⟨level, hspan⟩ := Program.closer_spans hc
  exact ⟨⟨name, hst⟩, h.opener_eq hspan⟩

theorem finally_at {f : Nat} (h : X.Stands p) (hf : X.finallyLine = some f) :
    p.statement? f = some .finally ∧ p.opener f Statement.opensTry = some X.first := by
  rw [h.finallyLine] at hf
  obtain ⟨_, _, st, hst, hw⟩ := Program.closer_eq_some hf
  obtain rfl := Statement.eq_finally hw
  obtain ⟨level, hspan⟩ := Program.closer_spans hf
  exact ⟨hst, h.opener_eq hspan⟩

theorem last_at (h : X.Stands p) :
    p.statement? X.last = some .endTry ∧ p.opener X.last Statement.opensTry = some X.first := by
  obtain ⟨_, _, st, hst, hw⟩ := Program.closer_eq_some h.last
  obtain rfl := Statement.eq_endTry hw
  obtain ⟨level, hspan⟩ := Program.closer_spans h.last
  exact ⟨hst, h.opener_eq hspan⟩

/-- The line after a section is no CALL. -/
theorem high_ne_call (h : X.Stands p) (phase : TryPhase) (name : Name) (args : List Expression) :
    p.statement? (X.high phase) ≠ some (.call name args) := by
  have hcatch : p.statement? (X.high .catch) ≠ some (.call name args) := by
    cases hf : X.finallyLine with
    | some f => simp [high_catch_of_finally hf, (h.finally_at hf).1]
    | none => simp [high_catch_of_none hf, h.last_at.1]
  cases phase with
  | body =>
    cases hc : X.catchLine with
    | some c =>
      obtain ⟨⟨name', hst⟩, _⟩ := h.catch_at hc
      simp [high_body_of_catch hc, hst]
    | none =>
      rw [high_body_of_none hc]
      exact hcatch
  | «catch» => exact hcatch
  | «finally» => simp [high, h.last_at.1]

end Stands

end Attempt

end LineBasic
