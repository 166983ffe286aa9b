-- In a well-nested program without jumps the stack of blocks mirrors the text.
-- The frames of the innermost call are the blocks around the current line, and
-- those of every outer call are the blocks around the line it was made from.
-- So no line ever misses its block, and no structural error can arise.
import LineBasic.Proofs.Enclosing
import LineBasic.Proofs.FrameStack

namespace LineBasic

/-- The block that a frame belongs to. -/
def Frame.span (f : Frame) : Span := ⟨some f.kind, f.first, f.last⟩

/-! ## The frames of one call -/

section Levels

variable {p : Program} {depth : Nat} {fs : Frames}

/-- The frames of the call at depth `k`. -/
def level (k : Nat) (l : List Frame) : List Frame := l.filter (·.depth = k)

theorem level_append (k : Nat) (l m : List Frame) : level k (l ++ m) = level k l ++ level k m :=
  List.filter_append ..

theorem level_self {k : Nat} {f : Frame} (h : f.depth = k) : level k [f] = [f] := by
  simp [level, h]

theorem level_eq_nil {k : Nat} {l : List Frame} (h : ∀ f ∈ l, f.depth ≠ k) : level k l = [] := by
  rw [level, List.filter_eq_nil_iff]
  intro f hf
  simpa using h f hf

theorem level_other {k : Nat} {f : Frame} (h : k ≠ f.depth) : level k [f] = [] := by
  simp [level, h.symm]

theorem split_of_get? {i : Nat} {f : Frame} (hf : fs.get? i = some f) :
    fs.items = fs.items.take i ++ f :: fs.items.drop (i + 1) := by
  obtain ⟨hi, hfi⟩ := List.getElem?_eq_some_iff.1 hf
  rw [← hfi, ← List.drop_eq_getElem_cons hi, List.take_append_drop]

/-- All that is cut off with a frame belongs to its call or to a deeper one. -/
theorem level_take {i k : Nat} {f : Frame} (h : Frames.Sound p depth fs)
    (hf : fs.get? i = some f) (hk : k < f.depth) : level k (fs.items.take i) = level k fs.items := by
  have hsplit := split_of_get? hf
  have habove : ∀ g ∈ f :: fs.items.drop (i + 1), g.depth ≠ k := by
    intro g hg
    have hsorted := h.sorted
    rw [hsplit, List.pairwise_append] at hsorted
    rcases List.mem_cons.1 hg with rfl | hg
    · omega
    · have := List.rel_of_pairwise_cons hsorted.2.1 hg
      omega
  rw [hsplit, level_append, level_eq_nil habove, List.append_nil, ← hsplit]

theorem level_take_succ {i k : Nat} {f : Frame} (hf : fs.get? i = some f) :
    level k (fs.items.take (i + 1)) = level k (fs.items.take i) ++ level k [f] := by
  obtain ⟨hi, hfi⟩ := List.getElem?_eq_some_iff.1 hf
  rw [List.take_succ_eq_append_getElem hi, hfi, level_append]

/-- The frames of a call, split at one of them. -/
theorem level_split {i : Nat} {f : Frame} (hf : fs.get? i = some f) :
    ∃ above, level f.depth fs.items = level f.depth (fs.items.take i) ++ f :: above := by
  refine ⟨level f.depth (fs.items.drop (i + 1)), ?_⟩
  have hsplit := split_of_get? hf
  rw [congrArg (level f.depth) hsplit, level_append]
  simp [level]

/-- A new state of the same kind leaves the blocks of a call as they are. -/
theorem spans_modify {i k : Nat} {f : Frame} {state : FrameState} (hf : fs.get? i = some f)
    (hk : state.kind = f.kind) :
    (level k (fs.modify i fun g => { g with state }).items).map Frame.span =
      (level k fs.items).map Frame.span := by
  obtain ⟨hi, hfi⟩ := List.getElem?_eq_some_iff.1 hf
  rw [Stack.modify_items, List.modify_eq_take_cons_drop hi, hfi,
    congrArg (level k) (split_of_get? hf)]
  simp only [level, List.filter_append, List.filter_cons, List.map_append]
  by_cases hd : f.depth = k
  · simp [hd, Frame.span, Frame.kind, hk]
  · simp [hd]

end Levels

/-! ## Mirrors -/

/-- Every call but the innermost was made from a line around which are just the
blocks of that call. -/
def Control.Layered (around : Nat → List Span) (c : Control) : Prop :=
  ∀ k < c.depth, ∃ l, c.calls.items[k]? = some (some (l + 1)) ∧ around (l + 1) = around l ∧
    (level k c.frames.items).map Frame.span = around l

structure Control.Mirrors (around : Nat → List Span) (c : Control) : Prop where
  layered : c.Layered around
  here : (level c.depth c.frames.items).map Frame.span = around c.line

/-- What is known of a well-nested program without jumps. -/
structure Mapped (p : Program) (around : Nat → List Span) : Prop where
  line : ∀ l st, p.statement? l = some st → LineAt p around l st
  chain : ∀ l, Chain p around (around l)
  start : around 0 = []
  inside : ∀ l, ∀ b ∈ around l, b.first < l
  sub : ∀ l name params, p.statement? l = some (.sub name params) → around l = []
  goto : ∀ l label, p.statement? l ≠ some (.goto label)
  gosub : ∀ l label, p.statement? l ≠ some (.gosub label)
  defined : ∀ l name args, p.statement? l = some (.call name args) → p.subPlace? name ≠ none
  paths : ∀ l st, p.statement? l = some st → st.hasPaths = true

section Cuts

variable {p : Program} {around : Nat → List Span} {c : Control}

/-- Cut at a frame, a call that mirrors a line mirrors the first line of the
block of that frame. -/
theorem Mapped.cut {i l : Nat} {f : Frame} (hm : Mapped p around) (hf : c.frames.get? i = some f)
    (h : (level f.depth c.frames.items).map Frame.span = around l) :
    f.span.IsBlock p around ∧
      (level f.depth (c.frames.items.take i)).map Frame.span = around f.first := by
  obtain ⟨above, hsplit⟩ := level_split hf
  rw [hsplit, List.map_append, List.map_cons] at h
  exact hm.chain l _ _ _ h.symm

namespace Control.Mirrors

variable {line i : Nat} {f : Frame}

theorem goTo (h : c.Mirrors around) (hl : around line = around c.line) :
    Mirrors around { c with line } :=
  ⟨h.layered, h.here.trans hl.symm⟩

/-- A block of the innermost call is left with all that is inside it. -/
theorem truncate (hm : Mapped p around) (hs : c.Sound p) (h : c.Mirrors around)
    (hf : c.frames.get? i = some f) (hd : f.depth = c.depth) (hl : around line = around f.first) :
    Mirrors around { c with line, frames := c.frames.truncate i } := by
  have hhere := h.here
  rw [← hd] at hhere
  obtain ⟨_, hcut⟩ := hm.cut hf hhere
  refine ⟨fun k hk => ?_, ?_⟩
  · obtain ⟨l, hc, hn, hlevel⟩ := h.layered k hk
    refine ⟨l, hc, hn, ?_⟩
    rw [Stack.truncate_items, level_take hs.frames hf (hd ▸ hk), hlevel]
  · change (level c.depth (c.frames.items.take i)).map Frame.span = around line
    rw [← hd, hcut, hl]

/-- All that is inside a block of the innermost call is left. -/
theorem truncate_succ (hm : Mapped p around) (hs : c.Sound p) (h : c.Mirrors around)
    (hf : c.frames.get? i = some f) (hd : f.depth = c.depth)
    (hl : around line = around f.first ++ [f.span]) :
    Mirrors around { c with line, frames := c.frames.truncate (i + 1) } := by
  have hhere := h.here
  rw [← hd] at hhere
  obtain ⟨_, hcut⟩ := hm.cut hf hhere
  refine ⟨fun k hk => ?_, ?_⟩
  · obtain ⟨l, hc, hn, hlevel⟩ := h.layered k hk
    refine ⟨l, hc, hn, ?_⟩
    have hother : k ≠ f.depth := fun hk' => Nat.ne_of_lt hk (hk'.trans hd)
    rw [Stack.truncate_items, level_take_succ hf, level_other hother, List.append_nil,
      level_take hs.frames hf (hd ▸ hk), hlevel]
  · change (level c.depth (c.frames.items.take (i + 1))).map Frame.span = around line
    rw [level_take_succ hf, ← hd, level_self rfl, List.map_append, hcut, hl]
    rfl

theorem withState {state : FrameState} (h : c.Mirrors around) (hf : c.frames.get? i = some f)
    (hk : state.kind = f.kind) :
    Mirrors around { c with frames := c.frames.modify i fun g => { g with state } } := by
  refine ⟨fun k hlt => ?_, ?_⟩
  · obtain ⟨l, hc, hn, hlevel⟩ := h.layered k hlt
    exact ⟨l, hc, hn, (spans_modify hf hk).trans hlevel⟩
  · exact (spans_modify hf hk).trans h.here

/-- No block that begins at the current line has a frame yet. -/
theorem place?_line (hm : Mapped p around) (h : c.Mirrors around) :
    c.frames.place? c.line c.depth = none := by
  cases hp : c.frames.place? c.line c.depth with
  | none => rfl
  | some i =>
    obtain ⟨f, hf, hfirst, hd, _⟩ := c.frames.place?_eq_some hp
    have hmem : f.span ∈ around c.line := by
      rw [← h.here]
      refine List.mem_map_of_mem (List.mem_filter.2 ⟨List.mem_of_getElem? hf, ?_⟩)
      simpa using hd
    have := hm.inside c.line _ hmem
    change f.first < c.line at this
    omega

/-- A block that begins at the current line is entered. -/
theorem enter {fs : Frames} (h : c.Mirrors around) (hd : f.depth = c.depth)
    (hp : c.frames.place? f.first f.depth = none) (he : c.frames.enter f = .ok fs)
    (hl : around line = around c.line ++ [f.span]) :
    Mirrors around { c with line, frames := fs } := by
  unfold Frames.enter at he
  rw [Frames.leave_of_none _ hp] at he
  obtain ⟨_, rfl⟩ := Stack.push_eq_ok _ he
  refine ⟨fun k hk => ?_, ?_⟩
  · obtain ⟨l, hc, hn, hlevel⟩ := h.layered k hk
    refine ⟨l, hc, hn, ?_⟩
    have hother : k ≠ f.depth := fun hk' => Nat.ne_of_lt hk (hk'.trans hd)
    rw [level_append, level_other hother, List.append_nil, hlevel]
  · change (level c.depth (c.frames.items ++ [f])).map Frame.span = around line
    rw [level_append, level_self hd, List.map_append, h.here, hl]
    rfl

/-- The frame of a block that the current line belongs to. -/
theorem inBlock {b : Span} (hm : Mapped p around) (h : c.Mirrors around)
    (he : around c.line = around b.first ++ [b]) :
    ∃ i f, c.frames.place? b.first c.depth = some i ∧ c.frames.get? i = some f ∧
      f.depth = c.depth ∧ f.span = b := by
  have hmem : b ∈ (level c.depth c.frames.items).map Frame.span := by
    rw [h.here, he]
    exact List.mem_append_right _ List.mem_cons_self
  obtain ⟨g, hg, hspan⟩ := List.mem_map.1 hmem
  rw [level, List.mem_filter, decide_eq_true_eq] at hg
  cases hp : c.frames.place? b.first c.depth with
  | none =>
    refine absurd ⟨?_, hg.2⟩ (c.frames.place?_eq_none hp g hg.1)
    rw [← hspan]
    rfl
  | some i =>
    obtain ⟨f, hf, hfirst, hd, _⟩ := c.frames.place?_eq_some hp
    refine ⟨i, f, rfl, hf, hd, ?_⟩
    -- Both frames stand right above the same outer blocks.
    obtain ⟨above, hsplit⟩ := level_split hf
    have hhere := h.here
    rw [← hd] at hhere
    have hcut := (hm.cut hf hhere).2
    rw [hsplit, List.map_append, List.map_cons, hcut, hfirst, he] at hhere
    exact (List.cons.inj (List.append_cancel_left hhere)).1

/-- The block that EXIT or CONTINUE acts on. -/
theorem target {kind : BlockKind} {name : Option Name} (hm : Mapped p around)
    (h : c.Mirrors around)
    (ht : c.frames.lastPlace? (Run.isTarget kind name c.depth) = some i)
    (hf : c.frames.get? i = some f) : f.span.IsBlock p around ∧ f.depth = c.depth := by
  obtain ⟨g, hg, htarget, _⟩ := lastPlace?_eq_some ht
  change c.frames.get? i = some g at hg
  rw [hf] at hg
  cases hg
  simp only [Run.isTarget, Bool.and_eq_true, decide_eq_true_eq] at htarget
  have hd := htarget.1.1
  have hhere := h.here
  rw [← hd] at hhere
  exact ⟨(hm.cut hf hhere).1, hd⟩

end Control.Mirrors

end Cuts

/-! ## Roles -/

/-- The statement at the first line of a block. -/
theorem Span.IsBlock.opens_of {p : Program} {around : Nat → List Span} {b : Span} {st : Statement}
    (hb : b.IsBlock p around) (hst : p.statement? b.first = some st) :
    st.blockKind? = b.kind ∧ p.closer b.first st.closedBy = some b.last := by
  obtain ⟨st', hst', _, hkind, hclose⟩ := hb.opens
  rw [hst] at hst'
  cases hst'
  exact ⟨hkind, hclose⟩

section Roles

variable {p : Program} {around : Nat → List Span} {line : Nat} {st : Statement}

theorem LineAt.of_plain (h : LineAt p around line st) (hr : st.role = .plain) :
    around (line + 1) = around line := by
  cases h with
  | plain _ hn => exact hn
  | opener b hr' _ _ => rw [hr] at hr'; cases hr'
  | clause b hr' _ _ _ _ _ => rw [hr] at hr'; cases hr'
  | closer b first hr' _ _ _ _ _ => rw [hr] at hr'; cases hr'

theorem LineAt.of_opener (h : LineAt p around line st) (hr : st.role = .opener) :
    ∃ b : Span, b.IsBlock p around ∧ b.first = line := by
  cases h with
  | plain hr' _ => rw [hr] at hr'; cases hr'
  | opener b _ hb hl => exact ⟨b, hb, hl⟩
  | clause b hr' _ _ _ _ _ => rw [hr] at hr'; cases hr'
  | closer b first hr' _ _ _ _ _ => rw [hr] at hr'; cases hr'

theorem LineAt.of_clause (h : LineAt p around line st) (hr : st.role = .clause) :
    ∃ b : Span, b.IsBlock p around ∧ around line = around b.first ++ [b] ∧
      around (line + 1) = around line ∧ p.opener line st.openedBy = some b.first ∧
      ∀ wanted t, p.closer line wanted = some t → around t = around line := by
  cases h with
  | plain hr' _ => rw [hr] at hr'; cases hr'
  | opener b hr' _ _ => rw [hr] at hr'; cases hr'
  | clause b _ hb he hn ho hc => exact ⟨b, hb, he, hn, ho, hc⟩
  | closer b first hr' _ _ _ _ _ => rw [hr] at hr'; cases hr'

theorem LineAt.of_closer (h : LineAt p around line st) (hr : st.role = .closer)
    (hs : st ≠ .endSub) :
    ∃ (b : Span) (first : Statement), b.IsBlock p around ∧ b.last = line ∧
      around line = around b.first ++ [b] ∧ p.statement? b.first = some first ∧
      first.ends st = true ∧ p.opener line st.openedBy = some b.first := by
  cases h with
  | plain hr' _ => rw [hr] at hr'; cases hr'
  | opener b hr' _ _ => rw [hr] at hr'; cases hr'
  | clause b hr' _ _ _ _ _ => rw [hr] at hr'; cases hr'
  | closer b first _ hb hl hf hm ho =>
    have he := hb.last
    rw [hl] at he
    exact ⟨b, first, hb, hl, he, hf, hm, ho hs⟩

end Roles

/-! ## One step -/

section Step

variable {p : Program} {around : Nat → List Span} {c c' : Control} {st : Statement}

/-- The frame that a line finds is the block that it belongs to. -/
theorem Control.InBlock.span_eq {first i : Nat} {f : Frame} {b : Span}
    (hb : c.InBlock p st first i f) (hmap : Mapped p around) (h : c.Mirrors around)
    (he : around c.line = around b.first ++ [b]) (ho : p.opener c.line st.openedBy = some b.first) :
    first = b.first ∧ f.depth = c.depth ∧ f.span = b := by
  obtain ⟨j, g, hp, hg, hd, hspan⟩ := h.inBlock hmap he
  have hfirst : first = b.first := Option.some.inj (hb.opener.symm.trans ho)
  have hplace := hb.place
  rw [hfirst, hp] at hplace
  cases hplace
  have hframe := hb.frame
  rw [hg] at hframe
  cases hframe
  exact ⟨hfirst, hd, hspan⟩

/-- A call opens with no blocks of its own, and its caller stays at the line of the call. -/
theorem Control.Mirrors.called {calls : Stack (Option Nat)} {line : Nat} (hs : c.Sound p)
    (h : c.Mirrors around) (hn : around (c.line + 1) = around c.line)
    (hc : c.calls.push (some (c.line + 1)) = .ok calls) (hl : around line = []) :
    Mirrors around { c with line, calls } := by
  obtain ⟨_, rfl⟩ := Stack.push_eq_ok _ hc
  have hsize : Stack.size { c.calls with items := c.calls.items ++ [some (c.line + 1)] } =
      c.depth + 1 := by simp [Stack.size, depth]
  constructor
  · intro k hk
    change k < Stack.size _ at hk
    rw [hsize] at hk
    rcases Nat.lt_or_ge k c.depth with hlt | hge
    · obtain ⟨l, hcall, hnext, hlevel⟩ := h.layered k hlt
      refine ⟨l, ?_, hnext, hlevel⟩
      rw [← hcall]
      exact List.getElem?_append_left hlt
    · obtain rfl : k = c.depth := by omega
      exact ⟨c.line, List.getElem?_concat_length, hn, h.here⟩
  · change (level (Stack.size _) c.frames.items).map Frame.span = around line
    rw [hsize, hl, level_eq_nil]
    · rfl
    · intro g hg
      have := hs.frames.within g hg
      omega

/-- The block that begins at the current line is entered, and the program goes on
at a line of it. -/
theorem Control.Mirrors.opens {last : Nat} {state : FrameState} {fs : Frames}
    (h : c.Mirrors around) (hmap : Mapped p around) (hst : p.statement? c.line = some st)
    (hrole : st.role = .opener) (hclose : p.closer c.line st.closedBy = some last)
    (hk : some state.kind = st.blockKind?)
    (henter : c.frames.enter ⟨c.line, last, c.depth, state⟩ = .ok fs) :
    ∃ b : Span, b.IsBlock p around ∧ b.first = c.line ∧ b.last = last ∧
      ∀ {line}, around line = around b.first ++ [b] → Mirrors around { c with line, frames := fs } := by
  obtain ⟨b, hb, hfirst⟩ := (hmap.line _ _ hst).of_opener hrole
  have hopens := hst
  rw [← hfirst] at hopens hclose
  obtain ⟨hkind, hlast⟩ := hb.opens_of hopens
  cases hlast.symm.trans hclose
  refine ⟨b, hb, hfirst, rfl, fun hline => h.enter rfl (h.place?_line hmap) henter ?_⟩
  have hspan : (⟨c.line, b.last, c.depth, state⟩ : Frame).span = b := by
    have hstate := hk.trans hkind
    cases b
    simp only [Frame.span, Frame.kind, hstate, ← hfirst]
  rw [hspan, ← hfirst]
  exact hline

namespace Control.Mirrors

variable {first last i t : Nat} {f : Frame} {fs : Frames} (h : c.Mirrors around)
  (hmap : Mapped p around) (hst : p.statement? c.line = some st)

include h hmap hst

/-- A block that begins at the current line is passed over. -/
theorem passed (hrole : st.role = .opener) (hclose : p.closer c.line st.closedBy = some last) :
    Mirrors around { c with line := last + 1 } := by
  obtain ⟨b, hb, hfirst⟩ := (hmap.line _ _ hst).of_opener hrole
  rw [← hfirst] at hst hclose
  cases (hb.opens_of hst).2.symm.trans hclose
  exact h.goTo (by rw [hb.after, hfirst])

/-- A block that begins at the current line is entered, and its first branch may be skipped. -/
theorem opened {state : FrameState} {flow : Flow} (hrole : st.role = .opener)
    (hclose : p.closer c.line st.closedBy = some last) (hk : some state.kind = st.blockKind?)
    (henter : c.frames.enter ⟨c.line, last, c.depth, state⟩ = .ok fs)
    (hflow : flow = .next ∨ st.branches = true ∧
      flow = .jump ((p.closer c.line st.branchEndedBy).getD last))
    (ht : flow.target? c.line = some t) : Mirrors around { c with line := t, frames := fs } := by
  obtain ⟨b, hb, hfirst, hlast, hin⟩ := h.opens hmap hst hrole hclose hk henter
  refine hin ?_
  rcases hflow with rfl | ⟨_, rfl⟩
  · cases ht
    rw [← hfirst, hb.inside]
  · cases ht
    cases hbranch : p.closer c.line st.branchEndedBy with
    | none =>
      rw [Option.getD_none, ← hlast]
      exact hb.last
    | some target =>
      rw [← hfirst] at hbranch
      exact (hb.own _ _ hbranch).1

/-- A clause goes on at the next clause, at the FINALLY line or at the end of its block. -/
theorem clause (hs : c.Sound p) (hrole : st.role = .clause) (hblock : c.InBlock p st first i f)
    (htarget : t = f.last ∨
      st.branches = true ∧ t = (p.closer c.line st.branchEndedBy).getD f.last ∨
      ∃ block, f.state = .try block ∧ block.finallyLine = some t) :
    Mirrors around { c with line := t } := by
  obtain ⟨b, hb, he, _, ho, hc⟩ := (hmap.line _ _ hst).of_clause hrole
  obtain ⟨_, _, rfl⟩ := hblock.span_eq hmap h he ho
  refine h.goTo ?_
  rcases htarget with rfl | ⟨_, rfl⟩ | ⟨block, hstate, hfinally⟩
  · rw [he]
    exact hb.last
  · cases hbranch : p.closer c.line st.branchEndedBy with
    | none =>
      rw [he]
      exact hb.last
    | some target => exact hc _ _ hbranch
  · rw [((hblock.fits hs).clauses block hstate).2] at hfinally
    rw [he]
    exact (hb.own _ _ hfinally).1

/-- The last line of a block that ends whenever it is reached leaves it. -/
theorem closed (hs : c.Sound p) (hr : st.closesOnce = true)
    (ho : p.opener c.line st.openedBy = some first) :
    Mirrors around { c with line := c.line + 1, frames := c.frames.leave first c.depth } := by
  obtain ⟨hrole, hsub⟩ := Statement.role_of_closesOnce hr
  obtain ⟨b, _, hb, hlast, he, _, _, ho'⟩ := (hmap.line _ _ hst).of_closer hrole hsub
  cases ho'.symm.trans ho
  obtain ⟨i, f, hplace, hf, hd, rfl⟩ := h.inBlock hmap he
  rw [Frames.leave_of_some _ hplace]
  refine h.truncate hmap hs hf hd ?_
  rw [← hlast]
  exact hb.after

/-- The loop that the current line is the last of. -/
theorem loop (hr : st.closesLoop = true) (hblock : c.InBlock p st first i f) :
    f.span.IsBlock p around ∧ f.depth = c.depth ∧ f.first = first ∧ f.last = c.line := by
  obtain ⟨hrole, hsub⟩ := Statement.role_of_closesLoop hr
  obtain ⟨b, _, hb, hlast, he, _, _, ho⟩ := (hmap.line _ _ hst).of_closer hrole hsub
  obtain ⟨rfl, hd, rfl⟩ := hblock.span_eq hmap h he ho
  exact ⟨hb, hd, rfl, hlast⟩

/-- The last line of a loop goes back to the first. -/
theorem again {state : FrameState} (hs : c.Sound p) (hr : st.closesLoop = true)
    (hblock : c.InBlock p st first i f) (hk : f.state.Keeps state) :
    Mirrors around { c with
      line := first + 1
      frames := (c.frames.truncate (i + 1)).modify i fun f => { f with state } } := by
  obtain ⟨hb, hd, rfl, _⟩ := h.loop hmap hst hr hblock
  refine (h.truncate_succ hmap hs hblock.frame hd hb.inside).withState ?_ hk.1
  rw [← hblock.frame]
  exact c.frames.get?_truncate (Nat.lt_succ_self _)

/-- The last line of a loop leaves it. -/
theorem left (hs : c.Sound p) (hr : st.closesLoop = true) (hblock : c.InBlock p st first i f) :
    Mirrors around { c with line := c.line + 1, frames := c.frames.truncate i } := by
  obtain ⟨hb, hd, _, hlast⟩ := h.loop hmap hst hr hblock
  refine h.truncate hmap hs hblock.frame hd ?_
  rw [← hlast]
  exact hb.after

end Control.Mirrors

/-- A move leads to a line that the stack mirrors. -/
theorem Moves.mirrors {flow : Flow} {t : Nat} (hm : Moves p c st flow c') (hmap : Mapped p around)
    (hst : p.statement? c.line = some st) (hs : c.Sound p) (h : c.Mirrors around)
    (ht : flow.target? c.line = some t) : Control.Mirrors around { c' with line := t } := by
  have hat := hmap.line _ _ hst
  cases hm with
  | onward hsteady hf =>
    have hrole : st.role = .plain := by
      rcases hsteady with hsteady | ⟨kind, name, rfl | rfl, _⟩
      · exact Statement.role_of_isSteady hsteady
      · rfl
      · rfl
    rw [Flow.target?_of_isOnward hf ht]
    exact h.goTo (hat.of_plain hrole)
  | «return» _ | stop => cases ht
  | goto _ => exact absurd hst (hmap.goto _ _)
  | gosub _ _ => exact absurd hst (hmap.gosub _ _)
  | passSub hclose =>
    cases ht
    exact h.passed hmap hst rfl hclose
  | call hsub hclose hc hf =>
    cases ht
    obtain ⟨other, params, hfirst, _⟩ := Program.subPlace?_eq_some hsub
    have hcalled := h.called hs (hat.of_plain rfl) hc (hmap.sub _ _ _ hfirst)
    obtain ⟨b, hb, rfl, hlast, hin⟩ := hcalled.opens hmap hfirst rfl hclose rfl hf
    exact hin hb.inside
  | opened hrole hclose hfresh henter hflow =>
    exact h.opened hmap hst hrole hclose hfresh.1 henter hflow ht
  | passed hhead hclose =>
    cases ht
    rw [Frames.leave_of_none _ (h.place?_line hmap)]
    exact h.passed hmap hst (Statement.role_of_headsLoop hhead) hclose
  | skipped hr ho hp _ =>
    obtain ⟨b, hb, he, _, ho', _⟩ := hat.of_clause hr
    obtain ⟨i, f, hplace, _⟩ := h.inBlock hmap he
    cases ho'.symm.trans ho
    rw [hplace] at hp
    cases hp
  | clause hr hblock htarget =>
    cases ht
    exact h.clause hmap hst hs hr hblock htarget
  | tookClause hr hblock hk _ =>
    cases ht
    obtain ⟨b, hb, he, hn, ho, _⟩ := hat.of_clause hr
    have hkind := Option.some.inj (hk.trans (hblock.kind_eq hs).symm)
    exact (h.withState hblock.frame hkind).goTo hn
  | finallyAlone hr =>
    cases ht
    obtain ⟨b, _, _, hn, _⟩ := hat.of_clause (by rw [hr]; rfl)
    exact h.goTo hn
  | closed hr ho =>
    cases ht
    exact h.closed hmap hst hs hr ho
  | closedNothing hr ho =>
    obtain ⟨hrole, hsub⟩ := Statement.role_of_closesOnce hr
    obtain ⟨b, first, _, _, _, _, _, ho'⟩ := hat.of_closer hrole hsub
    rw [ho'] at ho
    cases ho
  | again hr hblock hk =>
    cases ht
    exact h.again hmap hst hs hr hblock hk
  | left hr hblock =>
    cases ht
    exact h.left hmap hst hs hr hblock
  | exit htarget hf _ =>
    cases ht
    obtain ⟨hb, hd⟩ := h.target hmap htarget hf
    exact h.truncate hmap hs hf hd hb.after
  | toLast _ htarget hf =>
    cases ht
    obtain ⟨hb, hd⟩ := h.target hmap htarget hf
    exact h.truncate_succ hmap hs hf hd hb.last

/-- A failure is mild, and the stack mirrors some line: the one that failed, the
loop or the block that was left, or nothing yet in a call that was just made. -/
theorem Fails.mirrors {e : Error} (hf : Fails p c st e c') (hmap : Mapped p around)
    (hst : p.statement? c.line = some st) (hs : c.Sound p) (h : c.Mirrors around) :
    e.Mild ∧ ∃ l, Control.Mirrors around { c' with line := l } := by
  have hat := hmap.line _ _ hst
  -- A line that belongs to a block finds it.
  have hclause : st.role = .clause → ∃ b : Span, p.opener c.line st.openedBy = some b.first ∧
      c.frames.place? b.first c.depth ≠ none := by
    intro hr
    obtain ⟨b, _, he, _, ho, _⟩ := hat.of_clause hr
    obtain ⟨i, f, hplace, _⟩ := h.inBlock hmap he
    exact ⟨b, ho, by simp [hplace]⟩
  have hloop : st.closesLoop = true → ∃ b : Span, p.opener c.line st.openedBy = some b.first ∧
      c.frames.place? b.first c.depth ≠ none := by
    intro hr
    obtain ⟨hrole, hsub⟩ := Statement.role_of_closesLoop hr
    obtain ⟨b, first, _, _, he, _, _, ho⟩ := hat.of_closer hrole hsub
    obtain ⟨i, f, hplace, _⟩ := h.inBlock hmap he
    exact ⟨b, ho, by simp [hplace]⟩
  cases hf with
  | mild he => exact ⟨he.mild, c.line, h⟩
  | emptyPath _ hpath =>
    rw [hmap.paths _ _ hst] at hpath
    cases hpath
  | mildInLoop he hr hblock =>
    obtain ⟨hb, hd, _, hlast⟩ := h.loop hmap hst hr hblock
    exact ⟨he.mild, c.line, h.truncate_succ hmap hs hblock.frame hd (hlast ▸ hb.last)⟩
  | mildInCall he hc =>
    have hcalled := h.called hs (hat.of_plain rfl) hc hmap.start
    exact ⟨he.mild, 0, hcalled⟩
  | @raised _ _ first i f t hend hblock ht he =>
    subst hend
    refine ⟨(hblock.fits hs).pending _ _ ht he, f.first, ?_⟩
    rw [Frames.leave_of_some _ hblock.place]
    obtain ⟨b, _, hb, _, hline, _, _, ho⟩ := hat.of_closer rfl (by simp)
    obtain ⟨_, hd, _⟩ := hblock.span_eq hmap h hline ho
    exact h.truncate hmap hs hblock.frame hd rfl
  | unclosed _ hr hl =>
    obtain ⟨b, hb, hfirst⟩ := hat.of_opener hr
    rw [← hfirst] at hst hl
    rw [(hb.opens_of hst).2] at hl
    cases hl
  | unopened _ hr ho =>
    rcases hr with hr | hr
    · obtain ⟨b, ho', _⟩ := hclause hr
      rw [ho'] at ho
      cases ho
    · obtain ⟨b, ho', _⟩ := hloop hr
      rw [ho'] at ho
      cases ho
  | clauseUnclosed _ hr ho hp _ =>
    obtain ⟨b, ho', hplace⟩ := hclause hr
    cases ho'.symm.trans ho
    exact absurd hp hplace
  | unentered _ hr ho hp =>
    obtain ⟨b, ho', hplace⟩ := hloop hr
    cases ho'.symm.trans ho
    exact absurd hp hplace
  | otherLoop _ ho hfor hname =>
    obtain ⟨b, first, _, _, _, hfirst, hends, ho'⟩ := hat.of_closer rfl (by simp)
    cases ho'.symm.trans ho
    cases hfirst.symm.trans hfor
    have hname' := Name.alike_comm _ _ ▸ hname
    exact absurd hends (by simp [Statement.ends, hname'])
  | noLabel _ hjump _ =>
    rcases hjump with rfl | rfl
    · exact absurd hst (hmap.goto _ _)
    · exact absurd hst (hmap.gosub _ _)
  | noSub _ hsub => exact absurd hsub (hmap.defined _ _ _ hst)
  | subUnclosed _ hsub hl =>
    obtain ⟨other, params, hfirst, _⟩ := Program.subPlace?_eq_some hsub
    obtain ⟨b, hb, rfl⟩ := (hmap.line _ _ hfirst).of_opener rfl
    cases (hb.opens_of hfirst).2.symm.trans hl
  | mismatch hblock hk => exact absurd (hblock.kind_eq hs) hk

end Step

/-! ## Returns and errors -/

section Return

variable {p : Program} {around : Nat → List Span} {c : Control}

/-- Leaving a call leaves the blocks of the outer calls as they are. -/
theorem level_unwind {k d : Nat} (fs : Frames) (hk : k ≤ d) :
    level k (fs.unwind d).items = level k fs.items := by
  unfold Frames.unwind
  split
  · rename_i i hi
    obtain ⟨f, _, _, habove⟩ := lastPlace?_eq_some hi
    have hdrop : level k (fs.items.drop (i + 1)) = [] := by
      refine level_eq_nil fun g hg => ?_
      have := habove g hg
      simp only [decide_eq_false_iff_not] at this
      omega
    have hsplit := List.take_append_drop (i + 1) fs.items
    rw [Stack.truncate_items, ← congrArg (level k) hsplit, level_append, hdrop, List.append_nil]
  · rename_i hi
    have hnone := lastPlace?_eq_none.1 hi
    rw [level_eq_nil (l := fs.items), Stack.truncate_items, List.take_zero]
    · rfl
    · intro g hg
      have := hnone g hg
      simp only [decide_eq_false_iff_not] at this
      omega

/-- A return mirrors the line after the call. -/
theorem Control.Mirrors.returned {l : Nat} (h : c.Mirrors around)
    (htop : c.calls.top? = some (some l)) :
    Mirrors around ⟨l, c.frames.unwind (c.depth - 1), c.calls.pop⟩ := by
  have hlast : c.calls.items[c.depth - 1]? = some (some l) := by
    rw [← htop]
    exact List.getLast?_eq_getElem?.symm
  have hpos : c.depth - 1 < c.depth := by
    have := (List.getElem?_eq_some_iff.1 hlast).1
    unfold depth Stack.size at *
    omega
  have hsize : c.calls.pop.size = c.depth - 1 := by simp [Stack.pop, Stack.size, depth]
  constructor
  · intro k hk
    change k < c.calls.pop.size at hk
    rw [hsize] at hk
    obtain ⟨l', hcall, hn, hlevel⟩ := h.layered k (by omega)
    refine ⟨l', ?_, hn, ?_⟩
    · rw [← hcall]
      change c.calls.items.dropLast[k]? = _
      rw [List.getElem?_dropLast]
      exact if_pos hk
    · change (level k (c.frames.unwind (c.depth - 1)).items).map Frame.span = around l'
      rw [level_unwind _ (Nat.le_of_lt hk), hlevel]
  · change (level c.calls.pop.size (c.frames.unwind (c.depth - 1)).items).map Frame.span = around l
    obtain ⟨l', hcall, hn, hlevel⟩ := h.layered _ hpos
    rw [hlast] at hcall
    cases hcall
    rw [hsize, level_unwind _ (Nat.le_refl _), hlevel, hn]

theorem handler?_line {old t : TryBlock} {e : Error} {line : Nat}
    (h : Session.handler? old e = some (line, t)) :
    old.catchLine = some line ∨ old.finallyLine = some line := by
  unfold Session.handler? at h
  split at h
  · rename_i hc
    cases h
    exact Or.inl hc
  · rename_i hf
    cases h
    exact Or.inr hf
  · rename_i hf
    cases h
    exact Or.inr hf
  · cases h

/-- A TRY block that takes an error is the innermost block around the line it
goes on at. -/
theorem Control.Mirrors.resumed {i l line : Nat} {f : Frame} {old t : TryBlock} {e : Error}
    (hmap : Mapped p around) (hs : c.Sound p) (h : Mirrors around { c with line := l })
    (hf : c.frames.get? i = some f) (hstate : f.state = .try old)
    (hh : Session.handler? old e = some (line, t)) (he : e.Mild) :
    Mirrors around { c.resumed i f.depth t with line := line + 1 } := by
  have hfits := hs.frames.fits f (List.mem_of_getElem? hf)
  have hle := hs.frames.within f (List.mem_of_getElem? hf)
  have hdepth := c.depth_resumed i t hle
  -- The call of the block mirrors a line, be it the innermost call or not.
  have hlevel : ∃ l', (level f.depth c.frames.items).map Frame.span = around l' := by
    rcases Nat.eq_or_lt_of_le hle with heq | hlt
    · have := h.here
      exact ⟨l, by rw [heq]; exact this⟩
    · obtain ⟨l', _, _, hl'⟩ := h.layered _ hlt
      exact ⟨l', hl'⟩
  obtain ⟨l', hl'⟩ := hlevel
  obtain ⟨hb, hcut⟩ := hmap.cut hf hl'
  have hget : (c.frames.truncate (i + 1)).get? i = some f := by
    rw [c.frames.get?_truncate (Nat.lt_succ_self i), hf]
  have hkind : (FrameState.try t).kind = f.kind := by
    unfold Frame.kind
    rw [hstate]
    rfl
  have hnext : around (line + 1) = around f.first ++ [f.span] := by
    have hclose : ∃ wanted, p.closer f.first wanted = some line := by
      obtain ⟨hcatch, hfinally⟩ := hfits.clauses old hstate
      rcases handler?_line hh with hline | hline
      · exact ⟨_, hcatch ▸ hline⟩
      · exact ⟨_, hfinally ▸ hline⟩
    obtain ⟨wanted, hclose⟩ := hclose
    exact (hb.own wanted line hclose).2 (hfits.handled hstate hh he).2.1
  constructor
  · intro k hk
    change k < (c.resumed i f.depth t).depth at hk
    rw [hdepth] at hk
    obtain ⟨l', hcall, hn, hlev⟩ := h.layered k (Nat.lt_of_lt_of_le hk hle)
    refine ⟨l', ?_, hn, ?_⟩
    · rw [← hcall]
      exact List.getElem?_take_of_lt hk
    · change (level k ((c.frames.truncate (i + 1)).modify i _).items).map Frame.span = around l'
      rw [spans_modify hget hkind, Stack.truncate_items, level_take_succ hf,
        level_other (Nat.ne_of_lt hk), List.append_nil, level_take hs.frames hf hk, hlev]
  · change (level (c.resumed i f.depth t).depth
      ((c.frames.truncate (i + 1)).modify i _).items).map Frame.span = around (line + 1)
    rw [hdepth, spans_modify hget hkind, Stack.truncate_items, level_take_succ hf, level_self rfl,
      List.map_append, hcut, hnext]
    rfl

end Return

/-! ## Sessions -/

namespace Session

variable {p : Program} {around : Nat → List Span} {s : Session}

theorem follow_mirrors {flow : Flow}
    (ht : ∀ t, flow.target? s.line = some t → Control.Mirrors around { s.control with line := t })
    (hr : flow = .return → s.control.Mirrors around) :
    (s.follow flow).2.stopped = false → (s.follow flow).2.control.Mirrors around := by
  cases flow with
  | next => exact fun _ => ht _ rfl
  | jump target => exact fun _ => ht _ rfl
  | rest delay => exact fun _ => ht _ rfl
  | stop => exact fun h => by cases h
  | «return» =>
    intro hstop
    unfold follow at hstop ⊢
    dsimp only at hstop ⊢
    rcases s.returnFromCall_cases with ⟨t, hret, _⟩ | ⟨l, t, hret, _, _, htop, hcontrol⟩
    · rw [hret] at hstop
      cases hstop
    · rw [hret, hcontrol]
      exact (hr rfl).returned htop

theorem recover_mirrors {e : Error} (hmap : Mapped p around) (hs : s.control.Sound p)
    (h : ∃ l, Control.Mirrors around { s.control with line := l }) :
    (s.recover e).2.stopped = false → (s.recover e).2.control.Mirrors around := by
  intro hstop
  rcases s.recover_cases e with ⟨_, hr⟩ | ⟨he, hr⟩
  · rw [hr] at hstop
    cases hstop
  · generalize s.recover e = r at hr hstop
    cases hr with
    | failed _ _ _ _ => cases hstop
    | @resumed i line f t _ ht =>
      obtain ⟨old, hstate, hh⟩ := ht.block
      obtain ⟨l, hl⟩ := h
      obtain ⟨u, _, _, hu, hres | ⟨e', _, hres⟩⟩ := s.resume_cases i f line t e
      · rw [hres, control_goTo, hu]
        exact hl.resumed hmap hs ht.frame hstate hh he
      · rw [hres] at hstop
        cases hstop

/-- One step of a program whose stack mirrors its text. -/
theorem step_mirrors (hmap : Mapped s.program around) (hs : s.control.Sound s.program)
    (h : s.stopped = false → s.control.Mirrors around) :
    (s.step.2.stopped = false → s.step.2.control.Mirrors around) ∧
      ∀ e, s.step.1 = .failed e → e.Mild := by
  have hstep := s.step_steps
  generalize s.step = r at hstep
  cases hstep with
  | idle hstop => exact ⟨h, fun e he => by cases he⟩
  | pastEnd _ => exact ⟨fun hstop => (by cases hstop), fun e he => by cases he⟩
  | @moved st flow t hrun hst hm =>
    have htarget := fun l hl => hm.mirrors hmap hst hs (h hrun) (t := l) hl
    refine ⟨follow_mirrors (fun l hl => ?_) fun hr => ?_, fun e he => ?_⟩
    · have hline : (s.withState t).line = s.line := hm.line_eq
      rw [hline] at hl
      exact htarget l hl
    · subst hr
      rw [control_withState, hm.eq_of_return]
      exact h hrun
    · exact absurd he (follow_ne_failed _ _ e)
  | @failed st e t hrun hst hf =>
    obtain ⟨he, hl⟩ := hf.mirrors hmap hst hs (h hrun)
    have hsound := (hf.sound hst hs).1
    refine ⟨recover_mirrors hmap hsound hl, fun e' he' => ?_⟩
    rcases (recover_sound hsound).2 e' he' with rfl | hmild
    · unfold Error.Mild Error.isStructural
      rw [code_inLine]
      exact he
    · exact hmild

theorem reachable_mirrors (hp : p.Made) (hmap : Mapped p around) (hs : Reachable p s) :
    s.program = p ∧ s.control.Sound p ∧ (s.stopped = false → s.control.Mirrors around) := by
  have hempty : ∀ c : Control, c.line = 0 → c.frames.items = [] → c.calls.items = [] →
      c.Mirrors around := by
    intro c hline hframes hcalls
    refine ⟨fun k hk => ?_, ?_⟩
    · rw [Control.depth, Stack.size, hcalls] at hk
      cases hk
    · rw [hframes, hline, hmap.start]
      rfl
  refine hs.induct (P := fun s => s.program = p ∧ s.control.Sound p ∧
    (s.stopped = false → s.control.Mirrors around)) ?_ ?_ ?_ ?_ ?_
  · exact fun seed host => ⟨rfl, sound_start p seed host, fun _ => hempty _ rfl rfl rfl⟩
  · rintro s ⟨rfl, hsound, h⟩
    exact ⟨s.program_step, step_sound hp.labelsWithin hsound, (step_mirrors hmap hsound h).1⟩
  · exact fun s hs => ⟨hs.1, reset_sound hs.2.1, fun _ => hempty _ rfl rfl rfl⟩
  · exact fun s hs => ⟨hs.1, hs.2.1, fun h => by cases h⟩
  · exact fun s _ _ _ hs => hs

end Session

/-! ## Well-nested programs without jumps -/

namespace Statement

/-- GOTO and GOSUB, which may lead anywhere. -/
def jumps : Statement → Bool
  | .goto _ | .gosub _ => true
  | _ => false

/-- The name that a CALL calls. -/
def callee? : Statement → Option Name
  | .call name _ => some name
  | _ => none

/-- A SUB of a name. -/
def defines (name : Name) : Statement → Bool
  | .sub other _ => other.alike name
  | _ => false

end Statement

/-- A well-nested program that is steered by its blocks and calls alone. -/
structure Body.Orderly (b : Body) : Prop where
  nested : b.nested = true
  /-- A SUB stands in no other block. -/
  subs : ∀ s ∈ b.spans 0, s.kind = some .sub → b.enclosing s.first = []
  jumps : ∀ st ∈ b.text, st.jumps = false
  calls : ∀ st ∈ b.text, st.callee?.all (fun name => b.text.any (·.defines name)) = true
  paths : ∀ st ∈ b.text, st.hasPaths = true

theorem Program.subPlace?_ne_none {l : List Statement} {name : Name}
    (h : l.any (·.defines name) = true) : (Program.ofStatements l).subPlace? name ≠ none := by
  obtain ⟨st, hst, hd⟩ := List.any_eq_true.1 h
  obtain ⟨i, hi⟩ := List.mem_iff_getElem?.1 hst
  rw [← Program.statement?_ofStatements] at hi
  obtain ⟨line, hline, rfl⟩ := Option.map_eq_some_iff.1 hi
  intro hnone
  unfold subPlace? at hnone
  rw [List.findIdx?_eq_none_iff] at hnone
  have := hnone line (List.mem_of_getElem? hline)
  unfold Statement.defines at hd
  split at hd
  · rename_i other params hs
    rw [hs] at this
    simp only [hd] at this
    cases this
  · cases hd

theorem Body.Orderly.mapped {b : Body} (h : b.Orderly) :
    Mapped (Program.ofStatements b.text) b.enclosing := by
  have htext : ∀ {l st}, (Program.ofStatements b.text).statement? l = some st → st ∈ b.text := by
    intro l st hst
    rw [Program.statement?_ofStatements] at hst
    exact List.mem_of_getElem? hst
  refine ⟨fun l st hst => (b.lineAt_program h.nested hst).2, b.chain_enclosing h.nested,
    b.enclosing_zero, ?_, ?_, ?_, ?_, ?_, fun l st hst => h.paths st (htext hst)⟩
  · intro l s hs
    have := (List.mem_filter.1 hs).2
    simp only [Span.holds, Bool.and_eq_true, decide_eq_true_eq] at this
    exact this.1
  · intro l name params hst
    obtain ⟨s, hs, rfl⟩ := (b.lineAt_program h.nested hst).2.of_opener rfl
    have hmem : s ∈ b.enclosing (s.first + 1) := by
      rw [hs.inside]
      exact List.mem_append_right _ List.mem_cons_self
    exact h.subs s (List.mem_filter.1 hmem).1 (hs.opens_of hst).1.symm
  · intro l label hst
    cases h.jumps _ (htext hst)
  · intro l label hst
    cases h.jumps _ (htext hst)
  · intro l name args hst
    exact Program.subPlace?_ne_none (h.calls _ (htext hst))

/-- In every state of a run that is not stopped, the frames of the innermost call
are the blocks around the current line, outermost first; and no step and no run
ever fails with a structural error. -/
theorem the_stack_mirrors_the_text {b : Body} {s : Session} (hb : b.Orderly)
    (hs : Session.Reachable (Program.ofStatements b.text) s) :
    (s.stopped = false →
      (s.frames.items.filter (·.depth = s.depth)).map Frame.span = b.enclosing s.line) ∧
    (∀ e, s.step.1 = .failed e → e.isStructural = false) ∧
    ∀ n times e, (s.executeAt times n).1 = .failed e → e.isStructural = false := by
  have hmap := hb.mapped
  have hmade : (Program.ofStatements b.text).Made := .ofLines _
  have hall : ∀ {s : Session}, Session.Reachable (Program.ofStatements b.text) s →
      (s.stopped = false → s.control.Mirrors b.enclosing) ∧
        ∀ e, s.step.1 = .failed e → e.Mild := by
    intro s hs
    obtain ⟨hp, hsound, h⟩ := Session.reachable_mirrors hmade hmap hs
    rw [← hp] at hmap hsound
    exact ⟨h, (Session.step_mirrors hmap hsound h).2⟩
  refine ⟨fun hrun => ?_, (hall hs).2, fun n times e he => ?_⟩
  · have hhere := ((hall hs).1 hrun).here
    rw [← State.depth_control] at hhere
    exact hhere
  · exact hs.execute_failed (Q := Error.Mild) (fun s e hs => (hall hs).2 e) (fun _ => rfl) he

theorem the_stack_mirrors_a_call :
    let b : Body := .block (.sub ⟨['S']⟩ []) (.last (.line .return .nil) .endSub)
      (.block .try (.clause (.line (.call ⟨['s']⟩ []) .nil) (.catch none) (.last .nil .endTry)) .nil)
    b.Orderly ∧ ∀ n times e,
      ((Session.start (Program.ofStatements b.text) 7 {}).executeAt times n).1 = .failed e →
        e.isStructural = false := by
  refine ⟨⟨by decide, by decide, by decide, by decide, by decide⟩, ?_⟩
  exact (the_stack_mirrors_the_text ⟨by decide, by decide, by decide, by decide, by decide⟩
    (.start 7 {})).2.2

end LineBasic
