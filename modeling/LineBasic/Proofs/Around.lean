-- Without GOTO and GOSUB every block on the stack is around the line that the
-- program is at, seen from the call of the block. The blocks of one call stand one
-- inside the other, and the lowest of them is the SUB that was called. None of this
-- needs a well-nested text: it rests on the indents alone.
import LineBasic.Proofs.Indents
import LineBasic.Proofs.Origins

namespace LineBasic

/-! ## Blocks in the text -/

namespace Statement

/-- The last line of a block closes it. -/
theorem role_of_closedBy {o st : Statement} (h : o.closedBy st = true) : st.role = .closer := by
  unfold closedBy at h
  split at h
  all_goals first
    | cases h
    | (unfold closesIf at h; split at h <;> first | rfl | cases h)
    | (unfold closesWhile at h; split at h <;> first | rfl | cases h)
    | (unfold closesDo at h; split at h <;> first | rfl | cases h)
    | (unfold closesFor at h; split at h <;> first | rfl | cases h)
    | (unfold closesSelect at h; split at h <;> first | rfl | cases h)
    | (unfold closesTry at h; split at h <;> first | rfl | cases h)
    | (unfold closesSub at h; split at h <;> first | rfl | cases h)

theorem role_of_clauseClosedBy {o st : Statement} (h : o.clauseClosedBy st = true) :
    st.role = .closer := by
  unfold clauseClosedBy at h
  split at h
  all_goals first
    | cases h
    | (unfold closesIf at h; split at h <;> first | rfl | cases h)
    | (unfold closesSelect at h; split at h <;> first | rfl | cases h)
    | (unfold closesTry at h; split at h <;> first | rfl | cases h)

/-- A line that ends its block whenever it is reached finds the line that found it. -/
theorem openedBy_of_closedBy {o st : Statement} (h : o.closedBy st = true)
    (hc : st.closesOnce = true) : st.openedBy o = true := by
  cases st <;> first | (cases hc; done) | skip
  all_goals cases o <;> first | rfl | cases h

end Statement

namespace Program

variable {p : Program} {level a z b : Nat}

/-- A SUB from line `a` to line `z`. -/
def IsSub (p : Program) (a z : Nat) : Prop :=
  ∃ name params, p.statement? a = some (.sub name params) ∧
    p.closer a Statement.closesSub = some z

/-- No line jumps to a label. -/
def Jumpless (p : Program) : Prop :=
  ∀ l st, p.statement? l = some st → ∀ label, st ≠ .goto label ∧ st ≠ .gosub label

/-- No block that begins between `a` and `z` reaches `z`. -/
def Clear (p : Program) (a z : Nat) : Prop :=
  ∀ b st wanted y, a < b → b < z → p.statement? b = some st → st.role = .opener →
    p.closer b wanted = some y → y < z

theorem clear_succ (a : Nat) : p.Clear a (a + 1) := by
  intro b st wanted y hab hb
  omega

theorem Spans.clear (h : p.Spans level a z) : p.Clear a z := by
  intro b st wanted y ha hz hst hr hc
  obtain ⟨l, hl, hi⟩ := h.deeper ha hz hst (by simp [hr])
  exact h.closer_lt hz hl hi hc

/-- What is clear up to a line is clear past it if no block begins there. -/
theorem Clear.trans {st : Statement} (h : p.Clear a b) (hst : p.statement? b = some st)
    (hr : st.role ≠ .opener) (h' : p.Clear b z) (hz : b < z) : p.Clear a z := by
  intro d st' wanted y ha hdz hst' hr' hc
  rcases Nat.lt_trichotomy d b with hlt | rfl | hgt
  · have := h d st' wanted y ha hlt hst' hr' hc
    omega
  · cases hst.symm.trans hst'
    exact absurd hr' hr
  · exact h' d st' wanted y hgt hdz hst' hr' hc

theorem Clear.next {st : Statement} (h : p.Clear a z) (hst : p.statement? z = some st)
    (hr : st.role ≠ .opener) : p.Clear a (z + 1) :=
  h.trans hst hr (clear_succ z) (Nat.lt_succ_self z)

/-- The rest of a stretch from a line at its indent. -/
theorem Spans.suffix {l : Line} (h : p.Spans level a z) (ha : a < b) (hz : b < z)
    (hl : p.line? b = some l) (hi : l.indent = level) : p.Spans level b z :=
  ⟨hz, ⟨l, hl, hi⟩, h.high, fun i hbi hiz => h.inner i (by omega) hiz⟩

end Program

namespace Frame.Fits

variable {p : Program} {f : Frame}

theorem spans (h : f.Fits p) : ∃ level, p.Spans level f.first f.last := by
  obtain ⟨_, _, _, _, hc⟩ := h.opens
  exact Program.closer_spans hc

theorem last_closer (h : f.Fits p) : ∃ st, p.statement? f.last = some st ∧ st.role = .closer := by
  obtain ⟨_, _, _, _, hc⟩ := h.opens
  obtain ⟨_, _, st, hst, hw⟩ := Program.closer_eq_some hc
  exact ⟨st, hst, Statement.role_of_closedBy hw⟩

/-- A line of another role is not the last line of a block. -/
theorem last_ne {l : Nat} {st : Statement} (h : f.Fits p) (hst : p.statement? l = some st)
    (hr : st.role ≠ .closer) : f.last ≠ l := by
  rintro rfl
  obtain ⟨st', hst', hr'⟩ := h.last_closer
  cases hst.symm.trans hst'
  exact hr hr'

/-- A block that a line of another block is past the first line of ends before it. -/
theorem closer_lt {b y : Nat} {st : Statement} {wanted : Statement → Bool} (h : f.Fits p)
    (hb : f.first < b) (hl : b ≤ f.last) (hst : p.statement? b = some st) (hr : st.role = .opener)
    (hc : p.closer b wanted = some y) : y < f.last := by
  obtain ⟨level, hspan⟩ := h.spans
  have hne := h.last_ne hst (by simp [hr])
  exact hspan.clear b st wanted y hb (by omega) hst hr hc

/-- A line that ends its block whenever it is reached finds the block. -/
theorem opener_last {st : Statement} (h : f.Fits p) (hst : p.statement? f.last = some st)
    (hc : st.closesOnce = true) : p.opener f.last st.openedBy = some f.first := by
  obtain ⟨level, hspan⟩ := h.spans
  obtain ⟨o, ho, _, _, hl⟩ := h.opens
  obtain ⟨_, _, st', hst', hw⟩ := Program.closer_eq_some hl
  cases hst.symm.trans hst'
  exact hspan.opener_of_wanted ho (Statement.openedBy_of_closedBy hw hc)
    fun o' ho' => (Statement.opens_of_openedBy ho').1

/-- A SUB that reaches into a block at a clear line is the block or is around it. -/
theorem around_of_clear {t a z : Nat} (h : f.Fits p) (hclear : p.Clear f.first t) (ht : f.first < t)
    (hs : p.IsSub a z) (ha : a < t) (hz : t ≤ z) :
    a = f.first ∧ z = f.last ∨ a < f.first ∧ f.last < z := by
  obtain ⟨name, params, hst, hc⟩ := hs
  obtain ⟨st, hfirst, hr, _, hl⟩ := h.opens
  rcases Nat.lt_trichotomy a f.first with hlt | rfl | hgt
  · obtain ⟨level, hspan⟩ := Program.closer_spans hc
    exact Or.inr ⟨hlt, hspan.clear _ _ _ _ hlt (by omega) hfirst hr hl⟩
  · cases hst.symm.trans hfirst
    cases hc.symm.trans hl
    exact Or.inl ⟨rfl, rfl⟩
  · have := hclear a _ _ z hgt ha hst rfl hc
    omega

end Frame.Fits

/-- What a frame tells of its block, apart from how far the block has got. -/
def Frame.shape (f : Frame) : Nat × Nat × Nat × BlockKind := (f.first, f.last, f.depth, f.kind)

theorem Frame.shape_eq {f g : Frame} : f.shape = g.shape ↔
    f.first = g.first ∧ f.last = g.last ∧ f.depth = g.depth ∧ f.kind = g.kind := by
  simp [Frame.shape]

/-- A new state of the same kind leaves all shapes as they are. -/
theorem Frames.shapes_modify {fs : Frames} {i : Nat} {f : Frame} {state : FrameState}
    (hf : fs.get? i = some f) (hk : state.kind = f.kind) :
    (fs.modify i fun g => { g with state }).items.map Frame.shape = fs.items.map Frame.shape := by
  apply List.ext_getElem?
  intro j
  simp only [Stack.modify_items, List.getElem?_map, List.getElem?_modify]
  by_cases hij : i = j
  · subst hij
    rw [show fs.items[i]? = some f from hf]
    simp [Frame.shape, Frame.kind, hk]
  · cases fs.items[j]? <;> simp [hij]

/-! ## What is around the program -/

/-- Every block on the stack is around the line seen from its call, and in one call a
higher block begins later. -/
structure Control.Wraps (c : Control) : Prop where
  around : ∀ f ∈ c.frames.items, ∀ l, c.At f.depth l → f.first < l ∧ l ≤ f.last
  ascending : c.frames.items.Pairwise fun f g => f.depth = g.depth → f.first < g.first

/-- Every block on the stack is around the line seen from its call; in one call a
higher block begins later, and only the lowest is a SUB. Calls are made by CALL,
every call is in a SUB, and a SUB is only entered by a call. -/
structure Control.Nests (p : Program) (c : Control) : Prop where
  around : ∀ f ∈ c.frames.items, ∀ l, c.At f.depth l → f.first < l ∧ l ≤ f.last
  ascending : c.frames.items.Pairwise fun f g =>
    f.depth = g.depth → f.first < g.first ∧ g.kind ≠ .sub
  callers : ∀ k l, k < c.depth → c.At k l → ∃ name args, p.statement? l = some (.call name args)
  routines : ∀ k, 0 < k → k ≤ c.depth → ∃ f ∈ c.frames.items, f.depth = k ∧ f.kind = .sub
  entered : ∀ k l a z, c.At k l → p.IsSub a z → a < l → l ≤ z →
    ∃ f ∈ c.frames.items, f.depth = k ∧ f.kind = .sub ∧ a ≤ f.first

section Nests

variable {p : Program} {c c' : Control} {i j t : Nat} {f g : Frame} {st : Statement}

theorem Control.At.here (c : Control) : c.At c.depth c.line := Or.inl ⟨rfl, rfl⟩

theorem Control.exists_at {k : Nat} (h : c.Called) (hk : k ≤ c.depth) : ∃ l, c.At k l := by
  rcases Nat.eq_or_lt_of_le hk with rfl | hlt
  · exact ⟨c.line, .here c⟩
  · have hget := List.getElem?_eq_getElem (l := c.calls.items) hlt
    obtain ⟨l, hl⟩ := h _ (List.mem_of_getElem? hget)
    exact ⟨l, Or.inr ⟨hlt, hl ▸ hget⟩⟩

/-- The same calls see the same lines. -/
theorem Control.At.of_calls {k l : Nat} (hk : k < c'.depth)
    (hcalls : c'.calls.items[k]? = c.calls.items[k]?) (hc : k < c.depth) (h : c'.At k l) :
    c.At k l := by
  rcases h with ⟨rfl, _⟩ | ⟨_, h⟩
  · omega
  · exact Or.inr ⟨hc, hcalls ▸ h⟩

/-- No deeper call has a block yet. -/
theorem Control.Sound.place?_deeper {k : Nat} (hs : c.Sound p) (line : Nat) (hk : c.depth < k) :
    c.frames.place? line k = none := by
  cases hp : c.frames.place? line k with
  | none => rfl
  | some i =>
    obtain ⟨f, hf, _, hfd, _⟩ := c.frames.place?_eq_some hp
    have := hs.frames.within f (List.mem_of_getElem? hf)
    omega

/-- A call leaves what an outer call sees as it is. -/
theorem Control.At.pushed {k l : Nat} {calls : Stack (Option Nat)} {fs : Frames} (h : c.At k l)
    (hc : c.calls.push (some (c.line + 1)) = .ok calls) (line : Nat) :
    Control.At ⟨line, fs, calls⟩ k l := by
  obtain ⟨_, rfl⟩ := Stack.push_eq_ok _ hc
  have hlt : k < c.calls.items.length + 1 := by
    rcases h with ⟨rfl, _⟩ | ⟨hk, _⟩
    · exact Nat.lt_succ_self _
    · exact Nat.lt_succ_of_lt hk
  refine Or.inr ⟨by simpa [depth, Stack.size] using hlt, ?_⟩
  rcases h with ⟨rfl, rfl⟩ | ⟨hk, hget⟩
  · exact List.getElem?_concat_length
  · exact (List.getElem?_append_left hk).trans hget

namespace Control.Wraps

theorem first_lt (h : c.Wraps) (hf : c.frames.get? i = some f) (hg : c.frames.get? j = some g)
    (hij : i < j) (hd : f.depth = g.depth) : f.first < g.first := by
  obtain ⟨hi, hfi⟩ := List.getElem?_eq_some_iff.1 hf
  obtain ⟨hj, hgj⟩ := List.getElem?_eq_some_iff.1 hg
  have := List.pairwise_iff_getElem.1 h.ascending i j hi hj hij
  rw [hfi, hgj] at this
  exact this hd

/-- A lower block of the same call is around a higher one. -/
theorem last_lt (h : c.Wraps) (hs : c.Sound p) (hc : c.Called) (hf : c.frames.get? i = some f)
    (hg : c.frames.get? j = some g) (hij : i < j) (hd : f.depth = g.depth) : g.last < f.last := by
  have hfm := List.mem_of_getElem? hf
  obtain ⟨l, hl⟩ := Control.exists_at hc (hs.frames.within f hfm)
  have hlast := (h.around f hfm l hl).2
  have hfirst := (h.around g (List.mem_of_getElem? hg) l (hd ▸ hl)).1
  obtain ⟨st, hst, hr, _, hclose⟩ := (hs.frames.fits g (List.mem_of_getElem? hg)).opens
  have hlow := h.first_lt hf hg hij hd
  exact (hs.frames.fits f hfm).closer_lt hlow (by omega) hst hr hclose

/-- No block that begins at the current line has a frame yet. -/
theorem place?_line (h : c.Wraps) : c.frames.place? c.line c.depth = none := by
  cases hp : c.frames.place? c.line c.depth with
  | none => rfl
  | some i =>
    obtain ⟨f, hf, hfirst, hd, _⟩ := c.frames.place?_eq_some hp
    have := (h.around f (List.mem_of_getElem? hf) c.line (hd ▸ .here c)).1
    omega

end Control.Wraps

namespace Control.Nests

theorem wraps (h : c.Nests p) : c.Wraps :=
  ⟨h.around, h.ascending.imp fun hup hd => (hup hd).1⟩

theorem ascending_of_lt (h : c.Nests p) (hf : c.frames.get? i = some f)
    (hg : c.frames.get? j = some g) (hij : i < j) (hd : f.depth = g.depth) :
    f.first < g.first ∧ g.kind ≠ .sub := by
  obtain ⟨hi, hfi⟩ := List.getElem?_eq_some_iff.1 hf
  obtain ⟨hj, hgj⟩ := List.getElem?_eq_some_iff.1 hg
  have := List.pairwise_iff_getElem.1 h.ascending i j hi hj hij
  rw [hfi, hgj] at this
  exact this hd

/-- A SUB of the same call or of an outer one is not above a block. -/
theorem sub_le (h : c.Nests p) (hs : c.Sound p) (hf : c.frames.get? i = some f)
    (hg : g ∈ c.frames.items) (hk : g.kind = .sub) (hd : g.depth ≤ f.depth) :
    ∃ j, j ≤ i ∧ c.frames.get? j = some g := by
  obtain ⟨j, hj⟩ := List.mem_iff_getElem?.1 hg
  refine ⟨j, ?_, hj⟩
  rcases Nat.lt_or_ge i j with hij | hij
  · have hle : f.depth ≤ g.depth := by
      obtain ⟨hi, hfi⟩ := List.getElem?_eq_some_iff.1 hf
      obtain ⟨hj', hgj⟩ := List.getElem?_eq_some_iff.1 hj
      have := List.pairwise_iff_getElem.1 hs.frames.sorted i j hi hj' hij
      rwa [hfi, hgj] at this
    exact absurd hk (h.ascending_of_lt hf hj hij (by omega)).2
  · exact hij

/-- Going on in the same call or in an outer one, with blocks cut off. -/
theorem back {n : Nat} (h : c.Nests p) (hframes : c'.frames.items = c.frames.items.take n)
    (hdepth : c'.depth ≤ c.depth) (hcalls : c'.calls.items = c.calls.items.take c'.depth)
    (hkeep : ∀ f ∈ c.frames.items, f.kind = .sub → f.depth ≤ c'.depth → f ∈ c'.frames.items)
    (hin : ∀ f ∈ c'.frames.items, f.depth = c'.depth → f.first < c'.line ∧ c'.line ≤ f.last)
    (hsub : ∀ a z, p.IsSub a z → a < c'.line → c'.line ≤ z →
      ∃ l, c.At c'.depth l ∧ a < l ∧ l ≤ z) : c'.Nests p := by
  have hmem : ∀ f ∈ c'.frames.items, f ∈ c.frames.items := by
    intro f hf
    rw [hframes] at hf
    exact List.mem_of_mem_take hf
  have hat : ∀ {k l}, k < c'.depth → c'.At k l → c.At k l := by
    intro k l hk hl
    refine hl.of_calls hk ?_ (by omega)
    rw [hcalls]
    exact List.getElem?_take_of_lt hk
  refine ⟨?_, ?_, ?_, ?_, ?_⟩
  · intro f hf l hl
    rcases hl with ⟨hd, rfl⟩ | ⟨hd, hl⟩
    · exact hin f hf hd
    · exact h.around f (hmem f hf) l (hat hd (Or.inr ⟨hd, hl⟩))
  · rw [hframes]
    exact h.ascending.sublist (List.take_sublist _ _)
  · exact fun k l hk hl => h.callers k l (by omega) (hat hk hl)
  · intro k hpos hk
    obtain ⟨f, hf, rfl, hkind⟩ := h.routines k hpos (by omega)
    exact ⟨f, hkeep f hf hkind hk, rfl, hkind⟩
  · intro k l a z hl hs ha hz
    have hold : ∃ l', c.At k l' ∧ a < l' ∧ l' ≤ z := by
      rcases hl with ⟨rfl, rfl⟩ | ⟨hk, hl⟩
      · exact hsub a z hs ha hz
      · exact ⟨l, hat hk (Or.inr ⟨hk, hl⟩), ha, hz⟩
    obtain ⟨l', hl', ha', hz'⟩ := hold
    obtain ⟨f, hf, rfl, hkind, hle⟩ := h.entered k l' a z hl' hs ha' hz'
    refine ⟨f, hkeep f hf hkind ?_, rfl, hkind, hle⟩
    rcases hl with ⟨hk, _⟩ | ⟨hk, _⟩ <;> omega

theorem congr (h : c.Nests p) (hframes : c'.frames.items = c.frames.items)
    (hline : c'.line = c.line) (hcalls : c'.calls.items = c.calls.items) : c'.Nests p := by
  have hd : c'.depth = c.depth := congrArg List.length hcalls
  refine h.back (hframes.trans (List.take_length ..).symm) (Nat.le_of_eq hd) ?_ ?_ ?_ ?_
  · rw [hcalls, hd]
    exact (List.take_length ..).symm
  · exact fun f hf _ _ => hframes ▸ hf
  · intro f hf hfd
    rw [hline]
    exact h.around f (hframes ▸ hf) c.line (Or.inl ⟨hfd.trans hd, rfl⟩)
  · intro a z _ ha hz
    rw [hline] at ha hz
    exact ⟨c.line, Or.inl ⟨hd, rfl⟩, ha, hz⟩

/-- Going on at a clear line of a block, with all above it and all deeper calls cut off. -/
theorem cut (h : c.Nests p) (hs : c.Sound p) (hc : c.Called) (hf : c.frames.get? i = some f)
    (hfirst : f.first < t) (hlast : t ≤ f.last) (hclear : p.Clear f.first t) :
    Nests p ⟨t, c.frames.truncate (i + 1), c.calls.truncate f.depth⟩ := by
  have hfm := List.mem_of_getElem? hf
  have hle := hs.frames.within f hfm
  have hd :
      (⟨t, c.frames.truncate (i + 1), c.calls.truncate f.depth⟩ : Control).depth = f.depth := by
    simp only [depth, Stack.size, Stack.truncate_items, List.length_take] at hle ⊢
    omega
  refine h.back rfl (by omega) ?_ ?_ ?_ ?_
  · rw [hd]
    rfl
  · intro g hg hk hgd
    obtain ⟨j, hj, hget⟩ := h.sub_le hs hf hg hk (by omega)
    refine List.mem_of_getElem? (i := j) ?_
    rw [Stack.truncate_items, List.getElem?_take_of_lt (by omega)]
    exact hget
  · intro g hg hgd
    rw [hd] at hgd
    obtain ⟨j, hlt, hj⟩ := Stack.exists_of_mem_truncate hg
    rcases Nat.lt_or_ge j i with hji | hji
    · have hup := h.ascending_of_lt hj hf hji hgd
      have hout := h.wraps.last_lt hs hc hj hf hji hgd
      exact ⟨Nat.lt_trans hup.1 hfirst, by dsimp only; omega⟩
    · obtain rfl : j = i := by omega
      cases hf.symm.trans hj
      exact ⟨hfirst, hlast⟩
  · intro a z hsub ha hz
    obtain ⟨l, hl⟩ := Control.exists_at hc hle
    have hin := h.around f hfm l hl
    rw [hd]
    rcases (hs.frames.fits f hfm).around_of_clear hclear hfirst hsub ha hz with
      ⟨rfl, rfl⟩ | ⟨ha', hz'⟩
    · exact ⟨l, hl, hin⟩
    · exact ⟨l, hl, by omega, by omega⟩

/-- Going on after a block of the innermost call. -/
theorem leave (h : c.Nests p) (hs : c.Sound p) (hc : c.Called) (hf : c.frames.get? i = some f)
    (hd : f.depth = c.depth) (hk : f.kind ≠ .sub) :
    Nests p { c with line := f.last + 1, frames := c.frames.truncate i } := by
  have hfm := List.mem_of_getElem? hf
  have hfits := hs.frames.fits f hfm
  refine h.back rfl (Nat.le_refl _) (List.take_length ..).symm ?_ ?_ ?_
  · intro g hg hgk hgd
    change g.depth ≤ c.depth at hgd
    obtain ⟨j, hj, hget⟩ := h.sub_le hs hf hg hgk (by omega)
    have hlt : j < i := by
      rcases Nat.eq_or_lt_of_le hj with rfl | hlt
      · cases hf.symm.trans hget
        exact absurd hgk hk
      · exact hlt
    refine List.mem_of_getElem? (i := j) ?_
    rw [Stack.truncate_items, List.getElem?_take_of_lt hlt]
    exact hget
  · intro g hg hgd
    change g.depth = c.depth at hgd
    obtain ⟨j, hlt, hj⟩ := Stack.exists_of_mem_truncate hg
    have hup := h.ascending_of_lt hj hf hlt (by omega)
    have hout := h.wraps.last_lt hs hc hj hf hlt (by omega)
    have hf' := hfits.first_lt
    exact ⟨by dsimp only; omega, hout⟩
  · intro a z hsub ha hz
    have hin := h.around f hfm c.line (hd ▸ .here c)
    obtain ⟨level, hspan⟩ := hfits.spans
    obtain ⟨st, hst, hr⟩ := hfits.last_closer
    have hclear := hspan.clear.next hst (by simp [hr])
    have hf' := hfits.first_lt
    dsimp only at ha hz
    rcases hfits.around_of_clear hclear (by omega) hsub ha hz with ⟨rfl, rfl⟩ | ⟨ha', hz'⟩
    · omega
    · exact ⟨c.line, .here c, by omega, by omega⟩

/-- Going on elsewhere in the same blocks. -/
theorem goTo (h : c.Nests p)
    (hin : ∀ f ∈ c.frames.items, f.depth = c.depth → f.first < t ∧ t ≤ f.last)
    (hsub : ∀ a z, p.IsSub a z → a < t → t ≤ z → a < c.line ∧ c.line ≤ z) :
    Nests p { c with line := t } := by
  refine h.back (List.take_length ..).symm (Nat.le_refl _) (List.take_length ..).symm
    (fun f hf _ _ => hf) hin ?_
  intro a z hs ha hz
  exact ⟨c.line, .here c, hsub a z hs ha hz⟩

/-- Going on at the next line, past no end of a block. -/
theorem next (h : c.Nests p) (hst : p.statement? c.line = some st) (hr : st.role ≠ .opener)
    (hl : ∀ f ∈ c.frames.items, f.depth = c.depth → f.last ≠ c.line) :
    Nests p { c with line := c.line + 1 } := by
  refine h.goTo (fun f hf hd => ?_) fun a z hs ha hz => ?_
  · have hin := h.around f hf c.line (hd ▸ .here c)
    have := hl f hf hd
    omega
  · obtain ⟨name, params, hsub, _⟩ := hs
    have hne : a ≠ c.line := by
      rintro rfl
      cases hst.symm.trans hsub
      exact hr rfl
    omega

/-- Going on at the next line from a line that is no end of a block. -/
theorem onward (h : c.Nests p) (hs : c.Sound p) (hst : p.statement? c.line = some st)
    (hr : st.role = .plain ∨ st.role = .clause) : Nests p { c with line := c.line + 1 } := by
  refine h.next hst ?_ fun f hf _ => (hs.frames.fits f hf).last_ne hst ?_
  · rcases hr with hr | hr <;> simp [hr]
  · rcases hr with hr | hr <;> simp [hr]

/-- Passing over a block that begins at the current line. -/
theorem pass {last : Nat} (h : c.Nests p) (hs : c.Sound p) (hst : p.statement? c.line = some st)
    (hr : st.role = .opener) (hl : p.closer c.line st.closedBy = some last) :
    Nests p { c with line := last + 1 } := by
  have hlt := (Program.closer_eq_some hl).1
  refine h.goTo (fun f hf hd => ?_) fun a z hsub ha hz => ?_
  · have hin := h.around f hf c.line (hd ▸ .here c)
    have := (hs.frames.fits f hf).closer_lt hin.1 hin.2 hst hr hl
    omega
  · obtain ⟨name, params, hsa, hc⟩ := hsub
    obtain ⟨level, hspan⟩ := Program.closer_spans hl
    obtain ⟨_, _, st', hst', hw⟩ := Program.closer_eq_some hl
    have hclear := hspan.clear.next hst' (by simp [Statement.role_of_closedBy hw])
    rcases Nat.lt_trichotomy a c.line with hac | rfl | hac
    · omega
    · cases hst.symm.trans hsa
      cases hl.symm.trans hc
      omega
    · have := hclear a _ _ z hac ha hsa rfl hc
      omega

theorem place?_line (h : c.Nests p) : c.frames.place? c.line c.depth = none :=
  h.wraps.place?_line

/-- A block that begins at the current line is entered. -/
theorem enter {last : Nat} {state : FrameState} {fs : Frames} (h : c.Nests p) (hs : c.Sound p)
    (hst : p.statement? c.line = some st) (hr : st.role = .opener)
    (hk : st.blockKind? ≠ some .sub) (hstate : some state.kind = st.blockKind?)
    (hl : p.closer c.line st.closedBy = some last)
    (he : c.frames.enter ⟨c.line, last, c.depth, state⟩ = .ok fs) (ht : c.line < t) (ht' : t ≤ last)
    (hclear : p.Clear c.line t) : Nests p { c with line := t, frames := fs } := by
  unfold Frames.enter at he
  rw [Frames.leave_of_none _ h.place?_line] at he
  obtain ⟨_, rfl⟩ := Stack.push_eq_ok _ he
  have hkind : state.kind ≠ .sub := fun hsub => hk (by rw [← hstate, hsub])
  refine ⟨?_, ?_, ?_, ?_, ?_⟩
  · intro f hf l hl
    rcases List.mem_append.1 hf with hf | hf
    · rcases hl with ⟨hd, hline⟩ | ⟨hd, hl⟩
      · have hin := h.around f hf c.line (Or.inl ⟨hd, rfl⟩)
        have := (hs.frames.fits f hf).closer_lt hin.1 hin.2 hst hr (by assumption)
        change l = t at hline
        omega
      · exact h.around f hf l (Or.inr ⟨hd, hl⟩)
    · obtain rfl := List.mem_singleton.1 hf
      rcases hl with ⟨_, hline⟩ | ⟨hd, _⟩
      · rw [hline]
        exact ⟨ht, ht'⟩
      · exact absurd hd (Nat.lt_irrefl _)
  · refine List.pairwise_append.2 ⟨h.ascending, List.pairwise_singleton _ _, fun f hf g hg hd => ?_⟩
    obtain rfl := List.mem_singleton.1 hg
    exact ⟨(h.around f hf c.line (hd ▸ .here c)).1, hkind⟩
  · intro k l hk hl
    exact h.callers k l hk (hl.of_calls (c := c) hk rfl hk)
  · intro k hpos hle
    obtain ⟨f, hf, hrest⟩ := h.routines k hpos hle
    exact ⟨f, List.mem_append_left _ hf, hrest⟩
  · intro k l a z hl hsub ha hz
    have hold : ∃ l', c.At k l' ∧ a < l' ∧ l' ≤ z := by
      rcases hl with ⟨hk, hline⟩ | ⟨hk, hl⟩
      · change k = c.depth at hk
        change l = t at hline
        subst hk hline
        obtain ⟨name, params, hsa, hc⟩ := hsub
        refine ⟨c.line, .here c, ?_, by omega⟩
        rcases Nat.lt_trichotomy a c.line with hac | rfl | hac
        · exact hac
        · cases hst.symm.trans hsa
          exact absurd rfl hk
        · have := hclear a _ _ z hac ha hsa rfl hc
          omega
      · exact ⟨l, Or.inr ⟨hk, hl⟩, ha, hz⟩
    obtain ⟨l', hl', ha', hz'⟩ := hold
    obtain ⟨f, hf, hrest⟩ := h.entered k l' a z hl' hsub ha' hz'
    exact ⟨f, List.mem_append_left _ hf, hrest⟩

/-- A SUB is called from the current line. -/
theorem called {name : Name} {args : List Expression} {first last : Nat}
    {calls : Stack (Option Nat)} {fs : Frames} (h : c.Nests p) (hs : c.Sound p)
    (hst : p.statement? c.line = some (.call name args))
    (hl : p.closer first Statement.closesSub = some last)
    (hc : c.calls.push (some (c.line + 1)) = .ok calls)
    (he : c.frames.enter ⟨first, last, calls.size, .sub⟩ = .ok fs) :
    Nests p ⟨first + 1, fs, calls⟩ := by
  have hcalls : calls.items = c.calls.items ++ [some (c.line + 1)] := by
    rw [(Stack.push_eq_ok _ hc).2]
  have hd : (⟨first + 1, fs, calls⟩ : Control).depth = c.depth + 1 := by
    simp [depth, Stack.size, hcalls]
  change calls.size = c.depth + 1 at hd
  rw [hd] at he
  unfold Frames.enter at he
  rw [Frames.leave_of_none _ (hs.place?_deeper first (Nat.lt_succ_self _))] at he
  have hitems : fs.items = c.frames.items ++ [⟨first, last, c.depth + 1, .sub⟩] := by
    rw [(Stack.push_eq_ok _ he).2]
  have hnew : ⟨first, last, c.depth + 1, .sub⟩ ∈ fs.items := by
    rw [hitems]
    exact List.mem_append_right _ List.mem_cons_self
  have hold : ∀ f ∈ c.frames.items, f ∈ fs.items := by
    intro f hf
    rw [hitems]
    exact List.mem_append_left _ hf
  -- An outer call sees what it saw, and the caller its own line.
  have hat : ∀ {k l}, Control.At ⟨first + 1, fs, calls⟩ k l →
      k = c.depth + 1 ∧ l = first + 1 ∨ k ≤ c.depth ∧ c.At k l := by
    rintro k l (⟨hk, hline⟩ | ⟨hk, hget⟩)
    · exact Or.inl ⟨hk.trans hd, hline⟩
    · change k < calls.size at hk
      change calls.items[k]? = _ at hget
      rw [hcalls] at hget
      refine Or.inr ⟨by omega, ?_⟩
      rcases Nat.eq_or_lt_of_le (show k ≤ c.depth by omega) with rfl | hlt
      · rw [show c.depth = c.calls.items.length from rfl, List.getElem?_concat_length] at hget
        cases hget
        exact .here c
      · rw [List.getElem?_append_left hlt] at hget
        exact Or.inr ⟨hlt, hget⟩
  have hlt := (Program.closer_eq_some hl).1
  refine ⟨?_, ?_, ?_, ?_, ?_⟩
  · intro f hf l hl'
    change f ∈ fs.items at hf
    rw [hitems] at hf
    rcases List.mem_append.1 hf with hf | hf
    · have hle := hs.frames.within f hf
      rcases hat hl' with ⟨hk, _⟩ | ⟨_, hl'⟩
      · omega
      · exact h.around f hf l hl'
    · obtain rfl := List.mem_singleton.1 hf
      rcases hat hl' with ⟨_, rfl⟩ | ⟨hk, _⟩
      · exact ⟨Nat.lt_succ_self first, hlt⟩
      · exact absurd hk (Nat.not_succ_le_self _)
  · change fs.items.Pairwise _
    rw [hitems]
    refine List.pairwise_append.2 ⟨h.ascending, List.pairwise_singleton _ _, ?_⟩
    intro f hf g hg hfd
    obtain rfl := List.mem_singleton.1 hg
    have := hs.frames.within f hf
    change f.depth = c.depth + 1 at hfd
    omega
  · intro k l hk hl'
    change k < calls.size at hk
    rcases hat hl' with ⟨hk', _⟩ | ⟨hk', hl'⟩
    · omega
    · rcases Nat.eq_or_lt_of_le hk' with rfl | hkd
      · rcases hl' with ⟨_, rfl⟩ | ⟨hkd, _⟩
        · exact ⟨name, args, hst⟩
        · exact absurd hkd (Nat.lt_irrefl _)
      · exact h.callers k l hkd hl'
  · intro k hpos hk
    change k ≤ calls.size at hk
    rcases Nat.eq_or_lt_of_le hk with rfl | hkd
    · exact ⟨_, hnew, hd.symm, rfl⟩
    · obtain ⟨f, hf, hrest⟩ := h.routines k hpos (by omega)
      exact ⟨f, hold f hf, hrest⟩
  · intro k l a z hl' hsub ha hz
    rcases hat hl' with ⟨hk, rfl⟩ | ⟨_, hl'⟩
    · exact ⟨_, hnew, hk.symm, rfl, Nat.le_of_lt_succ ha⟩
    · obtain ⟨f, hf, hrest⟩ := h.entered k l a z hl' hsub ha hz
      exact ⟨f, hold f hf, hrest⟩

/-- A return goes on after the CALL, in the blocks that it stands in. -/
theorem returned {l : Nat} (h : c.Nests p) (hs : c.Sound p) (hc : c.Called)
    (htop : c.calls.top? = some (some l)) :
    Nests p ⟨l, c.frames.unwind (c.depth - 1), c.calls.pop⟩ := by
  have hlast : c.calls.items[c.depth - 1]? = some (some l) := by
    rw [← htop]
    exact List.getLast?_eq_getElem?.symm
  have hpos : c.depth - 1 < c.depth := by
    have := (List.getElem?_eq_some_iff.1 hlast).1
    unfold depth Stack.size at *
    omega
  obtain ⟨l, hl⟩ := hc _ (List.mem_of_getElem? hlast)
  cases hl
  have hat : c.At (c.depth - 1) l := Or.inr ⟨hpos, hlast⟩
  obtain ⟨name, args, hst⟩ := h.callers _ l hpos hat
  have hd :
      (⟨l + 1, c.frames.unwind (c.depth - 1), c.calls.pop⟩ : Control).depth = c.depth - 1 := by
    simp [depth, Stack.size, Stack.pop]
  have hitems := hs.frames.unwind_items (c.depth - 1)
  obtain ⟨n, hn⟩ : ∃ n, (c.frames.unwind (c.depth - 1)).items = c.frames.items.take n := by
    unfold Frames.unwind
    split
    · exact ⟨_, rfl⟩
    · exact ⟨_, rfl⟩
  refine h.back hn (by omega) ?_ ?_ ?_ ?_
  · rw [hd]
    exact List.dropLast_eq_take
  · intro f hf _ hle
    rw [hd] at hle
    rw [hitems]
    exact List.mem_filter.2 ⟨hf, by simpa using hle⟩
  · intro f hf hfd
    rw [hd] at hfd
    rw [hitems] at hf
    have hf := (List.mem_filter.1 hf).1
    have hin := h.around f hf l (hfd ▸ hat)
    have hne := (hs.frames.fits f hf).last_ne hst (by simp [Statement.role])
    exact ⟨by dsimp only; omega, by dsimp only; omega⟩
  · intro a z hsub ha hz
    obtain ⟨other, params, hsa, _⟩ := hsub
    have hne : a ≠ l := by
      rintro rfl
      cases hst.symm.trans hsa
    dsimp only at ha hz
    rw [hd]
    exact ⟨l, hat, by omega, by omega⟩

/-- A new state of the same kind leaves all blocks where they are. -/
theorem withState {state : FrameState} (h : c.Nests p) (hf : c.frames.get? i = some f)
    (hk : state.kind = f.kind) :
    Nests p { c with frames := c.frames.modify i fun g => { g with state } } := by
  have hshape := Frames.shapes_modify hf hk
  have hfrom : ∀ g ∈ (c.frames.modify i fun g => { g with state }).items,
      ∃ g' ∈ c.frames.items, g'.shape = g.shape := by
    intro g hg
    have := List.mem_map_of_mem (f := Frame.shape) hg
    rw [hshape] at this
    exact List.mem_map.1 this
  have hto : ∀ g ∈ c.frames.items,
      ∃ g' ∈ (c.frames.modify i fun g => { g with state }).items, g'.shape = g.shape := by
    intro g hg
    have := List.mem_map_of_mem (f := Frame.shape) hg
    rw [← hshape] at this
    exact List.mem_map.1 this
  refine ⟨?_, ?_, h.callers, ?_, ?_⟩
  · intro g hg l hl
    obtain ⟨g', hg', hs⟩ := hfrom g hg
    obtain ⟨hfirst, hlast, hd, _⟩ := Frame.shape_eq.1 hs
    rw [← hfirst, ← hlast]
    exact h.around g' hg' l (hd ▸ hl)
  · have hup : (c.frames.items.map Frame.shape).Pairwise fun a b =>
        a.2.2.1 = b.2.2.1 → a.1 < b.1 ∧ b.2.2.2 ≠ .sub := List.pairwise_map.2 h.ascending
    rw [← hshape] at hup
    exact List.pairwise_map.1 hup
  · intro k hpos hle
    obtain ⟨g, hg, hd, hkind⟩ := h.routines k hpos hle
    obtain ⟨g', hg', hs⟩ := hto g hg
    obtain ⟨_, _, hd', hkind'⟩ := Frame.shape_eq.1 hs
    exact ⟨g', hg', hd'.trans hd, hkind'.trans hkind⟩
  · intro k l a z hl hsub ha hz
    obtain ⟨g, hg, hd, hkind, hle⟩ := h.entered k l a z hl hsub ha hz
    obtain ⟨g', hg', hs⟩ := hto g hg
    obtain ⟨hfirst, _, hd', hkind'⟩ := Frame.shape_eq.1 hs
    exact ⟨g', hg', hd'.trans hd, hkind'.trans hkind, hfirst ▸ hle⟩

end Control.Nests

/-! ## One move -/

namespace Control.InBlock

variable {first : Nat}

/-- A line of a block stands in no block inside it. -/
theorem top (hb : c.InBlock p st first i f) (h : c.Wraps) (hs : c.Sound p) :
    c.frames.items.length = i + 1 := by
  obtain ⟨hi, _⟩ := List.getElem?_eq_some_iff.1 hb.frame
  rcases Nat.lt_or_ge (i + 1) c.frames.items.length with hlt | hge
  · have hg : c.frames.get? (i + 1) = some (c.frames.items[i + 1]) := List.getElem?_eq_getElem hlt
    generalize c.frames.items[i + 1] = g at hg
    have hgm := List.mem_of_getElem? hg
    have hgd : g.depth = c.depth := by
      have hle := hs.frames.within g hgm
      have hge : f.depth ≤ g.depth := by
        refine (hs.frames.depth_le_of_mem_take hg ?_)
        refine List.mem_of_getElem? (i := i) ?_
        rw [List.getElem?_take_of_lt (by omega)]
        exact hb.frame
      have := hb.depth_eq
      omega
    have hup := h.first_lt hb.frame hg (Nat.lt_succ_self i) (hb.depth_eq.trans hgd.symm)
    have hin := h.around g hgm c.line (hgd ▸ .here c)
    obtain ⟨level, hspan⟩ := Program.opener_spans hb.opener
    obtain ⟨st, hst, hr, _, hclose⟩ := (hs.frames.fits g hgm).opens
    obtain ⟨_, hf, hfirst, _⟩ := c.frames.place?_eq_some hb.place
    cases hb.frame.symm.trans hf
    have := hspan.clear g.first st _ _ (by omega) hin.1 hst hr hclose
    omega
  · omega

theorem first_eq (hb : c.InBlock p st first i f) : f.first = first := by
  obtain ⟨_, hf, hfirst, _⟩ := c.frames.place?_eq_some hb.place
  cases hb.frame.symm.trans hf
  exact hfirst

/-- The line shares its indent with its block. -/
theorem spans (hb : c.InBlock p st first i f) (hs : c.Sound p) :
    ∃ level, p.Spans level f.first f.last ∧ p.Spans level f.first c.line := by
  obtain ⟨level, hspan⟩ := (hb.fits hs).spans
  obtain ⟨other, hopen⟩ := Program.opener_spans hb.opener
  rw [← hb.first_eq] at hopen
  obtain ⟨l, hl, rfl⟩ := hspan.low
  obtain ⟨l', hl', rfl⟩ := hopen.low
  cases hl.symm.trans hl'
  exact ⟨_, hspan, hopen⟩

/-- The closing line of a block is its last line. -/
theorem line_eq_last (hb : c.InBlock p st first i f) (hs : c.Sound p)
    (hst : p.statement? c.line = some st) (hr : st.role = .closer) : c.line = f.last := by
  obtain ⟨level, hspan, hopen⟩ := hb.spans hs
  obtain ⟨_, hlast, hrole⟩ := (hb.fits hs).last_closer
  rcases Nat.lt_trichotomy c.line f.last with hlt | heq | hgt
  · obtain ⟨l, hl, hi⟩ := hspan.deeper hopen.lt hlt hst (by simp [hr])
    obtain ⟨l', hl', hi'⟩ := hopen.high
    cases hl.symm.trans hl'
    omega
  · exact heq
  · obtain ⟨l, hl, hi⟩ := hopen.deeper hspan.lt hgt hlast (by simp [hrole])
    obtain ⟨l', hl', hi'⟩ := hspan.high
    cases hl.symm.trans hl'
    omega

end Control.InBlock

/-- With nothing above it, a block may take another state or go on at a clear line. -/
theorem Control.Nests.cutHere (h : c.Nests p) (hs : c.Sound p) (hc : c.Called)
    (hf : c.frames.get? i = some f) (hd : f.depth = c.depth) (hfirst : f.first < t)
    (hlast : t ≤ f.last) (hclear : p.Clear f.first t) :
    Nests p { c with line := t, frames := c.frames.truncate (i + 1) } := by
  have hcut := h.cut hs hc hf hfirst hlast hclear
  have hcalls : c.calls.truncate f.depth = c.calls := by
    rw [hd]
    exact c.calls.truncate_all (Nat.le_refl _)
  rwa [hcalls] at hcut

/-- A line of a block may lead to any clear line of it. -/
theorem Control.InBlock.goTo {first : Nat} (hb : c.InBlock p st first i f) (h : c.Nests p)
    (hs : c.Sound p) (hc : c.Called) (hfirst : f.first < t) (hlast : t ≤ f.last)
    (hclear : p.Clear f.first t) : Nests p { c with line := t } := by
  have hcut := h.cutHere hs hc hb.frame hb.depth_eq hfirst hlast hclear
  rwa [c.frames.truncate_all (Nat.le_of_eq (hb.top h.wraps hs))] at hcut

/-- The block that EXIT or CONTINUE acts on is of the kind that it names. -/
theorem Control.target_kind {kind : BlockKind} {name : Option Name}
    (ht : c.frames.lastPlace? (Run.isTarget kind name c.depth) = some i)
    (hf : c.frames.get? i = some f) : f.kind = kind := by
  obtain ⟨g, hg, htest, _⟩ := lastPlace?_eq_some ht
  cases hf.symm.trans hg
  simp only [Run.isTarget, Bool.and_eq_true, decide_eq_true_eq] at htest
  exact htest.1.2

/-- A clause whose block has no frame leads to a line that every block is around. -/
theorem Control.Wraps.around_skip {first last : Nat} (h : c.Wraps) (hs : c.Sound p)
    (hst : p.statement? c.line = some st) (hr : st.role = .clause)
    (ho : p.opener c.line st.openedBy = some first) (hn : c.frames.place? first c.depth = none)
    (hl : p.closer first st.clauseClosedBy = some last) (hf : f ∈ c.frames.items)
    (hd : f.depth = c.depth) : f.first < last ∧ last ≤ f.last := by
  obtain ⟨_, o, hfirst, hopens⟩ := Program.opener_eq_some ho
  have hlt := (Program.closer_eq_some hl).1
  have hin := h.around f hf c.line (hd ▸ .here c)
  have hfits := hs.frames.fits f hf
  have hne := hfits.last_ne hst (by simp [hr])
  obtain ⟨inside, hblock⟩ := hfits.spans
  obtain ⟨l, hl', hpass⟩ := hblock.inner c.line hin.1 (by omega)
  rcases hpass with hdeep | ⟨hi, _⟩
  · have hlow := hblock.lt_opener hin.1 hl' hdeep ho
    have hopen := (Program.opener_eq_some ho).1
    have := hfits.closer_lt hlow (by omega) hfirst (Statement.opens_of_openedBy hopens).1 hl
    omega
  · obtain ⟨o', ho', hr', _⟩ := hfits.opens
    have heq := hblock.opener_eq ho' hr' hin.1 hin.2 ⟨l, hl', hi⟩
      (fun st hst => (Statement.opens_of_openedBy hst).1) ho
    exact absurd ⟨heq.symm, hd⟩ (c.frames.place?_eq_none hn f hf)

/-- A clause whose block has no frame leads to the end of the block. -/
theorem Control.Nests.skip {first last : Nat} (h : c.Nests p) (hs : c.Sound p)
    (hst : p.statement? c.line = some st) (hr : st.role = .clause)
    (ho : p.opener c.line st.openedBy = some first) (hn : c.frames.place? first c.depth = none)
    (hl : p.closer first st.clauseClosedBy = some last) : Nests p { c with line := last } := by
  obtain ⟨hlt, o, hfirst, hopens⟩ := Program.opener_eq_some ho
  obtain ⟨hrole, hkind⟩ := Statement.opens_of_openedBy hopens
  obtain ⟨level, hopen⟩ := Program.opener_spans ho
  obtain ⟨level', hspan⟩ := Program.closer_spans hl
  have hline : c.line < last := by
    obtain ⟨_, _, st', hst', hw⟩ := Program.closer_eq_some hl
    have hclose := Statement.role_of_clauseClosedBy hw
    rcases Nat.lt_trichotomy c.line last with hcl | rfl | hcl
    · exact hcl
    · cases hst.symm.trans hst'
      cases hr.symm.trans hclose
    · -- The end of the block would stand further in than its first line.
      obtain ⟨l, hl', hi⟩ := hopen.deeper hspan.lt hcl hst' (by simp [hclose])
      obtain ⟨lz, hlz, hiz⟩ := hspan.high
      obtain ⟨la, hla, hia⟩ := hopen.low
      obtain ⟨lb, hlb, hib⟩ := hspan.low
      cases hl'.symm.trans hlz
      cases hla.symm.trans hlb
      omega
  refine h.goTo (fun f hf hd => h.wraps.around_skip hs hst hr ho hn hl hf hd)
    fun a z hsub ha hz => ?_
  obtain ⟨name, params, hsa, hc⟩ := hsub
  rcases Nat.lt_trichotomy a first with hac | rfl | hac
  · omega
  · cases hfirst.symm.trans hsa
    cases st <;> first | (cases hr; done) | cases hkind
  · have := hspan.clear a _ _ z hac ha hsa rfl hc
    omega

/-- A line that opens a block goes on at a clear line of it. -/
theorem Program.opened_target {a last : Nat} {flow : Flow}
    (hclose : p.closer a st.closedBy = some last)
    (hflow : flow = .next ∨ st.branches = true ∧
      flow = .jump ((p.closer a st.branchEndedBy).getD last))
    (ht : flow.target? a = some t) : a < t ∧ t ≤ last ∧ p.Clear a t := by
  obtain ⟨hlt, _, st', hst', hw⟩ := Program.closer_eq_some hclose
  obtain ⟨level, hspan⟩ := Program.closer_spans hclose
  rcases hflow with rfl | ⟨_, rfl⟩
  · cases ht
    exact ⟨Nat.lt_succ_self _, hlt, Program.clear_succ _⟩
  · cases ht
    cases hbranch : p.closer a st.branchEndedBy with
    | none => exact ⟨hlt, Nat.le_refl _, hspan.clear⟩
    | some target =>
      obtain ⟨_, hspan'⟩ := Program.closer_spans hbranch
      have hle := hspan.closer_le hst' (by simp [Statement.role_of_closedBy hw]) hbranch
      exact ⟨(Program.closer_eq_some hbranch).1, hle, hspan'.clear⟩

/-- A clause goes on at a clear line of its block: the next clause, the FINALLY line or the
end of the block. -/
theorem Control.InBlock.clause_target {first : Nat} (hb : c.InBlock p st first i f) (h : c.Wraps)
    (hs : c.Sound p) (hst : p.statement? c.line = some st) (hr : st.role = .clause)
    (htarget : t = f.last ∨
      st.branches = true ∧ t = (p.closer c.line st.branchEndedBy).getD f.last ∨
      ∃ block, f.state = .try block ∧ block.finallyLine = some t) :
    f.first < t ∧ t ≤ f.last ∧ p.Clear f.first t := by
  obtain ⟨level, hspan, hopen⟩ := hb.spans hs
  have hfits := hb.fits hs
  have hin := h.around _ (List.mem_of_getElem? hb.frame) c.line (hb.depth_eq ▸ .here c)
  have hend : f.first < f.last ∧ f.last ≤ f.last ∧ p.Clear f.first f.last :=
    ⟨hfits.first_lt, Nat.le_refl _, hspan.clear⟩
  rcases htarget with rfl | ⟨_, rfl⟩ | ⟨block, hstate, hfinally⟩
  · exact hend
  · cases hbranch : p.closer c.line st.branchEndedBy with
    | none => exact hend
    | some target =>
      obtain ⟨l, hline, hi⟩ := hopen.high
      obtain ⟨_, hspan'⟩ := Program.closer_spans hbranch
      obtain ⟨st', hst', hr'⟩ := hfits.last_closer
      have hne := hfits.last_ne hst (by simp [hr])
      have hlt := (Program.closer_eq_some hbranch).1
      have hle := (hspan.suffix hin.1 (by omega) hline hi).closer_le hst' (by simp [hr']) hbranch
      exact ⟨Nat.lt_trans hin.1 hlt, hle, hopen.clear.trans hst (by simp [hr]) hspan'.clear hlt⟩
  · obtain ⟨hlow, hhigh, _⟩ := hfits.finishes block _ hstate hfinally
    rw [(hfits.clauses block hstate).2] at hfinally
    obtain ⟨_, hspan'⟩ := Program.closer_spans hfinally
    exact ⟨hlow, Nat.le_of_lt hhigh, hspan'.clear⟩

/-- A closing line that finds no frame of its block is the last line of no other. -/
theorem Control.Sound.last_ne_of_unopened (hs : c.Sound p) (hst : p.statement? c.line = some st)
    (hr : st.closesOnce = true)
    (hnone : ∀ first, p.opener c.line st.openedBy = some first →
      c.frames.place? first c.depth = none)
    (hf : f ∈ c.frames.items) (hd : f.depth = c.depth) : f.last ≠ c.line := by
  intro hlast
  have hopen := (hs.frames.fits f hf).opener_last (hlast ▸ hst) hr
  rw [hlast] at hopen
  exact c.frames.place?_eq_none (hnone _ hopen) f hf ⟨rfl, hd⟩

/-- The last line of a block leaves it. -/
theorem Control.Nests.left {first : Nat} (h : c.Nests p) (hs : c.Sound p) (hc : c.Called)
    (hst : p.statement? c.line = some st) (hr : st.closesOnce = true ∨ st.closesLoop = true)
    (hb : c.InBlock p st first i f) :
    Nests p { c with line := c.line + 1, frames := c.frames.truncate i } := by
  have hrole : st.role = .closer :=
    hr.elim (fun h => (Statement.role_of_closesOnce h).1) fun h => (Statement.role_of_closesLoop h).1
  rw [hb.line_eq_last hs hst hrole]
  refine h.leave hs hc hb.frame hb.depth_eq fun hsub => Statement.blockKind?_ne_sub hr ?_
  rw [← hb.kind_eq hs, hsub]

/-- A move leads to a line that all blocks on the stack are around. -/
theorem Moves.nests {flow : Flow} (hm : Moves p c st flow c') (hp : p.Jumpless)
    (hst : p.statement? c.line = some st) (hs : c.Sound p) (hc : c.Called) (h : c.Nests p)
    (ht : flow.target? c.line = some t) : Control.Nests p { c' with line := t } := by
  cases hm with
  | onward hsteady hf =>
    have hrole : st.role = .plain := by
      rcases hsteady with hsteady | ⟨kind, name, rfl | rfl, _⟩
      · exact Statement.role_of_isSteady hsteady
      · rfl
      · rfl
    rw [Flow.target?_of_isOnward hf ht]
    exact h.onward hs hst (Or.inl hrole)
  | «return» _ | stop => cases ht
  | goto _ => exact absurd rfl (hp _ _ hst _).1
  | gosub _ _ => exact absurd rfl (hp _ _ hst _).2
  | passSub hclose =>
    cases ht
    exact h.pass hs hst rfl hclose
  | call hsub hclose hcall hf =>
    cases ht
    exact h.called hs hst hclose hcall hf
  | opened hrole hclose hfresh henter hflow hkind =>
    obtain ⟨hlow, hhigh, hclear⟩ := Program.opened_target hclose hflow ht
    exact h.enter hs hst hrole hkind hfresh.1 hclose henter hlow hhigh hclear
  | passed hhead hclose =>
    cases ht
    rw [Frames.leave_of_none _ h.place?_line]
    exact h.pass hs hst (Statement.role_of_headsLoop hhead) hclose
  | skipped hr ho hn hl =>
    cases ht
    exact h.skip hs hst hr ho hn hl
  | clause hr hb htarget =>
    cases ht
    obtain ⟨hlow, hhigh, hclear⟩ := hb.clause_target h.wraps hs hst hr htarget
    exact hb.goTo h hs hc hlow hhigh hclear
  | tookClause hr hb hk _ =>
    cases ht
    have hkind := Option.some.inj (hk.trans (hb.kind_eq hs).symm)
    exact (h.onward hs hst (Or.inr hr)).withState hb.frame hkind
  | finallyAlone hr =>
    cases ht
    exact h.onward hs hst (Or.inr (by rw [hr]; rfl))
  | @closed _ first hr ho =>
    cases ht
    cases hplace : c.frames.place? first c.depth with
    | none =>
      rw [Frames.leave_of_none _ hplace]
      refine h.next hst (by simp [(Statement.role_of_closesOnce hr).1]) fun f =>
        hs.last_ne_of_unopened hst hr fun other hother => ?_
      cases ho.symm.trans hother
      exact hplace
    | some i =>
      obtain ⟨f, hf, _⟩ := c.frames.place?_eq_some hplace
      rw [Frames.leave_of_some _ hplace]
      exact h.left hs hc hst (Or.inl hr) ⟨ho, hplace, hf⟩
  | closedNothing hr ho =>
    cases ht
    exact h.next hst (by simp [(Statement.role_of_closesOnce hr).1]) fun f =>
      hs.last_ne_of_unopened hst hr fun first hfirst => by cases ho.symm.trans hfirst
  | again hr hb hk =>
    cases ht
    rw [← hb.first_eq]
    have hcut := h.cutHere hs hc hb.frame hb.depth_eq (Nat.lt_succ_self _) (hb.fits hs).first_lt
      (Program.clear_succ _)
    refine hcut.withState ?_ hk.1
    exact (c.frames.get?_truncate (Nat.lt_succ_self _)).trans hb.frame
  | left hr hb =>
    cases ht
    exact h.left hs hc hst (Or.inr hr) hb
  | exit ht' hf hk =>
    cases ht
    exact h.leave hs hc hf (Control.target_depth ht' hf) (by rwa [Control.target_kind ht' hf])
  | toLast _ ht' hf =>
    cases ht
    have hfits := hs.frames.fits _ (List.mem_of_getElem? hf)
    obtain ⟨level, hspan⟩ := hfits.spans
    have hd := Control.target_depth ht' hf
    exact h.cutHere hs hc hf hd hfits.first_lt (Nat.le_refl _) hspan.clear

end Nests

/-! ## Errors -/

/-- Where a TRY block goes on is after a clause of its own. -/
theorem Frame.Fits.clause_of_advances {p : Program} {f : Frame} {b new : TryBlock} {e : Error}
    {line : Nat} (h : f.Fits p) (hs : f.state = .try b) (ha : b.Advances e line new) :
    f.first < line ∧ line < f.last ∧ p.Clear f.first (line + 1) := by
  have hclause : ∀ wanted, p.closer f.first wanted = some line →
      (∃ st, p.statement? line = some st ∧ st.role = .clause) → p.Clear f.first (line + 1) := by
    rintro wanted hc ⟨st, hst, hr⟩
    obtain ⟨level, hspan⟩ := Program.closer_spans hc
    exact hspan.clear.next hst (by simp [hr])
  obtain ⟨hcatch, hfinally⟩ := h.clauses b hs
  cases ha with
  | toCatch _ hline =>
    obtain ⟨hlow, hhigh, st, hst, hw⟩ := h.catches b line hs hline
    refine ⟨hlow, hhigh, hclause _ (hcatch ▸ hline) ⟨st, hst, ?_⟩⟩
    cases st <;> first | rfl | cases hw
  | toFinally _ hline =>
    obtain ⟨hlow, hhigh, st, hst, hw⟩ := h.finishes b line hs hline
    refine ⟨hlow, hhigh, hclause _ (hfinally ▸ hline) ⟨st, hst, ?_⟩⟩
    cases st <;> first | rfl | cases hw

/-! ## Sessions -/

namespace Session

variable {p : Program} {s t : Session}

/-- The control of a program after a TRY block took an error, seen from before the
statement that failed: nothing that the statement did to it is left. -/
theorem FailsWith.resumed_eq {st : Statement} {e : Error} {u : Session} {i : Nat} {f : Frame}
    (h : s.FailsWith st e u) (hr : s.Regular p) (hf : u.frames.get? i = some f) :
    s.frames.get? i = some f ∧ u.frames.items.take (i + 1) = s.frames.items.take (i + 1) ∧
      u.control.calls.items.take f.depth = s.control.calls.items.take f.depth := by
  obtain ⟨above, habove⟩ := h.isPrefix_frames hr
  have hlt : i < u.frames.items.length := (List.getElem?_eq_some_iff.1 hf).1
  have hget : s.frames.get? i = some f := by
    rw [Stack.get?, ← habove, List.getElem?_append_left hlt]
    exact hf
  refine ⟨hget, ?_, ?_⟩
  · rw [← habove, List.take_append_of_le_length hlt]
  · obtain ⟨rfl, hsound, _⟩ := hr
    obtain ⟨_, _, hfails⟩ := h.control
    rcases (hfails.calls_eq hsound).2 with hcalls | hcalls
    · rw [hcalls]
    · have hle := hsound.frames.within f (List.mem_of_getElem? hget)
      rw [(Stack.push_eq_ok _ hcalls).2]
      exact List.take_append_of_le_length hle

/-- What a TRY block that takes an error leaves is around the line it goes on at. -/
theorem FailsWith.nests {st : Statement} {e : Error} {u : Session} {i line : Nat} {f : Frame}
    {b new : TryBlock} (h : s.FailsWith st e u) (hr : s.Regular p) (hn : s.control.Nests p)
    (hf : u.frames.get? i = some f) (hb : f.state = .try b) (ha : b.Advances e line new) :
    Control.Nests p { u.control.resumed i f.depth new with line := line + 1 } := by
  obtain ⟨hget, hframes, hcalls⟩ := h.resumed_eq hr hf
  have hfits := hr.sound.frames.fits f (List.mem_of_getElem? hget)
  obtain ⟨hlow, hhigh, hclear⟩ := hfits.clause_of_advances hb ha
  have hcut := hn.cut hr.sound hr.called hget (Nat.lt_succ_of_lt hlow) hhigh hclear
  have hsame : Control.Nests p ⟨line + 1, u.frames.truncate (i + 1),
      u.control.calls.truncate f.depth⟩ := hcut.congr hframes rfl hcalls
  refine hsame.withState (f := f) ?_ (by simp [Frame.kind, hb, FrameState.kind])
  exact (u.frames.get?_truncate (Nat.lt_succ_self i)).trans hf

/-- A program runs before a step after which it runs. -/
theorem running_of_step (hrun : s.step.2.stopped = false) : s.stopped = false := by
  cases hs : s.stopped with
  | false => rfl
  | true =>
    simp only [Session.step, hs, if_true] at hrun
    cases hrun

/-- What holds of the control of a running program after a step: what holds where a
move leads to, after a return, and where a TRY block goes on that takes an error. -/
theorem control_step {P : Control → Prop} (hr : s.Regular p)
    (hmove : ∀ st flow c l, p.statement? s.line = some st → Moves p s.control st flow c →
      flow.target? s.line = some l → P { c with line := l })
    (hreturn : ∀ l, s.control.calls.top? = some (some l) →
      P ⟨l, s.control.frames.unwind (s.control.depth - 1), s.control.calls.pop⟩)
    (hresume : ∀ st e u i f b line new, s.FailsWith st e u → u.frames.get? i = some f →
      f.state = .try b → TryBlock.Advances b e line new →
      P { u.control.resumed i f.depth new with line := line + 1 })
    (hrun : s.step.2.stopped = false) : P s.step.2.control := by
  rcases s.step_cases (running_of_step hrun) with ⟨_, hstep⟩ | ⟨st, hst, ⟨flow, t, hm, hstep⟩ | ⟨e, u, hf⟩⟩
  · rw [hstep] at hrun
    cases hrun
  · rw [hstep] at hrun ⊢
    obtain ⟨rfl, _, _⟩ := hr
    have htarget : ∀ l, flow.target? (s.withState t).line = some l →
        P { t.control with line := l } := by
      intro l hl
      rw [show (s.withState t).line = s.line from hm.line_eq] at hl
      exact hmove st flow _ l hst hm hl
    cases flow with
    | next => exact htarget _ rfl
    | jump target => exact htarget _ rfl
    | rest delay => exact htarget _ rfl
    | stop => cases hrun
    | «return» =>
      have hsame := hm.eq_of_return
      simp only [follow] at hrun ⊢
      rcases (s.withState t).returnFromCall_cases with ⟨v, hret, _⟩ | ⟨l, v, hret, _, _, htop, hv⟩
      · rw [hret] at hrun
        cases hrun
      · rw [hret, hv, control_withState, hsame]
        rw [control_withState, hsame] at htop
        exact hreturn l htop
  · rcases hf.cases hr with ⟨_, hstop⟩ | ⟨i, f, b, line, new, _, hi, hadv, hstep⟩
    · rw [hstop] at hrun
      cases hrun
    · have hresumed := hresume st e u i f b line new hf hi.answers.frame hi.answers.block hadv
      obtain ⟨v, _, _, hv, hres | ⟨_, _, hres⟩⟩ := u.resume_cases i f line new e
      · rw [hstep, hres, control_goTo, hv]
        exact hresumed
      · rw [hstep, hres] at hrun
        cases hrun

/-- What holds of the control of a program in no block and no call, and after every
step of a running program, holds whenever the program runs. -/
theorem Happens.control {P : Control → Prop} (hn : Happens s t)
    (hempty : ∀ c : Control, c.line = 0 → c.frames.items = [] → c.calls.items = [] → P c)
    (hstep : s.step.2.stopped = false → P s.step.2.control)
    (h : s.stopped = false → P s.control) : t.stopped = false → P t.control := by
  intro hrun
  cases hn with
  | step => exact hstep hrun
  | halt => cases hrun
  | reset => exact hempty _ rfl rfl rfl
  | outside host wakeAt interrupted => exact h hrun

theorem reachable_control {P : Control → Prop} (hp : p.Made) (hs : Reachable p s)
    (hempty : ∀ c : Control, c.line = 0 → c.frames.items = [] → c.calls.items = [] → P c)
    (hstep : ∀ s : Session, s.Regular p → P s.control → s.step.2.stopped = false →
      P s.step.2.control) : s.stopped = false → P s.control := by
  obtain ⟨seed, host, hthrough⟩ := hs.through
  have hstart := reachable_regular hp (.start seed host)
  clear hs
  induction hthrough with
  | start _ => exact fun _ => hempty _ rfl rfl rfl
  | next h hn _ ih =>
    exact hn.control hempty
      (fun hrun => hstep _ (h.regular hp hstart) (ih (running_of_step hrun)) hrun) ih

/-- One step leads to a line that all blocks on the stack are around. -/
theorem step_nests (hj : p.Jumpless) (hr : s.Regular p) (h : s.control.Nests p)
    (hrun : s.step.2.stopped = false) : s.step.2.control.Nests p :=
  control_step hr (fun _ _ _ _ hst hm ht => hm.nests hj hst hr.sound hr.called h ht)
    (fun _ htop => h.returned hr.sound hr.called htop)
    (fun _ _ _ _ _ _ _ _ hf hget hb ha => hf.nests hr h hget hb ha) hrun

/-- At its start a program is in no block. -/
theorem nests_empty (c : Control) (hl : c.line = 0) (hf : c.frames.items = [])
    (hc : c.calls.items = []) : c.Nests p := by
  have hd : c.depth = 0 := by simp [Control.depth, Stack.size, hc]
  refine ⟨?_, ?_, fun k l hk => ?_, fun k hpos hk => ?_, ?_⟩
  · rw [hf]
    exact fun f hf => by cases hf
  · rw [hf]
    exact List.Pairwise.nil
  · omega
  · omega
  · rintro k l a z (⟨_, rfl⟩ | ⟨hk, _⟩) _ ha _ <;> omega

theorem Happens.nests (hj : p.Jumpless) (hn : Happens s t) (hr : s.Regular p)
    (h : s.stopped = false → s.control.Nests p) : t.stopped = false → t.control.Nests p :=
  hn.control nests_empty (fun hrun => step_nests hj hr (h (running_of_step hrun)) hrun) h

theorem reachable_nests (hj : p.Jumpless) (hp : p.Made) (hs : Reachable p s) :
    s.stopped = false → s.control.Nests p :=
  reachable_control hp hs nests_empty fun _ hr h hrun => step_nests hj hr h hrun

end Session

end LineBasic
