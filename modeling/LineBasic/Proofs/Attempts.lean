-- A TRY block that a program has entered, and what a statement does to it. The
-- frame of the block says which section it is in, and in which lines the program must
-- be then, itself or the call that it is in. A statement inside a section keeps both.
import LineBasic.Proofs.Sections

namespace LineBasic

/-! ## The frame of a block -/

namespace Attempt

/-- The frame of the block is on the stack, right above what was there before. -/
def Holds (X : Attempt) (phase : TryPhase) (pending : Option Error) (fs : Frames) : Prop :=
  X.below ++ [X.frame phase pending] <+: fs.items

/-- The program is in a section of the block, or in a call made from there. -/
structure Within (X : Attempt) (phase : TryPhase) (pending : Option Error) (c : Control) :
    Prop where
  holds : X.Holds phase pending c.frames
  seen : ∃ l, c.At X.depth l ∧ X.low phase < l ∧ l < X.high phase

/-- The program is in a section of the block or at the line after it. -/
structure Reaches (X : Attempt) (phase : TryPhase) (pending : Option Error) (c : Control) :
    Prop where
  holds : X.Holds phase pending c.frames
  seen : ∃ l, c.At X.depth l ∧ X.low phase < l ∧ l ≤ X.high phase

variable {X : Attempt} {phase : TryPhase} {pending : Option Error} {fs gs : Frames} {i : Nat}

namespace Holds

theorem get? (h : X.Holds phase pending fs) :
    fs.get? X.below.length = some (X.frame phase pending) := by
  obtain ⟨above, habove⟩ := h
  rw [Stack.get?, ← habove, List.getElem?_append_left (by simp), List.getElem?_concat_length]

theorem truncate {n : Nat} (h : X.Holds phase pending fs) (hn : X.below.length < n) :
    X.Holds phase pending (fs.truncate n) := by
  refine List.prefix_take_iff.2 ⟨h, ?_⟩
  rw [List.length_append, List.length_singleton]
  exact hn

theorem modify {state : FrameState} (h : X.Holds phase pending fs) (hi : X.below.length < i) :
    X.Holds phase pending (fs.modify i fun f => { f with state }) := by
  refine List.prefix_iff_getElem?.2 fun j hj => ?_
  rw [Stack.modify_items, List.getElem?_modify, List.prefix_iff_getElem?.1 h j hj]
  rw [List.length_append, List.length_singleton] at hj
  have hij : i ≠ j := by omega
  simp [hij]

/-- What is put on top leaves it where it is. -/
theorem enter {f : Frame} (h : X.Holds phase pending fs)
    (hn : fs.place? f.first f.depth = none) (he : fs.enter f = .ok gs) :
    X.Holds phase pending gs := by
  unfold Frames.enter at he
  rw [Frames.leave_of_none _ hn] at he
  rw [(Stack.push_eq_ok _ he).2]
  exact List.IsPrefix.trans h (List.prefix_append _ _)

end Holds

end Attempt

/-! ## One step inside a section -/

section Step

open Attempt

variable {p : Program} {X : Attempt} {phase : TryPhase} {pending : Option Error} {c c' : Control}
  {st : Statement} {i : Nat} {g : Frame}

theorem Control.At.eq_line {l : Nat} (h : c.At c.depth l) : l = c.line := by
  rcases h with ⟨_, hl⟩ | ⟨hlt, _⟩
  · exact hl
  · exact absurd hlt (Nat.lt_irrefl _)

theorem Control.At.depth_le {k l : Nat} (h : c.At k l) : k ≤ c.depth := by
  rcases h with ⟨hk, _⟩ | ⟨hk, _⟩ <;> omega

namespace Attempt

theorem Within.line (h : X.Within phase pending c) (hd : c.depth = X.depth) :
    X.low phase < c.line ∧ c.line < X.high phase := by
  obtain ⟨l, hl, hin⟩ := h.seen
  rw [← hd] at hl
  rwa [hl.eq_line] at hin

theorem Within.depth_le (h : X.Within phase pending c) : X.depth ≤ c.depth := by
  obtain ⟨l, hl, _⟩ := h.seen
  exact hl.depth_le

/-- A block of the innermost call that begins after this one stands above it. -/
theorem Holds.lt_place (h : X.Holds phase pending c.frames) (hn : c.Nests p) (hs : c.Sound p)
    (hle : X.depth ≤ c.depth) (hg : c.frames.get? i = some g) (hd : g.depth = c.depth)
    (hin : c.depth = X.depth → X.first < g.first) : X.below.length < i := by
  rcases Nat.lt_trichotomy X.below.length i with hlt | rfl | hgt
  · exact hlt
  · cases h.get?.symm.trans hg
    exact absurd (hin hd.symm) (Nat.lt_irrefl _)
  · have hmem : g ∈ c.frames.items.take (X.below.length + 1) := by
      refine List.mem_of_getElem? (i := i) ?_
      rw [List.getElem?_take_of_lt (by omega)]
      exact hg
    have hgd : g.depth ≤ X.depth := hs.frames.depth_le_of_mem_take h.get? hmem
    have hup : g.first < X.first :=
      (hn.ascending_of_lt hg h.get? hgt (show g.depth = X.depth by omega)).1
    have := hin (by omega)
    omega

/-- The block of a line inside a section stands above this one. -/
theorem Within.lt_place {first : Nat} (h : X.Within phase pending c) (hX : X.Stands p)
    (hp : X.has phase = true) (hn : c.Nests p) (hs : c.Sound p) (hb : c.InBlock p st first i g) :
    X.below.length < i := by
  refine h.holds.lt_place hn hs h.depth_le hb.frame hb.depth_eq fun hd => ?_
  obtain ⟨hlow, hhigh⟩ := h.line hd
  have := hX.lt_opener hp hlow hhigh hb.opener
  have := hX.first_le hp
  rw [hb.first_eq]
  omega

/-- With the calls as they are, only a program in the call of the block changes its line there. -/
theorem Within.goes {t : Nat} (h : X.Within phase pending c) (hfs : X.Holds phase pending fs)
    (ht : c.depth = X.depth → X.low phase < t ∧ t ≤ X.high phase) :
    X.Reaches phase pending { c with line := t, frames := fs } := by
  obtain ⟨l, hl, hlow, hhigh⟩ := h.seen
  rcases hl with ⟨hd, _⟩ | ⟨hd, hl⟩
  · exact ⟨hfs, t, Or.inl ⟨hd, rfl⟩, ht hd.symm⟩
  · exact ⟨hfs, l, Or.inr ⟨hd, hl⟩, hlow, Nat.le_of_lt hhigh⟩

theorem Within.goesOn (h : X.Within phase pending c) (hfs : X.Holds phase pending fs) :
    X.Reaches phase pending { c with line := c.line + 1, frames := fs } :=
  h.goes hfs fun hd => by
    have := h.line hd
    omega

section Lines

variable {first last : Nat} {wanted : Statement → Bool} (h : X.Within phase pending c)
  (hX : X.Stands p) (hp : X.has phase = true) (hd : c.depth = X.depth)

include h hX hp hd

/-- A search from a line of the section does not leave it. -/
theorem Within.closer_inside (hclose : p.closer c.line wanted = some last) :
    X.low phase < last ∧ last < X.high phase := by
  obtain ⟨hlow, hhigh⟩ := h.line hd
  have := (Program.closer_eq_some hclose).1
  exact ⟨by omega, hX.closer_lt hp hlow hhigh hclose⟩

theorem Within.branchEnd_inside (hlast : X.low phase < last ∧ last < X.high phase) :
    X.low phase < (p.closer c.line wanted).getD last ∧
      (p.closer c.line wanted).getD last < X.high phase := by
  cases hbranch : p.closer c.line wanted with
  | none => exact hlast
  | some target => exact h.closer_inside hX hp hd hbranch

/-- A block that a line of the section belongs to is inside the section. -/
theorem Within.block_inside (hs : c.Sound p) (hb : c.InBlock p st first i g) :
    X.low phase < g.first ∧ g.last < X.high phase := by
  obtain ⟨hlow, hhigh⟩ := h.line hd
  have hfirst := hX.lt_opener hp hlow hhigh hb.opener
  have hlt := (Program.opener_eq_some hb.opener).1
  rw [← hb.first_eq] at hfirst hlt
  obtain ⟨_, _, _, _, hclose⟩ := (hb.fits hs).opens
  exact ⟨hfirst, hX.closer_lt hp hfirst (by omega) hclose⟩

/-- So is a block above this one that an EXIT or a CONTINUE leads to. -/
theorem Within.target_inside {kind : BlockKind} {name : Option Name} (hs : c.Sound p)
    (hn : c.Nests p) (ht : c.frames.lastPlace? (Run.isTarget kind name c.depth) = some i)
    (hg : c.frames.get? i = some g) (hi : X.below.length < i) :
    X.low phase < g.first ∧ g.last < X.high phase := by
  obtain ⟨hlow, hhigh⟩ := h.line hd
  have hmem := List.mem_of_getElem? hg
  have hgd := Control.target_depth ht hg
  have hin := hn.around g hmem c.line (hgd ▸ .here c)
  have hup : X.first < g.first :=
    (hn.ascending_of_lt h.holds.get? hg hi (show X.depth = g.depth by omega)).1
  exact hX.block_inside hp (hs.frames.fits g hmem) hup hin.1 hin.2 hlow (Nat.le_of_lt hhigh)

end Lines

/-! ### The moves -/

section Moves

variable {first last t : Nat} (h : X.Within phase pending c) (hX : X.Stands p)
  (hp : X.has phase = true) (hs : c.Sound p) (hn : c.Nests p)

include h hX hp

/-- A line that is passed together with its block. -/
theorem Within.passed {wanted : Statement → Bool} (hclose : p.closer c.line wanted = some last) :
    X.Reaches phase pending { c with line := last + 1 } :=
  h.goes h.holds fun hd => by
    have := h.closer_inside hX hp hd hclose
    omega

include hn in
/-- A block is entered, and its first branch may be skipped. -/
theorem Within.opened {state : FrameState} {flow : Flow}
    (hclose : p.closer c.line st.closedBy = some last)
    (henter : c.frames.enter ⟨c.line, last, c.depth, state⟩ = .ok fs)
    (hflow : flow = .next ∨ st.branches = true ∧
      flow = .jump ((p.closer c.line st.branchEndedBy).getD last))
    (ht : flow.target? c.line = some t) :
    X.Reaches phase pending { c with line := t, frames := fs } := by
  have hfs := h.holds.enter hn.place?_line henter
  rcases hflow with rfl | ⟨_, rfl⟩
  · cases ht
    exact h.goesOn hfs
  · cases ht
    refine h.goes hfs fun hd => ?_
    obtain ⟨hlow, hhigh⟩ := h.branchEnd_inside hX hp hd (h.closer_inside hX hp hd hclose)
    exact ⟨hlow, Nat.le_of_lt hhigh⟩

omit hX hp in
include hs in
/-- A call is seen from the line that makes it. -/
theorem Within.called {calls : Stack (Option Nat)} (hcall : c.calls.push (some (c.line + 1)) = .ok calls)
    (henter : c.frames.enter ⟨first, last, calls.size, .sub⟩ = .ok fs) :
    X.Reaches phase pending ⟨first + 1, fs, calls⟩ := by
  have hdeep : c.depth < calls.size := by
    rw [(Stack.push_eq_ok _ hcall).2]
    simp [Control.depth, Stack.size]
  obtain ⟨l, hl, hlow, hhigh⟩ := h.seen
  refine ⟨h.holds.enter (hs.place?_deeper first hdeep) henter, l, hl.pushed hcall _, hlow, ?_⟩
  exact Nat.le_of_lt hhigh

/-- A clause that a jump led to ends the block that it is in. -/
theorem Within.skipped (ho : p.opener c.line st.openedBy = some first)
    (hclose : p.closer first st.clauseClosedBy = some last) :
    X.Reaches phase pending { c with line := last } :=
  h.goes h.holds fun hd => by
    obtain ⟨hlow, hhigh⟩ := h.line hd
    have hfirst := hX.lt_opener hp hlow hhigh ho
    have := (Program.opener_eq_some ho).1
    have := hX.closer_lt hp hfirst (by omega) hclose
    have := (Program.closer_eq_some hclose).1
    omega

include hs in
/-- A clause goes on at the next clause, at the FINALLY line or at the end of its block. -/
theorem Within.clause {target : Nat} (hb : c.InBlock p st first i g)
    (htarget : target = g.last ∨
      st.branches = true ∧ target = (p.closer c.line st.branchEndedBy).getD g.last ∨
      ∃ block, g.state = .try block ∧ block.finallyLine = some target) :
    X.Reaches phase pending { c with line := target } := by
  refine h.goes h.holds fun hd => ?_
  have hin := h.block_inside hX hp hd hs hb
  have hlt := (hb.fits hs).first_lt
  rcases htarget with rfl | ⟨_, rfl⟩ | ⟨block, hstate, hfinally⟩
  · omega
  · have hlast : X.low phase < g.last ∧ g.last < X.high phase := by omega
    have htarget : X.low phase < (p.closer c.line st.branchEndedBy).getD g.last ∧
        (p.closer c.line st.branchEndedBy).getD g.last < X.high phase :=
      h.branchEnd_inside hX hp hd hlast
    omega
  · obtain ⟨hlow, hhigh, _⟩ := (hb.fits hs).finishes block _ hstate hfinally
    omega

include hs hn in
/-- The last line of a block leaves it, if it has a frame. -/
theorem Within.closed (ho : p.opener c.line st.openedBy = some first) :
    X.Reaches phase pending
      { c with line := c.line + 1, frames := c.frames.leave first c.depth } := by
  cases hplace : c.frames.place? first c.depth with
  | none =>
    rw [Frames.leave_of_none _ hplace]
    exact h.goesOn h.holds
  | some i =>
    obtain ⟨f, hf, _⟩ := c.frames.place?_eq_some hplace
    have hb : c.InBlock p st first i f := ⟨ho, hplace, hf⟩
    rw [Frames.leave_of_some _ hplace]
    exact h.goesOn (h.holds.truncate (h.lt_place hX hp hn hs hb))

include hs hn in
/-- The last line of a loop goes back to the first. -/
theorem Within.again {state : FrameState} (hb : c.InBlock p st first i g) :
    X.Reaches phase pending { c with
      line := first + 1
      frames := (c.frames.truncate (i + 1)).modify i fun f => { f with state } } := by
  have hi := h.lt_place hX hp hn hs hb
  refine h.goes ((h.holds.truncate (by omega)).modify hi) fun hd => ?_
  obtain ⟨hlow, hhigh⟩ := h.line hd
  have hfirst := (h.block_inside hX hp hd hs hb).1
  rw [hb.first_eq] at hfirst
  have := (Program.opener_eq_some hb.opener).1
  omega

include hs hn in
/-- EXIT and CONTINUE go to the last line of a block above this one or to the line after it. -/
theorem Within.exited {kind : BlockKind} {name : Option Name} {n : Nat}
    (htarget : c.frames.lastPlace? (Run.isTarget kind name c.depth) = some i)
    (hg : c.frames.get? i = some g) (hi : X.below.length < i) (hin : i ≤ n)
    (ht : t = g.last ∨ t = g.last + 1) :
    X.Reaches phase pending { c with line := t, frames := c.frames.truncate n } := by
  refine h.goes (h.holds.truncate (by omega)) fun hd => ?_
  have hlt := (hs.frames.fits _ (List.mem_of_getElem? hg)).first_lt
  have := h.target_inside hX hp hd hs hn htarget hg hi
  omega

end Moves

end Attempt

/-- A move inside a section stays in it or gets to the line after it. -/
theorem Moves.reaches {flow : Flow} {t : Nat} (hm : Moves p c st flow c') (hj : p.Jumpless)
    (hst : p.statement? c.line = some st) (hs : c.Sound p) (hn : c.Nests p) (hX : X.Stands p)
    (hp : X.has phase = true) (hw : X.Within phase pending c)
    (hexit : ∀ kind name i, st = .exit kind name ∨ st = .continue kind name →
      c.frames.lastPlace? (Run.isTarget kind name c.depth) = some i → X.below.length < i)
    (ht : flow.target? c.line = some t) : X.Reaches phase pending { c' with line := t } := by
  cases hm with
  | onward _ hf =>
    rw [Flow.target?_of_isOnward hf ht]
    exact hw.goesOn hw.holds
  | «return» _ | stop => cases ht
  | goto _ => exact absurd rfl (hj _ _ hst _).1
  | gosub _ _ => exact absurd rfl (hj _ _ hst _).2
  | passSub hclose =>
    cases ht
    exact hw.passed hX hp hclose
  | call hsub hclose hcall hf =>
    cases ht
    exact hw.called hs hcall hf
  | opened hrole hclose hfresh henter hflow hkind =>
    exact hw.opened hX hp hn hclose henter hflow ht
  | passed hhead hclose =>
    cases ht
    rw [Frames.leave_of_none _ hn.place?_line]
    exact hw.passed hX hp hclose
  | skipped hr ho hnone hl =>
    cases ht
    exact hw.skipped hX hp ho hl
  | clause hr hb htarget =>
    cases ht
    exact hw.clause hX hp hs hb htarget
  | tookClause hr hb hk _ =>
    cases ht
    exact hw.goesOn (hw.holds.modify (hw.lt_place hX hp hn hs hb))
  | finallyAlone _ | closedNothing _ _ =>
    cases ht
    exact hw.goesOn hw.holds
  | closed hr ho =>
    cases ht
    exact hw.closed hX hp hs hn ho
  | again hr hb hk =>
    cases ht
    exact hw.again hX hp hs hn hb
  | left hr hb =>
    cases ht
    exact hw.goesOn (hw.holds.truncate (hw.lt_place hX hp hn hs hb))
  | exit htarget hf hk =>
    cases ht
    have hi := hexit _ _ _ (Or.inl rfl) htarget
    exact hw.exited hX hp hs hn htarget hf hi (Nat.le_refl _) (Or.inr rfl)
  | toLast hcont htarget hf =>
    cases ht
    have hi := hexit _ _ _ (by rcases hcont with h | ⟨h, _⟩ <;> simp [h]) htarget
    exact hw.exited hX hp hs hn htarget hf hi (Nat.le_succ _) (Or.inl rfl)

/-- A failure inside a section leaves the block where it is. -/
theorem Fails.within {e : Error} (hf : Fails p c st e c') (hs : c.Sound p) (hn : c.Nests p)
    (hX : X.Stands p) (hp : X.has phase = true) (hw : X.Within phase pending c) :
    X.Within phase pending c' := by
  have hcut : ∀ {fs}, X.Holds phase pending fs →
      X.Within phase pending { c with frames := fs } := fun hfs => ⟨hfs, hw.seen⟩
  cases hf with
  | mild _ | emptyPath _ _ | unclosed _ _ _ | unopened _ _ _ | clauseUnclosed _ _ _ _ _
  | unentered _ _ _ _ | otherLoop _ _ _ _ | noLabel _ _ _ | noSub _ _ | subUnclosed _ _ _ =>
    exact hw
  | mildInLoop _ _ hb =>
    exact hcut (hw.holds.truncate (Nat.lt_succ_of_lt (hw.lt_place hX hp hn hs hb)))
  | mildInCall _ hc =>
    obtain ⟨l, hl, hin⟩ := hw.seen
    exact ⟨hw.holds, l, hl.pushed hc _, hin⟩
  | raised _ hb _ _ =>
    rw [Frames.leave_of_some _ hb.place]
    exact hcut (hw.holds.truncate (hw.lt_place hX hp hn hs hb))
  | mismatch hb hk => exact absurd (hb.kind_eq hs) hk

/-- A return from a call that was made inside a section goes on inside it or at the
line after it. -/
theorem Attempt.Within.returned {l : Nat} (h : X.Within phase pending c) (hs : c.Sound p)
    (hd : X.depth < c.depth) (htop : c.calls.top? = some (some l)) :
    X.Reaches phase pending ⟨l, c.frames.unwind (c.depth - 1), c.calls.pop⟩ := by
  obtain ⟨above, habove⟩ := h.holds
  have hle : ∀ f ∈ X.below ++ [X.frame phase pending], f.depth ≤ c.depth - 1 := by
    intro f hf
    have hmem : f ∈ c.frames.items.take (X.below.length + 1) := by
      rw [← habove, List.take_left' (by simp)]
      exact hf
    have : f.depth ≤ X.depth := hs.frames.depth_le_of_mem_take h.holds.get? hmem
    omega
  have hholds : X.Holds phase pending (c.frames.unwind (c.depth - 1)) := by
    unfold Attempt.Holds
    rw [hs.frames.unwind_items, ← habove, List.filter_append, List.filter_eq_self.2]
    · exact List.prefix_append _ _
    · intro f hf
      simpa using hle f hf
  obtain ⟨l', hl', hlow, hhigh⟩ := h.seen
  have hget : c.calls.items[X.depth]? = some (some (l' + 1)) := by
    rcases hl' with ⟨hk, _⟩ | ⟨_, hget⟩
    · omega
    · exact hget
  have hpop : c.calls.pop.size = c.depth - 1 := by simp [Stack.size, Stack.pop, Control.depth]
  rcases Nat.eq_or_lt_of_le (Nat.le_sub_one_of_lt hd) with heq | hlt
  · have hlast : c.calls.items[X.depth]? = some (some l) := by
      rw [← htop, heq]
      exact List.getLast?_eq_getElem?.symm
    cases hlast.symm.trans hget
    exact ⟨hholds, l' + 1, Or.inl ⟨heq.trans hpop.symm, rfl⟩, Nat.lt_succ_of_lt hlow, hhigh⟩
  · refine ⟨hholds, l', Or.inr ⟨hpop ▸ hlt, ?_⟩, hlow, Nat.le_of_lt hhigh⟩
    rw [← hget]
    change c.calls.items.dropLast[X.depth]? = _
    rw [List.getElem?_dropLast]
    exact if_pos hlt

/-- At the line after a section, no inner block is left. -/
theorem Attempt.Reaches.cases (h : X.Reaches phase pending c) (hX : X.Stands p)
    (hp : X.has phase = true) (hs : c.Sound p) (hn : c.Nests p) :
    X.Within phase pending c ∨ c.line = X.high phase ∧ c.depth = X.depth ∧
      c.frames.items = X.below ++ [X.frame phase pending] := by
  obtain ⟨l, hl, hlow, hhigh⟩ := h.seen
  rcases Nat.eq_or_lt_of_le hhigh with rfl | hlt
  · rcases hl with ⟨hd, hline⟩ | ⟨hd, hcall⟩
    · refine Or.inr ⟨hline.symm, hd.symm, ?_⟩
      obtain ⟨above, habove⟩ := h.holds
      cases above with
      | nil => rw [← habove, List.append_nil]
      | cons g above =>
        have hg : c.frames.get? (X.below.length + 1) = some g := by
          rw [Stack.get?, ← habove, List.getElem?_append_right (by simp)]
          simp
        have hmem := List.mem_of_getElem? hg
        have hgd : X.depth ≤ g.depth := by
          refine hs.frames.depth_le_of_mem_take (f := g) hg ?_ (g := X.frame phase pending)
          refine List.mem_of_getElem? (i := X.below.length) ?_
          rw [List.getElem?_take_of_lt (by omega)]
          exact h.holds.get?
        have heq : g.depth = c.depth := by
          have := hs.frames.within g hmem
          omega
        have hsame : X.depth = g.depth := by omega
        have hup : X.first < g.first :=
          (hn.ascending_of_lt h.holds.get? hg (Nat.lt_succ_self _) hsame).1
        have hin := hn.around g hmem c.line (heq ▸ .here c)
        rw [← hline] at hin
        have := hX.block_inside hp (hs.frames.fits g hmem) hup hin.1 hin.2 hlow (Nat.le_refl _)
        omega
    · obtain ⟨name, args, hst⟩ := hn.callers _ _ hd (Or.inr ⟨hd, hcall⟩)
      exact absurd hst (hX.high_ne_call phase name args)
  · exact Or.inl ⟨h.holds, l, hl, hlow, hlt⟩

/-- Inside a section of the block there is always a line to go on at. -/
theorem Attempt.Within.exists_statement (h : X.Within phase pending c) (hX : X.Stands p)
    (hp : X.has phase = true) (hs : c.Sound p) (hn : c.Nests p) :
    ∃ st, p.statement? c.line = some st := by
  rcases Nat.eq_or_lt_of_le h.depth_le with heq | hlt
  · obtain ⟨hlow, hhigh⟩ := h.line heq.symm
    obtain ⟨level, _, _, hdeep, _⟩ := hX.stretch hp
    obtain ⟨l, hl, _⟩ := hdeep c.line hlow hhigh
    exact ⟨l.statement, by rw [Program.statement?, hl]; rfl⟩
  · -- In a call the program is in the SUB that was called.
    obtain ⟨f, hf, hd, _⟩ := hn.routines c.depth (by omega) (Nat.le_refl _)
    have hin := hn.around f hf c.line (hd ▸ .here c)
    have hsize := (hs.frames.fits f hf).last_lt
    have hlt : c.line < p.lines.length := Nat.lt_of_le_of_lt hin.2 hsize
    exact ⟨_, by rw [Program.statement?, Program.line?, List.getElem?_eq_getElem hlt]; rfl⟩

/-- The SUB that the block stands in does not end inside the block. -/
theorem Attempt.Within.ne_endSub (h : X.Within phase pending c) (hX : X.Stands p)
    (hp : X.has phase = true) (hn : c.Nests p) (hd : c.depth = X.depth)
    (hpair : ∀ l, p.statement? l = some .endSub → ∃ a, p.IsSub a l) :
    p.statement? c.line ≠ some .endSub := by
  intro hst
  obtain ⟨hlow, hhigh⟩ := h.line hd
  obtain ⟨a, hsub⟩ := hpair c.line hst
  obtain ⟨name, params, hsa, hclose⟩ := hsub
  obtain ⟨inside, hspan'⟩ := Program.closer_spans hclose
  obtain ⟨level, _, hspan, hdeep, _⟩ := hX.stretch hp
  have ha : X.low phase < a := by
    obtain ⟨l, hl, hi⟩ := hdeep c.line hlow hhigh
    obtain ⟨l', hl', hi'⟩ := hspan'.high
    cases hl.symm.trans hl'
    exact hspan.lt_first hspan' hlow (by omega)
  obtain ⟨f, hf, hfd, hk, hle⟩ := hn.entered _ _ a c.line (.here c) ⟨name, params, hsa, hclose⟩
    hspan'.lt (Nat.le_refl _)
  have hfirst := hX.first_le hp
  obtain ⟨j, hj⟩ := List.mem_iff_getElem?.1 hf
  rcases Nat.lt_trichotomy j X.below.length with hlt | rfl | hgt
  · have hup : f.first < X.first :=
      (hn.ascending_of_lt hj h.holds.get? hlt (show f.depth = X.depth by omega)).1
    omega
  · cases h.holds.get?.symm.trans hj
    cases hk
  · exact (hn.ascending_of_lt h.holds.get? hj hgt (show X.depth = f.depth by omega)).2 hk

end Step

end LineBasic
