-- Where an error comes from. Every error that ends a program names the line of
-- the statement that raised it first, however often the end of a TRY block has
-- raised it again since. The one exception is an error that arises while another
-- is handled: a CATCH variable that cannot hold text.
import LineBasic.Proofs.Isolation

namespace LineBasic

/-! ## The line of a fresh error -/

/-- A failure other than the end of a TRY block raises an error that names no line yet. -/
theorem Fails.line_none {p : Program} {c c' : Control} {st : Statement} {e : Error}
    (hf : Fails p c st e c') (hs : c.Sound p) (hst : st ≠ .endTry) : e.line = none := by
  cases hf with
  | mild he => exact he.line
  | emptyPath he _ => exact he
  | mildInLoop he _ _ => exact he.line
  | mildInCall he _ => exact he.line
  | raised h _ _ _ => exact absurd h hst
  | unclosed he _ _ => exact he.line
  | unopened he _ _ => exact he.line
  | clauseUnclosed he _ _ _ _ => exact he.line
  | unentered he _ _ _ => exact he.line
  | otherLoop he _ _ _ => exact he.line
  | noLabel he _ _ => exact he.line
  | noSub he _ => exact he.line
  | subUnclosed he _ _ => exact he.line
  | mismatch hb hk => exact absurd (hb.kind_eq hs) hk

theorem Error.line_inLine {e : Error} (h : e.line = none) (line : Nat) :
    (e.inLine line).line = some line := by
  unfold inLine
  rw [h]

theorem Error.inLine_of_line {e : Error} {l : Nat} (h : e.line = some l) (line : Nat) :
    e.inLine line = e := by
  unfold inLine
  rw [h]

/-! ## Errors that wait -/

/-- The frame at place `i` is a TRY block in which `e` waits for its end. -/
def Frames.Holds (fs : Frames) (i : Nat) (e : Error) : Prop :=
  ∃ f t, fs.get? i = some f ∧ f.state = .try t ∧ t.pending = some e

namespace Frames.Holds

variable {fs : Frames} {i : Nat} {e : Error}

theorem lt (h : Frames.Holds fs i e) : i < fs.items.length := by
  obtain ⟨f, t, hf, _⟩ := h
  exact (List.getElem?_eq_some_iff.1 hf).1

theorem of_isPrefix {gs : Frames} (h : Frames.Holds fs i e) (hp : fs.items <+: gs.items) :
    Frames.Holds gs i e := by
  have hlt := h.lt
  obtain ⟨f, t, hf, hrest⟩ := h
  obtain ⟨above, habove⟩ := hp
  refine ⟨f, t, ?_, hrest⟩
  rw [Stack.get?, ← habove, List.getElem?_append_left hlt]
  exact hf

/-- A block that was just entered holds no error. -/
theorem of_enter {gs : Frames} {f : Frame} (h : Frames.Holds gs i e) (he : fs.enter f = .ok gs)
    (hn : ∀ t, f.state = .try t → t.pending = none) : Frames.Holds fs i e := by
  unfold Frames.enter at he
  obtain ⟨_, rfl⟩ := Stack.push_eq_ok _ he
  obtain ⟨n, _, hleave⟩ := fs.leave_eq_truncate f.first f.depth
  obtain ⟨g, t, hg, ht, hp⟩ := h
  rw [Stack.get?, List.getElem?_append] at hg
  split at hg
  · refine of_isPrefix ⟨g, t, hg, ht, hp⟩ ?_
    rw [hleave]
    exact List.take_prefix _ _
  · obtain ⟨_, rfl⟩ : _ ∧ f = g := by simpa [List.getElem?_singleton] using hg
    rw [hn t ht] at hp
    cases hp

/-- A block that keeps its error held it before. -/
theorem of_modify {j : Nat} {f : Frame} {state : FrameState}
    (h : Frames.Holds (fs.modify j fun g => { g with state }) i e) (hf : fs.get? j = some f)
    (hk : ∀ t, state = .try t → f.state.Keeps state) : Frames.Holds fs i e := by
  obtain ⟨g, t, hg, ht, hp⟩ := h
  rw [Stack.get?, Stack.modify_items, List.getElem?_modify] at hg
  by_cases hij : j = i
  · subst hij
    rw [show fs.items[j]? = some f from hf] at hg
    simp only [if_true, Option.map_eq_map, Option.map_some, Option.some.injEq] at hg
    subst hg
    obtain ⟨u, hu, _, _, hpend⟩ := (hk t ht).2 t ht
    exact ⟨f, u, hf, hu, hpend ▸ hp⟩
  · have hg : fs.items[i]? = some g := by simpa [hij] using hg
    exact ⟨g, t, hg, ht, hp⟩

end Frames.Holds

/-- A move puts no error into a block. -/
theorem Moves.holds {p : Program} {c c' : Control} {st : Statement} {flow : Flow} {i : Nat}
    {e : Error} (hm : Moves p c st flow c') (h : Frames.Holds c'.frames i e) :
    Frames.Holds c.frames i e := by
  have hleave : ∀ first, Frames.Holds (c.frames.leave first c.depth) i e →
      Frames.Holds c.frames i e := by
    intro first h
    obtain ⟨n, _, hn⟩ := c.frames.leave_eq_truncate first c.depth
    rw [hn] at h
    exact h.of_isPrefix (List.take_prefix _ _)
  cases hm with
  | onward _ _ | «return» _ | stop | goto _ | gosub _ _ | passSub _ | skipped _ _ _ _
  | clause _ _ _ | finallyAlone _ | closedNothing _ _ => exact h
  | call _ _ _ hf => exact h.of_enter hf fun t ht => by cases ht
  | opened _ _ hs hf _ => exact h.of_enter hf fun t ht => (hs.2 t ht).2.2.1
  | passed _ _ => exact hleave _ h
  | closed _ _ => exact hleave _ h
  | tookClause _ hb _ ht => exact h.of_modify hb.frame ht
  | again _ hb hk =>
    have hget := (c.frames.get?_truncate (Nat.lt_succ_self _)).trans hb.frame
    exact (h.of_modify hget fun _ _ => hk).of_isPrefix (List.take_prefix _ _)
  | left _ _ => exact h.of_isPrefix (List.take_prefix _ _)
  | exit _ _ _ => exact h.of_isPrefix (List.take_prefix _ _)
  | toLast _ _ _ => exact h.of_isPrefix (List.take_prefix _ _)

/-! ## The end of a TRY block -/

/-- The end of a TRY block fails only by raising the error that waited for it, and
it has left the block then. -/
theorem Run.after_endTry (p : Program) (s : State) :
    After endTryStatement p s (fun _ _ => True) fun e t =>
      ∃ first i f b, s.control.InBlock p .endTry first i f ∧ f.state = .try b ∧
        b.pending = some e ∧ t = { s with frames := s.frames.truncate i } := by
  unfold endTryStatement
  rw [after_bind]
  refine after_tryFrame .endTry rfl (fun _ => trivial) fun first i f hb => ?_
  rw [after_bind, after_leave, State.depth_control]
  split
  · rename_i b e hstate
    refine ⟨first, i, f, _, hb, hstate, rfl, ?_⟩
    rw [State.frames_control, Frames.leave_of_some _ hb.place]
  · trivial

namespace Session

variable {p : Program} {s u : Session} {st : Statement} {e : Error}

/-- An END TRY that fails raises what waited in its block, and has left the block. -/
theorem FailsWith.endTry (h : s.FailsWith .endTry e u) :
    ∃ first i f b e₀, s.control.InBlock s.program .endTry first i f ∧ f.state = .try b ∧
      b.pending = some e₀ ∧ e = e₀.inLine s.line ∧
      u = s.withState { s.toState with frames := s.frames.truncate i } := by
  obtain ⟨e₀, t, hx, rfl, rfl⟩ := h.fails
  have hlaw := Run.after_endTry s.program s.toState
  unfold Run.After at hlaw
  change Run.endTryStatement s.program s.toState = _ at hx
  rw [hx] at hlaw
  obtain ⟨first, i, f, b, hb, hstate, hp, rfl⟩ := hlaw
  exact ⟨first, i, f, b, e₀, hb, hstate, hp, rfl, rfl⟩

/-- Any other statement that fails makes its error, with its own line. -/
theorem FailsWith.line_eq (h : s.FailsWith st e u) (hr : s.Regular p) (hst : st ≠ .endTry) :
    e.line = some s.line := by
  obtain ⟨rfl, hsound, _⟩ := hr
  obtain ⟨e₀, rfl, hf⟩ := h.control
  exact Error.line_inLine (hf.line_none hsound hst) _

/-! ## What becomes of an error -/

/-- If any block answers, one of them is the topmost. -/
theorem exists_innermost {c : Control} (h : ∃ i f t, c.Answers i f t) :
    ∃ i f t, c.Innermost i f t := by
  have hbound : ∀ {i f t}, c.Answers i f t → i < c.frames.items.length :=
    fun ha => (List.getElem?_eq_some_iff.1 ha.frame).1
  -- The place can only go up, and the stack is finite.
  have hup : ∀ n i f t, c.Answers i f t → c.frames.items.length ≤ i + n →
      ∃ i f t, c.Innermost i f t := by
    intro n
    induction n with
    | zero =>
      intro i f t ha hn
      have := hbound ha
      omega
    | succ n ih =>
      intro i f t ha hn
      by_cases htop : ∃ j g u, i < j ∧ c.Answers j g u
      · obtain ⟨j, g, u, hij, hj⟩ := htop
        exact ih j g u hj (by omega)
      · exact ⟨i, f, t, ha, fun j g u hij hj => htop ⟨j, g, u, hij, hj⟩⟩
  obtain ⟨i, f, t, ha⟩ := h
  exact hup c.frames.items.length i f t ha (by omega)

/-- What becomes of the error of a statement: a structural one and one that no block
answers end the program; any other goes to the topmost block that answers. -/
theorem FailsWith.cases (h : s.FailsWith st e u) (hr : s.Regular p) :
    (s.step.1 = .failed e ∧ s.step.2.stopped = true) ∨
      ∃ i f t line new, e.Mild ∧ u.control.Innermost i f t ∧ t.Advances e line new ∧
        s.step = u.resume i f line new e := by
  by_cases he : e.isStructural = true
  · refine Or.inl ?_
    rw [h.step_eq, recover, if_pos he]
    exact ⟨rfl, rfl⟩
  · have hmild : e.Mild := by simpa [Error.Mild] using he
    by_cases ha : ∃ i f t, u.control.Answers i f t
    · obtain ⟨i, f, t, hi⟩ := exists_innermost ha
      obtain ⟨_, low, high, _, hguards, _⟩ := hi.answers.within
      obtain ⟨⟨line, new⟩, hh⟩ :=
        Option.ne_none_iff_exists'.1 ((Frame.guards_iff (e := e)).1 hguards).2
      have hadv := TryBlock.advances_iff.2 hh
      exact Or.inr ⟨i, f, t, line, new, hmild, hi, hadv, h.step_of_innermost hr hmild hi hadv⟩
    · obtain ⟨fs, hstep⟩ := h.step_of_none hr hmild fun i f t hi => ha ⟨i, f, t, hi⟩
      rw [hstep]
      exact Or.inl ⟨rfl, rfl⟩

/-! ## Origins -/

/-- The statement at the current line fails with `e`, and `e` goes to wait in the
block of the frame at place `i` while its FINALLY runs. -/
def Parks (s : Session) (e : Error) (i : Nat) : Prop :=
  ∃ st u f t line, s.FailsWith st e u ∧ u.control.Innermost i f t ∧
    t.Advances e line { t with phase := .finally, pending := some e }

mutual

/-- The statement at the current line raises `e`, which the statement at line `l`
raised first. -/
inductive Raises : Session → Error → Nat → Prop where
  | made {s u : Session} {st : Statement} {e : Error} (h : s.FailsWith st e u)
      (hs : st ≠ .endTry) : Raises s e s.line
  | again {s u : Session} {e : Error} {first i l : Nat} {f : Frame}
      (h : s.FailsWith .endTry e u) (hb : s.control.InBlock s.program .endTry first i f)
      (hw : Waits s i e l) : Raises s e l

/-- In the block of the frame at place `i` waits `e`, which the statement at line
`l` raised first. -/
inductive Waits : Session → Nat → Error → Nat → Prop where
  | parked {s : Session} {e : Error} {i l : Nat} (h : Raises s e l) (hp : s.Parks e i) :
      Waits s.step.2 i e l
  | kept {s s' : Session} {i : Nat} {e : Error} {l : Nat} (h : Waits s i e l)
      (hn : Happens s s') (hh : Frames.Holds s'.frames i e) : Waits s' i e l

end

/-- Every error that waits comes from the line that it names. -/
def Traced (s : Session) : Prop :=
  ∀ i e, Frames.Holds s.frames i e → ∃ l, Waits s i e l ∧ e.line = some l

/-- In a state where all that waits is traced, so is what a statement raises. -/
theorem FailsWith.raises (h : s.FailsWith st e u) (hr : s.Regular p) (ht : s.Traced) :
    ∃ l, Raises s e l ∧ e.line = some l := by
  by_cases hst : st = .endTry
  · subst hst
    obtain ⟨first, i, f, b, e₀, hb, hstate, hp, he, _⟩ := h.endTry
    obtain ⟨l, hw, hl⟩ := ht i e₀ ⟨f, b, hb.frame, hstate, hp⟩
    rw [Error.inLine_of_line hl] at he
    subst he
    exact ⟨l, .again h hb hw, hl⟩
  · exact ⟨s.line, .made h hst, h.line_eq hr hst⟩

/-- Going on as a statement says only drops blocks. -/
theorem isPrefix_frames_follow (s : Session) (flow : Flow) :
    (s.follow flow).2.frames.items <+: s.frames.items := by
  cases flow with
  | «return» =>
    have hunwind : ∀ c : Control, c.frames = s.control.frames.unwind (s.control.depth - 1) →
        c.frames.items <+: s.frames.items := by
      intro c hc
      rw [hc]
      unfold Frames.unwind
      split
      · exact List.take_prefix _ _
      · exact List.take_prefix _ _
    rcases s.returnFromCall_cases with ⟨t, hr, _, _, rfl | ht⟩ | ⟨l, t, hr, _, _, _, ht⟩
    · simp only [follow, hr]
      exact List.prefix_rfl
    · simp only [follow, hr]
      exact hunwind t.control (congrArg Control.frames ht)
    · simp only [follow, hr]
      exact hunwind t.control (congrArg Control.frames ht)
  | next | jump _ | stop | rest _ => exact List.prefix_rfl

/-- What waits after a block took an error waited before, or is that error. -/
theorem holds_resumed {c : Control} {i j line : Nat} {f : Frame} {t new : TryBlock} {e' : Error}
    (ha : t.Advances e line new) (hf : c.frames.get? i = some f)
    (h : Frames.Holds (c.resumed i f.depth new).frames j e') :
    Frames.Holds c.frames j e' ∨
      j = i ∧ e' = e ∧ t.Advances e line { t with phase := .finally, pending := some e } := by
  obtain ⟨g, b, hg, hb, hp⟩ := h
  simp only [Control.resumed, Stack.get?, Stack.modify_items, List.getElem?_modify,
    Option.map_eq_map] at hg
  by_cases hij : i = j
  · subst hij
    have hget : (c.frames.truncate (i + 1)).items[i]? = some f :=
      (c.frames.get?_truncate (Nat.lt_succ_self i)).trans hf
    simp only [hget, if_true, Option.map_some, Option.some.injEq] at hg
    subst hg
    cases hb
    cases ha with
    | toCatch _ _ => cases hp
    | toFinally hphase hline =>
      cases hp
      exact Or.inr ⟨rfl, rfl, .toFinally hphase hline⟩
  · have hg : (c.frames.truncate (i + 1)).items[j]? = some g := by simpa [hij] using hg
    have hold : Frames.Holds (c.frames.truncate (i + 1)) j e' := ⟨g, b, hg, hb, hp⟩
    exact Or.inl (hold.of_isPrefix (List.take_prefix _ _))

theorem Traced.step (hr : s.Regular p) (ht : s.stopped = false → s.Traced)
    (hrun : s.step.2.stopped = false) : s.step.2.Traced := by
  have hs : s.stopped = false := by
    cases hs : s.stopped with
    | false => rfl
    | true =>
      simp only [Session.step, hs, if_true] at hrun
      cases hrun
  have ht := ht hs
  intro i e hh
  -- What waited before the step still comes from where it came from.
  have hkept : Frames.Holds s.frames i e → ∃ l, Waits s.step.2 i e l ∧ e.line = some l := by
    intro hold
    obtain ⟨l, hw, hl⟩ := ht i e hold
    exact ⟨l, .kept hw .step hh, hl⟩
  rcases s.step_cases hs with ⟨_, hstep⟩ | ⟨st, _, ⟨flow, t, hm, hstep⟩ | ⟨e', u, hf⟩⟩
  · rw [hstep] at hrun
    cases hrun
  · rw [hstep] at hh
    exact hkept (hm.holds (hh.of_isPrefix (isPrefix_frames_follow _ flow)))
  · rcases hf.cases hr with ⟨_, hstop⟩ | ⟨j, f, t, line, new, _, hi, hadv, hstep⟩
    · rw [hstop] at hrun
      cases hrun
    · have hframes : s.step.2.frames = (u.control.resumed j f.depth new).frames := by
        obtain ⟨u', _, _, hu, hres | ⟨_, _, hres⟩⟩ := u.resume_cases j f line new e'
        · rw [hstep, hres]
          exact congrArg Control.frames hu
        · rw [hstep, hres]
          exact congrArg Control.frames hu
      rw [hframes] at hh
      rcases holds_resumed hadv hi.answers.frame hh with hold | ⟨rfl, rfl, hpark⟩
      · exact hkept (hold.of_isPrefix (hf.isPrefix_frames hr))
      · obtain ⟨l, hraise, hl⟩ := hf.raises hr ht
        exact ⟨l, .parked hraise ⟨st, u, f, t, line, hf, hi, hpark⟩, hl⟩

theorem Happens.traced (h : Happens s u) (hr : s.Regular p) (ht : s.stopped = false → s.Traced) :
    u.stopped = false → u.Traced := by
  intro hrun
  cases h with
  | step => exact Traced.step hr ht hrun
  | halt => cases hrun
  | reset =>
    intro i e hh
    exact absurd hh.lt (Nat.not_lt_zero i)
  | outside host wakeAt interrupted =>
    intro i e hh
    obtain ⟨l, hw, hl⟩ := ht hrun i e hh
    exact ⟨l, .kept hw (.outside host wakeAt interrupted) hh, hl⟩

theorem reachable_traced (hp : p.Made) (hs : Reachable p s) :
    s.Regular p ∧ (s.stopped = false → s.Traced) := by
  obtain ⟨seed, host, hthrough⟩ := hs.through
  have hstart := reachable_regular hp (.start seed host)
  refine ⟨reachable_regular hp hs, ?_⟩
  clear hs
  induction hthrough with
  | start _ =>
    intro _ i e hh
    exact absurd hh.lt (Nat.not_lt_zero i)
  | next h hn _ ih => exact hn.traced (h.regular hp hstart) ih

/-! ## The line that is reported -/

/-- The text of an error is refused by the CATCH variable of the block that takes it. -/
def Refused (s : Session) : Prop :=
  ∃ st e u i f t line name, s.FailsWith st e u ∧ u.control.Innermost i f t ∧ t.phase = .body ∧
    t.catchLine = some line ∧ s.program.catchName? line = some name ∧ name.isText = false

/-- A step that fails reports an error from the line that it names, unless a CATCH
variable refused the text of an error. -/
theorem step_failed_cases (hp : p.Made) (hs : Reachable p s) (he : s.step.1 = .failed e) :
    (∃ l, Raises s e l ∧ e.line = some l) ∨ s.Refused ∧ e.line = none := by
  obtain ⟨hr, ht⟩ := reachable_traced hp hs
  have hrun : s.stopped = false := by
    cases hrun : s.stopped with
    | false => rfl
    | true => simp [Session.step, hrun] at he
  rcases s.step_cases hrun with ⟨_, hstep⟩ | ⟨st, _, ⟨flow, t, _, hstep⟩ | ⟨e', u, hf⟩⟩
  · rw [hstep] at he
    cases he
  · rw [hstep] at he
    exact absurd he (follow_ne_failed _ _ e)
  · rcases hf.cases hr with ⟨hfail, _⟩ | ⟨i, f, t, line, new, _, hi, hadv, hstep⟩
    · cases hfail.symm.trans he
      exact Or.inl (hf.raises hr (ht hrun))
    · -- The block took the error, so it can only be its variable that failed.
      refine Or.inr ⟨?_, ?_⟩
      · have hru := hf.regular hr
        have honward : ∀ h : (u.program.catchName? line).all Name.isText = true,
            new.phase = .catch ∨ u.program.catchName? line = none → s.Refused := by
          intro htext hphase
          obtain ⟨_, _, hres, _⟩ := resume_of_isText (i := i) (f := f) (e := e') htext hphase
          rw [hstep, hres] at he
          cases he
        cases hadv with
        | toCatch hphase hcatch =>
          cases hname : u.program.catchName? line with
          | none => exact honward (by rw [hname]; rfl) (Or.inl rfl)
          | some name =>
            cases htext : name.isText with
            | true => exact honward (by rw [hname]; exact htext) (Or.inl rfl)
            | false =>
              rw [hf.program_eq] at hname
              exact ⟨st, e', u, i, f, t, line, name, hf, hi, hphase, hcatch, hname, htext⟩
        | toFinally _ hfinally =>
          have hfits := hru.sound.frames.fits f (List.mem_of_getElem? hi.answers.frame)
          have hname := catchName?_finally hfits hi.answers.block hfinally
          rw [← hru.program] at hname
          exact honward (by rw [hname]; rfl) (Or.inr hname)
      · obtain ⟨_, _, _, _, hres | ⟨e'', hfresh, hres⟩⟩ := u.resume_cases i f line new e'
        · rw [hstep, hres] at he
          cases he
        · rw [hstep, hres] at he
          cases he
          exact hfresh.line

/-- Every error that a step or a run reports names the line of the statement that
raised it first, however often it was raised again and whatever calls were left
since. Two errors are not raised by a statement: an interrupt, and the refusal of a
CATCH variable to hold the text of an error, which names no line. -/
theorem every_reported_error_names_its_origin (hp : p.Made) (hs : Reachable p s) :
    (∀ e, s.step.1 = .failed e →
      (∃ l, Raises s e l ∧ e.line = some l) ∨ s.Refused ∧ e.line = none) ∧
    ∀ n times e, (s.executeAt times n).1 = .failed e →
      (∃ t, Reachable p t ∧
        ((∃ l, Raises t e l ∧ e.line = some l) ∨ t.Refused ∧ e.line = none)) ∨
      ∃ l, e = Error.interrupted l := by
  refine ⟨fun e => step_failed_cases hp hs, fun n times e he => ?_⟩
  refine hs.execute_failed (Q := fun e => (∃ t, Reachable p t ∧
    ((∃ l, Raises t e l ∧ e.line = some l) ∨ t.Refused ∧ e.line = none)) ∨
    ∃ l, e = Error.interrupted l) ?_ ?_ he
  · exact fun t e ht he => Or.inl ⟨t, ht, step_failed_cases hp ht he⟩
  · exact fun l => Or.inr ⟨l, rfl⟩

theorem an_error_raised_again_names_its_origin :
    let p := Program.ofLines [⟨0, .try⟩, ⟨1, .throw (.string "boom")⟩, ⟨0, .finally⟩, ⟨0, .endTry⟩]
    let s := (Session.start p 7 {}).step.2.step.2
    let e : Error := { code := .thrown, line := some 1, message := "boom" }
    s.line = 3 ∧ s.step.1 = .failed e ∧ Raises s e 1 := by
  intro p s e
  have he : s.step.1 = .failed e := by decide +kernel
  refine ⟨by decide +kernel, he, ?_⟩
  have hs : Reachable p s := .step (.step (.start 7 {}))
  have hall := every_reported_error_names_its_origin (.ofLines _) hs
  rcases hall.1 e he with ⟨l, hl, hline⟩ | ⟨_, hline⟩
  · cases hline
    exact hl
  · cases hline

/-- A CATCH variable that holds numbers refuses a text, and the error names no line. -/
theorem a_refused_text_names_no_line :
    let p := Program.ofLines [⟨0, .try⟩, ⟨1, .throw (.string "boom")⟩,
      ⟨0, .catch (some ⟨['e', '%']⟩)⟩, ⟨0, .endTry⟩]
    (Session.start p 7 {}).step.2.step.1 =
      .failed { code := .typeMismatch, line := none, message := "Cannot convert STRING to number" } := by
  decide +kernel

end Session

end LineBasic
