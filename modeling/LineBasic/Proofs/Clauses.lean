-- One step of a program that has entered a TRY block. Inside a section it stays
-- there, gets to the line after it, or raises an error that no inner block takes. At
-- a line of the block itself it goes to the next section or leaves the block.
import LineBasic.Proofs.Attempts

namespace LineBasic

/-! ## The own lines of a block -/

theorem Control.InBlock.unique {p : Program} {c : Control} {st : Statement}
    {first first' i i' : Nat} {f f' : Frame} (hb : c.InBlock p st first i f) (hb' : c.InBlock p st first' i' f') :
    first = first' ∧ i = i' ∧ f = f' := by
  cases hb.opener.symm.trans hb'.opener
  cases hb.place.symm.trans hb'.place
  cases hb.frame.symm.trans hb'.frame
  exact ⟨rfl, rfl, rfl⟩

namespace Run

variable {p : Program} {s : State} {first i : Nat} {f : Frame} {b : TryBlock}

/-- A line of a TRY block that has a frame finds it. -/
theorem after_tryFrame_of {st : Statement} {Q : Option (Nat × Nat × Frame) → State → Prop}
    {E : Error → State → Prop} (hb : s.control.InBlock p st first i f)
    (hst : st.openedBy = Statement.opensTry) (hQ : Q (some (first, i, f)) s) :
    After tryFrame? p s Q E := by
  refine after_tryFrame st hst (fun hnone => ?_) fun first' i' f' hb' => ?_
  · rcases hnone with ho | ⟨first', ho, hp⟩
    · cases ho.symm.trans hb.opener
    · cases ho.symm.trans hb.opener
      cases hp.symm.trans hb.place
  · obtain ⟨rfl, rfl, rfl⟩ := hb.unique hb'
    exact hQ

/-- A CATCH that is reached from above leads to FINALLY or to the end of its block. -/
theorem after_catch {name : Option Name} (hb : s.control.InBlock p (.catch name) first i f)
    (hs : f.state = .try b) : After catchStatement p s
      (fun flow t => flow = .jump (b.finallyLine.getD f.last) ∧ t = s) fun _ _ => False := by
  unfold catchStatement
  simp only [after_bind, after_line, after_opener, after_require, after_framePlace, after_frames,
    State.line_control, State.frames_control, State.depth_control]
  refine ⟨fun first' ho => ?_, fun ho => ?_⟩
  · cases ho.symm.trans hb.opener
    simp only [hb.place, Option.bind_some, hb.frame, hs]
    obtain ⟨phase, catchLine, finallyLine, pending⟩ := b
    cases finallyLine <;> exact ⟨rfl, rfl⟩
  · cases ho.symm.trans hb.opener

/-- A FINALLY that is reached from above starts its section. -/
theorem after_finally (hb : s.control.InBlock p .finally first i f) (hs : f.state = .try b) :
    After finallyStatement p s (fun flow t => flow = .next ∧ t = { s with
      frames := s.frames.modify i fun f => { f with state := .try { b with phase := .finally } } })
      fun _ _ => False := by
  unfold finallyStatement
  rw [after_bind]
  refine after_tryFrame_of hb rfl ?_
  obtain ⟨start, last, depth, state⟩ := f
  cases hs
  exact ⟨rfl, rfl⟩

/-- The end of a TRY block leaves it, and raises what waited there. -/
theorem after_endTry_of (hb : s.control.InBlock p .endTry first i f) (hs : f.state = .try b) :
    After endTryStatement p s
      (fun flow t => flow = .next ∧ b.pending = none ∧ t = { s with frames := s.frames.truncate i })
      fun e t => b.pending = some e ∧ t = { s with frames := s.frames.truncate i } := by
  unfold endTryStatement
  rw [after_bind]
  refine after_tryFrame_of hb rfl ?_
  rw [after_bind, after_leave, State.depth_control, State.frames_control,
    Frames.leave_of_some _ hb.place]
  obtain ⟨start, last, depth, state⟩ := f
  cases hs
  obtain ⟨phase, catchLine, finallyLine, pending⟩ := b
  cases pending with
  | some e => exact ⟨rfl, rfl⟩
  | none => exact ⟨rfl, rfl, rfl⟩

end Run

/-! ## Where the program is -/

namespace Session

/-- `t` is `s` after one step, and after whatever has happened since to the host and
to what the program waits for. -/
def Follows (s t : Session) : Prop :=
  ∃ host wakeAt interrupted, t = { s.step.2 with host, wakeAt, interrupted }

/-- The statement at the current line fails with `e`, and of all blocks only the
lowest `n` may take it. -/
def Escapes (s : Session) (e : Error) (n : Nat) : Prop :=
  ∃ st u, s.FailsWith st e u ∧ ∀ i f t, u.control.Answers i f t → i < n

/-- The TRY block at the current line, as it is when it is entered. -/
def attempt (s : Session) : Attempt where
  below := s.frames.items
  first := s.line
  last := (s.program.closer s.line Statement.closesTry).getD s.line
  depth := s.depth
  catchLine := s.program.closer s.line Statement.isCatch
  finallyLine := s.program.closer s.line Statement.isFinally

end Session

/-- How a section of a block, or the block as a whole, ends. -/
inductive Completion where
  | finished
  | raised (e : Error)

namespace Attempt

/-- The program runs in a section of the block, or in a call made from there. -/
structure In (X : Attempt) (phase : TryPhase) (pending : Option Error) (t : Session) : Prop where
  running : t.stopped = false
  within : X.Within phase pending t.control

/-- The program runs in a section of the block or is at the line after it. -/
structure Arrives (X : Attempt) (phase : TryPhase) (pending : Option Error) (t : Session) :
    Prop where
  running : t.stopped = false
  reaches : X.Reaches phase pending t.control

/-- The program runs at a line of the block, in no inner block. -/
structure On (X : Attempt) (line : Nat) (phase : TryPhase) (pending : Option Error) (t : Session) :
    Prop where
  running : t.stopped = false
  line_eq : t.control.line = line
  depth_eq : t.control.depth = X.depth
  items_eq : t.control.frames.items = X.below ++ [X.frame phase pending]

/-- The block is not left by EXIT, CONTINUE, RETURN or END here. An EXIT or CONTINUE
may act on an inner block, and a RETURN may end a call made from the block. -/
structure Stays (X : Attempt) (t : Session) : Prop where
  exits : ∀ kind name i, t.program.statement? t.line = some (.exit kind name) ∨
    t.program.statement? t.line = some (.continue kind name) →
    t.frames.lastPlace? (Run.isTarget kind name t.depth) = some i → X.below.length < i
  returns : t.program.statement? t.line = some .return → X.depth < t.depth
  ends : t.program.statement? t.line ≠ some .stop

/-- The next step leaves the block: it passes END TRY, or it raises an error that
neither the block nor one inside it takes. -/
inductive Ends (X : Attempt) (t : Session) : Completion → Prop where
  | finished {t' : Session} (hline : t.line = X.last) (hf : ∀ st e u, ¬ t.FailsWith st e u)
      (hstep : t.step = (.onward, t')) (hline' : t'.line = X.last + 1)
      (hdepth : t'.depth = X.depth) (hframes : t'.frames.items = X.below) : Ends X t .finished
  | raised {e : Error} (h : t.Escapes e X.below.length) : Ends X t (.raised e)

end Attempt

/-! ## One step -/

section Step

variable {p : Program} {X : Attempt} {phase : TryPhase} {pending : Option Error} {t : Session}

theorem Moves.eq_stop {c c' : Control} {st : Statement} (hm : Moves p c st .stop c') :
    st = .stop := by
  cases hm with
  | onward _ hf => cases hf
  | stop => rfl
  | opened _ _ _ _ hw _ => rcases hw with hw | ⟨_, hw⟩ <;> cases hw

theorem Moves.eq_return {c c' : Control} {st : Statement} (hm : Moves p c st .return c') :
    st = .return ∨ st = .endSub := by
  cases hm with
  | onward _ hf => cases hf
  | «return» hs => exact hs
  | opened _ _ _ _ hw _ => rcases hw with hw | ⟨_, hw⟩ <;> cases hw

/-- A block whose CATCH variable can hear it takes an error, and the program goes on
after the clause that it went to. -/
theorem Session.FailsWith.resumes {st : Statement} {e : Error} {u : Session} {i : Nat} {f : Frame}
    {b : TryBlock} (h : t.FailsWith st e u) (hr : t.Regular p) (he : e.Mild)
    (hnames : ∀ l name, p.catchName? l = some name → name.isText = true)
    (hi : u.control.Innermost i f b) :
    ∃ line new, b.Advances e line new ∧ t.step.2.stopped = false ∧
      t.step.2.control = { u.control.resumed i f.depth new with line := line + 1 } := by
  have hru := h.regular hr
  obtain ⟨line, new, hadv, htext, hphase⟩ :=
    exists_advances hi.answers hru.sound e fun l name _ hname => hnames l name hname
  rw [← hru.program] at htext hphase
  obtain ⟨vars, trail, hres, _⟩ := resume_of_isText (i := i) (f := f) (e := e) htext hphase
  have hstep := h.step_of_innermost hr he hi hadv
  obtain ⟨v, _, hv, hvc, hres' | ⟨e', _, hres'⟩⟩ := u.resume_cases i f line new e
  · refine ⟨line, new, hadv, ?_, ?_⟩
    · rw [hstep, hres']
      exact hv.trans h.stopped_eq
    · rw [hstep, hres', control_goTo, hvc]
  · cases hres.symm.trans hres'

namespace Attempt

/-- A statement that fails inside a section leaves the block where it is. -/
theorem In.within_of_fails {st : Statement} {e : Error} {u : Session} (h : X.In phase pending t)
    (hX : X.Stands p) (hp : X.has phase = true) (hr : t.Regular p) (hn : t.control.Nests p)
    (hf : t.FailsWith st e u) : X.Within phase pending u.control := by
  obtain ⟨rfl, hsound, _⟩ := hr
  obtain ⟨_, _, hfails⟩ := hf.control
  exact hfails.within hsound hn hX hp h.within

/-- An inner block that takes an error keeps the program inside the section. -/
theorem In.arrives_of_innermost {st : Statement} {e : Error} {u : Session} {i : Nat} {f : Frame}
    {b : TryBlock} (h : X.In phase pending t) (hX : X.Stands p) (hp : X.has phase = true)
    (hr : t.Regular p) (hn : t.control.Nests p) (hf : t.FailsWith st e u) (he : e.Mild)
    (hnames : ∀ l name, p.catchName? l = some name → name.isText = true)
    (hi : u.control.Innermost i f b) (hlt : X.below.length < i) :
    X.Arrives phase pending t.step.2 := by
  obtain ⟨line, new, hadv, hrun, hcontrol⟩ := hf.resumes hr he hnames hi
  have hwithin := h.within_of_fails hX hp hr hn hf
  have hsound := (hf.regular hr).sound
  have hfm := List.mem_of_getElem? hi.answers.frame
  have hle := hsound.frames.within f hfm
  refine ⟨hrun, ?_⟩
  rw [hcontrol]
  refine ⟨(hwithin.holds.truncate (Nat.lt_succ_of_lt hlt)).modify hlt, ?_⟩
  have hdepth := Control.depth_resumed i new hle
  have hdeep : X.depth ≤ f.depth := by
    refine hsound.frames.depth_le_of_mem_take hi.answers.frame (g := X.frame phase pending) ?_
    refine List.mem_of_getElem? (i := X.below.length) ?_
    rw [List.getElem?_take_of_lt (by omega)]
    exact hwithin.holds.get?
  rcases Nat.eq_or_lt_of_le hdeep with heq | hgt
  · -- The inner block is one of the same call, so it stands inside the section.
    obtain ⟨hget, _, _⟩ := hf.resumed_eq hr hi.answers.frame
    have hfits := hr.sound.frames.fits f (List.mem_of_getElem? hget)
    have hup : X.first < f.first := (hn.ascending_of_lt h.within.holds.get? hget hlt heq).1
    obtain ⟨l, hl, hlow, hhigh⟩ := h.within.seen
    have hin := hn.around f (List.mem_of_getElem? hget) l (heq ▸ hl)
    have hblock := hX.block_inside hp hfits hup hin.1 hin.2 hlow (Nat.le_of_lt hhigh)
    obtain ⟨hfirst, hlast, _⟩ := hfits.clause_of_advances hi.answers.block hadv
    exact ⟨line + 1, Or.inl ⟨heq.trans hdepth.symm, rfl⟩, by omega, by omega⟩
  · obtain ⟨l, hl, hlow, hhigh⟩ := hwithin.seen
    refine ⟨l, Or.inr ⟨?_, ?_⟩, hlow, Nat.le_of_lt hhigh⟩
    · exact Nat.lt_of_lt_of_eq hgt hdepth.symm
    · rcases hl with ⟨hd, _⟩ | ⟨_, hget⟩
      · omega
      · exact (List.getElem?_take_of_lt hgt).trans hget

/-- A statement that succeeds keeps the program inside the section or leads to the
line after it. -/
theorem In.arrives_of_moves {st : Statement} {flow : Flow} {v : State} (h : X.In phase pending t)
    (hg : p.Guarded) (hX : X.Stands p) (hp : X.has phase = true) (hr : t.Regular p)
    (hn : t.control.Nests p) (hstay : X.Stays t) (hst : t.program.statement? t.line = some st)
    (hm : Moves t.program t.control st flow v.control) :
    X.Arrives phase pending ((t.withState v).follow flow).2 := by
  obtain ⟨rfl, hsound, hcalled⟩ := hr
  have htarget : ∀ l, flow.target? (t.withState v).line = some l →
      X.Reaches phase pending { v.control with line := l } := by
    intro l hl
    rw [show (t.withState v).line = t.line from hm.line_eq] at hl
    refine hm.reaches hg.jumpless hst hsound hn hX hp h.within (fun kind name i hs ht => ?_) hl
    rw [← State.depth_control] at ht
    refine hstay.exits kind name i ?_ ht
    rcases hs with rfl | rfl
    · exact Or.inl hst
    · exact Or.inr hst
  cases flow with
  | next => exact ⟨h.running, htarget _ rfl⟩
  | jump target => exact ⟨h.running, htarget _ rfl⟩
  | rest delay => exact ⟨h.running, htarget _ rfl⟩
  | stop =>
    rw [hm.eq_stop] at hst
    exact absurd hst hstay.ends
  | «return» =>
    have hsame := hm.eq_of_return
    -- The call that is left was made inside the section.
    have hdeep : X.depth < t.control.depth := by
      rcases Nat.eq_or_lt_of_le h.within.depth_le with heq | hlt
      · rcases hm.eq_return with rfl | rfl
        · have := hstay.returns hst
          rwa [Session.depth, State.depth_control] at this
        · exact absurd hst (h.within.ne_endSub hX hp hn heq.symm hg.paired)
      · exact hlt
    simp only [Session.follow]
    rcases (t.withState v).returnFromCall_cases with
      ⟨w, _, hnone, _⟩ | ⟨l, w, hret, _, hw, htop, hv⟩
    · have hne : t.control.calls.items ≠ [] := by
        intro hnil
        rw [Control.depth, Stack.size, hnil] at hdeep
        cases hdeep
      rw [Session.control_withState, hsame, Stack.top?, List.getLast?_eq_some_getLast hne] at hnone
      obtain ⟨l, hl⟩ := hcalled _ (List.getLast_mem hne)
      rw [hl] at hnone
      cases hnone
    · rw [Session.control_withState, hsame] at htop hv
      rw [hret]
      refine ⟨hw.trans h.running, ?_⟩
      rw [hv]
      exact h.within.returned hsound hdeep htop

/-- A step inside a section stays in it, gets to the line after it, or raises an error
that no inner block takes. -/
theorem In.step (h : X.In phase pending t) (hg : p.Guarded) (hX : X.Stands p)
    (hp : X.has phase = true) (hr : t.Regular p) (hn : t.control.Nests p) (hstay : X.Stays t)
    (hmild : ∀ st e u, t.FailsWith st e u → e.isStructural = false) :
    X.Arrives phase pending t.step.2 ∨ ∃ e, t.Escapes e (X.below.length + 1) := by
  rcases t.step_cases h.running with ⟨hnone, _⟩ | ⟨st, hst, ⟨flow, v, hm, hstep⟩ | ⟨e, u, hf⟩⟩
  · obtain ⟨st, hst⟩ := h.within.exists_statement hX hp hr.sound hn
    rw [hr.program] at hnone
    cases hnone.symm.trans hst
  · rw [hstep]
    exact Or.inl (h.arrives_of_moves hg hX hp hr hn hstay hst hm)
  · by_cases hinner : ∃ i f b, X.below.length < i ∧ u.control.Answers i f b
    · obtain ⟨i, f, b, hlt, hans⟩ := hinner
      obtain ⟨j, g, d, hj⟩ := Session.exists_innermost ⟨i, f, b, hans⟩
      have hij : i ≤ j := by
        rcases Nat.lt_or_ge j i with hlt' | hge
        · exact absurd hans (hj.topmost i f b hlt')
        · exact hge
      exact Or.inl (h.arrives_of_innermost hX hp hr hn hf (hmild st e u hf) hg.names hj (by omega))
    · refine Or.inr ⟨e, st, u, hf, fun i f b hans => ?_⟩
      rcases Nat.lt_or_ge X.below.length i with hlt | hge
      · exact absurd ⟨i, f, b, hlt, hans⟩ hinner
      · exact Nat.lt_succ_of_le hge

/-! ## An error that reaches the block -/

/-- What the frame of the block remembers. -/
def block (X : Attempt) (phase : TryPhase) (pending : Option Error) : TryBlock :=
  ⟨phase, X.catchLine, X.finallyLine, pending⟩

/-- A block that can take an error guards the section that it is in. -/
theorem guards_of_advances {e : Error} {line : Nat} {new : TryBlock} (hp : X.has phase = true)
    (ha : (X.block phase pending).Advances e line new) :
    (X.frame phase pending).Guards (X.block phase pending) (X.low phase) (X.high phase) := by
  cases ha with
  | toCatch hphase hc =>
    obtain rfl : phase = .body := hphase
    rw [high_body_of_catch hc]
    exact .body rfl (Or.inl hc)
  | toFinally hphase hf =>
    rcases hphase with ⟨hphase, hc⟩ | hphase
    · obtain rfl : phase = .body := hphase
      rw [high_body_of_none hc, high_catch_of_finally hf]
      exact .body rfl (Or.inr ⟨hc, hf⟩)
    · obtain rfl : phase = .catch := hphase
      obtain ⟨c, hc⟩ := Option.isSome_iff_exists.1 hp
      rw [high_catch_of_finally hf, low_catch hc]
      exact .catch rfl hc hf

/-- An error that no inner block takes and that the block can take starts its next
section. -/
theorem In.taken {e : Error} {line : Nat} {phase' : TryPhase} {pending' : Option Error}
    (h : X.In phase pending t) (hg : p.Guarded) (hX : X.Stands p) (hp : X.has phase = true)
    (hr : t.Regular p) (hn : t.control.Nests p)
    (hmild : ∀ st e u, t.FailsWith st e u → e.isStructural = false)
    (he : t.Escapes e (X.below.length + 1))
    (ha : (X.block phase pending).Advances e line (X.block phase' pending')) :
    X.On (X.low phase' + 1) phase' pending' t.step.2 := by
  obtain ⟨st, u, hf, hnone⟩ := he
  have hwithin := h.within_of_fails hX hp hr hn hf
  have hi : u.control.Innermost X.below.length (X.frame phase pending) (X.block phase pending) := by
    obtain ⟨l, hl, hin⟩ := hwithin.seen
    refine ⟨⟨hwithin.holds.get?, rfl, l, _, _, hl, guards_of_advances hp ha, hin⟩, ?_⟩
    intro j g b hj hans
    have := hnone j g b hans
    omega
  obtain ⟨line', new, hadv, hrun, hcontrol⟩ := hf.resumes hr (hmild st e u hf) hg.names hi
  cases (TryBlock.advances_iff.1 hadv).symm.trans (TryBlock.advances_iff.1 ha)
  have hle := (hf.regular hr).sound.frames.within _ (List.mem_of_getElem? hi.answers.frame)
  -- The section that starts is the one after the clause.
  have hlow : X.low phase' = line := by
    generalize hb : X.block phase' pending' = new at ha
    cases ha with
    | toCatch _ hc =>
      cases hb
      exact low_catch hc
    | toFinally _ hfl =>
      cases hb
      exact low_finally hfl
  refine ⟨hrun, ?_, ?_, ?_⟩
  · rw [hcontrol, hlow]
  · rw [hcontrol]
    exact Control.depth_resumed X.below.length (X.block phase' pending') hle
  · rw [hcontrol]
    change ((u.control.frames.truncate (X.below.length + 1)).modify X.below.length _).items = _
    rw [Frames.truncate_modify_items _ hi.answers.frame]
    obtain ⟨above, habove⟩ := hwithin.holds
    rw [← habove, List.append_assoc, List.take_left' rfl]
    rfl

/-- An error that neither an inner block nor the block itself can take goes past it. -/
theorem In.ends {e : Error} (h : X.In phase pending t) (hX : X.Stands p)
    (hp : X.has phase = true) (hr : t.Regular p) (hn : t.control.Nests p)
    (he : t.Escapes e (X.below.length + 1))
    (hno : ∀ line new, ¬ (X.block phase pending).Advances e line new) :
    X.Ends t (.raised e) := by
  obtain ⟨st, u, hf, hnone⟩ := he
  have hwithin := h.within_of_fails hX hp hr hn hf
  refine .raised ⟨st, u, hf, fun i f b hans => ?_⟩
  rcases Nat.lt_or_ge i X.below.length with hlt | hge
  · exact hlt
  · have hlt := hnone i f b hans
    obtain rfl : i = X.below.length := by omega
    cases hwithin.holds.get?.symm.trans hans.frame
    obtain rfl : X.block phase pending = b := FrameState.try.inj hans.block
    obtain ⟨_, _, _, _, hguards, _⟩ := hans.within
    obtain ⟨⟨line, new⟩, hh⟩ :=
      Option.ne_none_iff_exists'.1 ((Frame.guards_iff (e := e)).1 hguards).2
    exact absurd (TryBlock.advances_iff.2 hh) (hno line new)

/-! ## Steps at the own lines -/

/-- A step of a statement that cannot fail. -/
theorem step_of_after {st : Statement} {Q : Flow → State → Prop} (hrun : t.stopped = false)
    (hst : t.program.statement? t.line = some st)
    (h : Run.After (Run.execute st) t.program t.toState Q fun _ _ => False) :
    ∃ flow v, Q flow v ∧ t.step = (t.withState v).follow flow ∧
      ∀ st e u, ¬ t.FailsWith st e u := by
  unfold Run.After at h
  cases hx : Run.execute st t.program t.toState with
  | ok flow v =>
    rw [hx] at h
    refine ⟨flow, v, h, ?_, ?_⟩
    · simp only [Session.step, hrun, hst, hx, Bool.false_eq_true, if_false]
    · rintro st' e u ⟨_, hst', e₀, v', hx', _⟩
      cases hst.symm.trans hst'
      cases hx.symm.trans hx'
  | error e v =>
    rw [hx] at h
    exact h.elim

/-- A line of the block finds its frame. -/
theorem On.inBlock {line : Nat} {st : Statement} (h : X.On line phase pending t)
    (ho : p.opener line Statement.opensTry = some X.first)
    (hst : st.openedBy = Statement.opensTry) :
    t.control.InBlock p st X.first X.below.length (X.frame phase pending) := by
  refine ⟨by rw [h.line_eq, hst, ho], ?_, ?_⟩
  · exact Frames.place?_of_top _ h.items_eq rfl h.depth_eq.symm
  · rw [Stack.get?, h.items_eq, List.getElem?_concat_length]

/-- A CATCH that is reached from above is passed over, with its section. -/
theorem On.passes_catch {c : Nat} (h : X.On c phase pending t) (hc : X.catchLine = some c)
    (hX : X.Stands p) (hr : t.Regular p) : X.On (X.high .catch) phase pending t.step.2 := by
  obtain ⟨rfl, _, _⟩ := hr
  obtain ⟨⟨name, hst⟩, ho⟩ := hX.catch_at hc
  rw [← h.line_eq] at hst
  have hb : t.control.InBlock t.program (.catch name) _ _ _ := h.inBlock ho rfl
  obtain ⟨flow, v, ⟨rfl, rfl⟩, hstep, _⟩ := step_of_after h.running hst (Run.after_catch hb rfl)
  rw [hstep]
  exact ⟨h.running, rfl, h.depth_eq, h.items_eq⟩

/-- A FINALLY that is reached from above starts its section. -/
theorem On.starts_finally {f : Nat} (h : X.On f phase pending t) (hf : X.finallyLine = some f)
    (hX : X.Stands p) (hr : t.Regular p) :
    X.On (X.low .finally + 1) .finally pending t.step.2 := by
  obtain ⟨rfl, _, _⟩ := hr
  obtain ⟨hst, ho⟩ := hX.finally_at hf
  rw [← h.line_eq] at hst
  have hb : t.control.InBlock t.program .finally _ _ _ := h.inBlock ho rfl
  obtain ⟨flow, v, ⟨rfl, rfl⟩, hstep, _⟩ := step_of_after h.running hst (Run.after_finally hb rfl)
  rw [hstep, low_finally hf]
  refine ⟨h.running, congrArg (· + 1) h.line_eq, h.depth_eq, ?_⟩
  have hitems := Frames.truncate_modify_items t.control.frames hb.frame
    fun g => { g with state := .try (X.block .finally pending) }
  rw [t.control.frames.truncate_all (by rw [h.items_eq]; simp), h.items_eq,
    List.take_left' rfl] at hitems
  exact hitems

/-- An END TRY that no error waits for is passed, and the block is left. -/
theorem On.passes_endTry (h : X.On X.last phase none t) (hX : X.Stands p) (hr : t.Regular p) :
    X.Ends t .finished := by
  obtain ⟨rfl, _, _⟩ := hr
  obtain ⟨hst, ho⟩ := hX.last_at
  rw [← h.line_eq] at hst
  have hb : t.control.InBlock t.program .endTry _ _ _ := h.inBlock ho rfl
  have hafter : Run.After (Run.execute .endTry) t.program t.toState _ fun _ _ => False :=
    (Run.after_endTry_of hb rfl).mono (fun _ _ hq => hq) fun e v hv => by cases hv.1
  obtain ⟨flow, v, ⟨rfl, _, rfl⟩, hstep, hf⟩ := step_of_after h.running hst hafter
  refine .finished h.line_eq hf hstep (congrArg (· + 1) h.line_eq) ?_ ?_
  · rw [Session.depth, State.depth_control]
    exact h.depth_eq
  · change t.control.frames.items.take X.below.length = X.below
    rw [h.items_eq, List.take_left' rfl]

/-- An END TRY raises the error that waited for it, past the block. -/
theorem On.raises {e : Error} {l : Nat} (h : X.On X.last phase (some e) t) (hX : X.Stands p)
    (hr : t.Regular p) (hl : e.line = some l) : X.Ends t (.raised e) := by
  obtain ⟨rfl, _, _⟩ := hr
  obtain ⟨hst, ho⟩ := hX.last_at
  rw [← h.line_eq] at hst
  have hb : t.control.InBlock t.program .endTry _ _ _ := h.inBlock ho rfl
  have hafter := Run.after_endTry_of hb rfl
  unfold Run.After at hafter
  cases hx : Run.endTryStatement t.program t.toState with
  | ok flow v =>
    rw [hx] at hafter
    cases hafter.2.1
  | error e' v =>
    rw [hx] at hafter
    obtain ⟨he, rfl⟩ := hafter
    cases he
    have hline := (Error.inLine_of_line hl t.line).symm
    refine .raised ⟨.endTry, _, ⟨h.running, hst, e, _, hx, hline, rfl⟩, fun i f b hans => ?_⟩
    have hlt := (List.getElem?_eq_some_iff.1 hans.frame).1
    change i < (t.control.frames.items.take X.below.length).length at hlt
    rw [List.length_take] at hlt
    omega

end Attempt

end Step

end LineBasic
