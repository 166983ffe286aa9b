-- One step of a session, seen from its control. A step executes a statement and
-- goes on as it says, or hands its error to a TRY block. The lemmas here name
-- each way that this can end, so that no later proof opens `step` again.
import LineBasic.Proofs.Control
import LineBasic.Session.Basic

namespace LineBasic

namespace Variables

theorem calls_leaveCall (vars : Variables) : vars.leaveCall.2.calls = vars.calls.pop := by
  simp [leaveCall, calls, Stack.pop, List.map_dropLast]

theorem leaveCall_line (vars : Variables) : vars.leaveCall.1 = vars.calls.top?.join := by
  simp only [leaveCall, calls, Stack.top?, List.getLast?_map]
  cases vars.scopes.items.getLast? <;> rfl

theorem calls_cutTo (vars : Variables) (depth : Nat) :
    (vars.cutTo depth).calls = vars.calls.truncate depth := by
  simp [cutTo, calls, Stack.truncate, List.map_take]

end Variables

/-- The control of a program after the TRY block at place `i`, of a call at
`depth`, took an error: calls made and blocks entered since are left. -/
def Control.resumed (c : Control) (i depth : Nat) (t : TryBlock) : Control :=
  { c with
    frames := (c.frames.truncate (i + 1)).modify i fun f => { f with state := .try t }
    calls := c.calls.truncate depth }

theorem Control.depth_resumed {c : Control} {depth : Nat} (i : Nat) (t : TryBlock)
    (h : depth ≤ c.depth) : (c.resumed i depth t).depth = depth := by
  unfold Control.depth Stack.size at h
  simp only [Control.resumed, Control.depth, Stack.size, Stack.truncate_items, List.length_take]
  omega

namespace Session

variable (s : Session)

@[simp] theorem control_goTo (line : Nat) :
    (s.goTo line).control = { s.control with line } := rfl

@[simp] theorem control_halt : s.halt.control = s.control := rfl

@[simp] theorem control_withState (t : State) : (s.withState t).control = t.control := rfl

@[simp] theorem program_goTo (line : Nat) : (s.goTo line).program = s.program := rfl

@[simp] theorem program_halt : s.halt.program = s.program := rfl

@[simp] theorem program_withState (t : State) : (s.withState t).program = s.program := rfl

/-! ## Return from a call -/

/-- A return ends the program if no call noted a line, or goes on at the line that
the innermost call noted, with that call and its blocks gone. -/
theorem returnFromCall_cases :
    (∃ t : Session, s.returnFromCall = (.ended, t.halt) ∧ s.control.calls.top?.join = none ∧
      t.program = s.program ∧
      (t = s ∨ t.control = { s.control with
        frames := s.control.frames.unwind (s.control.depth - 1), calls := s.control.calls.pop })) ∨
    ∃ (l : Nat) (t : Session), s.returnFromCall = (.onward, t) ∧ t.program = s.program ∧
      t.stopped = s.stopped ∧ s.control.calls.top? = some (some l) ∧
      t.control = ⟨l, s.control.frames.unwind (s.control.depth - 1), s.control.calls.pop⟩ := by
  unfold returnFromCall
  split
  · rename_i hd
    refine Or.inl ⟨s, rfl, ?_, rfl, Or.inl rfl⟩
    rw [depth, State.depth_control, Control.depth, Stack.size, List.length_eq_zero_iff] at hd
    rw [Stack.top?, hd]
    rfl
  · have hcalls := s.memory.variables.calls_leaveCall
    have hline := s.memory.variables.leaveCall_line
    have hdepth : s.memory.variables.leaveCall.2.depth = s.control.depth - 1 := by
      rw [Variables.depth_eq_size_calls, hcalls]
      simp [Stack.pop, Stack.size, Control.depth, State.control]
    generalize s.memory.variables.leaveCall = r at hcalls hline hdepth
    obtain ⟨target, vars⟩ := r
    dsimp only at hcalls hline hdepth ⊢
    have hcontrol : ({ s with
        memory := { s.memory with «variables» := vars }
        frames := s.frames.unwind vars.depth } : Session).control =
        { s.control with
          frames := s.control.frames.unwind (s.control.depth - 1)
          calls := s.control.calls.pop } := by
      simp only [State.control, hcalls, hdepth]
    cases target with
    | none => exact Or.inl ⟨_, rfl, hline.symm, rfl, Or.inr hcontrol⟩
    | some l =>
      refine Or.inr ⟨l, _, rfl, rfl, rfl, ?_, ?_⟩
      · cases htop : s.control.calls.top? with
        | none =>
          have : s.memory.variables.calls.top? = none := htop
          rw [this] at hline
          cases hline
        | some o =>
          have : s.memory.variables.calls.top? = some o := htop
          rw [this] at hline
          exact congrArg some hline.symm
      · rw [control_goTo, hcontrol]

/-! ## Recovery -/

/-- The frame at place `i` is the TRY block that takes an error: it goes on
after `line` with state `t`. -/
structure Takes (e : Error) (i : Nat) (f : Frame) (line : Nat) (t : TryBlock) : Prop where
  frame : s.frames.get? i = some f
  block : ∃ old, f.state = .try old ∧ handler? old e = some (line, t)

variable {s}

/-- A frame that is dropped above the block changes nothing for it. -/
theorem resume_erase {e : Error} {i place line : Nat} {f : Frame} {t : TryBlock} (h : i < place) :
    ({ s with frames := s.frames.erase place } : Session).resume i f line t e =
      s.resume i f line t e := by
  have htake : (s.frames.erase place).truncate (i + 1) = s.frames.truncate (i + 1) := by
    refine Stack.eq_of_items rfl rfl ?_
    apply List.ext_getElem?
    intro j
    simp only [Stack.truncate_items, Stack.erase_items, List.getElem?_take]
    by_cases hj : j < i + 1
    · rw [if_pos hj, if_pos hj, List.getElem?_eraseIdx_of_lt (by omega)]
    · rw [if_neg hj, if_neg hj]
  unfold resume
  dsimp only
  rw [htake]

/-- How a search for a TRY block among the lowest `n` frames can end: no block
takes the error and some frames are dropped, or one of them takes it. -/
inductive Recovers (s : Session) (e : Error) (n : Nat) : Outcome × Session → Prop where
  | failed {t : Session} {fs : Frames} (hp : t.program = s.program)
      (hl : fs.limit = s.frames.limit) (hs : fs.items.Sublist s.frames.items)
      (hc : t.control = { s.control with frames := fs }) : Recovers s e n (.failed e, t.halt)
  | resumed {i line : Nat} {f : Frame} {t : TryBlock} (hi : i < n) (ht : s.Takes e i f line t) :
      Recovers s e n (s.resume i f line t e)

theorem Recovers.succ {e : Error} {n : Nat} {r : Outcome × Session} (h : Recovers s e n r) :
    Recovers s e (n + 1) r := by
  cases h with
  | failed hp hl hs hc => exact .failed hp hl hs hc
  | resumed hi ht => exact .resumed (Nat.lt_succ_of_lt hi) ht

/-- A search that dropped the frame at `n` first ends as one that did not. -/
theorem Recovers.of_erase {e : Error} {n : Nat} {r : Outcome × Session}
    (h : Recovers { s with frames := s.frames.erase n } e n r) : Recovers s e n r := by
  cases h with
  | failed hp hl hs hc => exact .failed hp hl (hs.trans (List.eraseIdx_sublist _ _)) hc
  | resumed hi ht =>
    rw [resume_erase hi]
    refine .resumed hi ⟨?_, ht.block⟩
    have hget := ht.frame
    unfold Stack.get? at hget ⊢
    rw [Stack.erase_items, List.getElem?_eraseIdx_of_lt hi] at hget
    exact hget

theorem recoverFrom_recovers (s : Session) (e : Error) (n : Nat) :
    Recovers s e n (s.recoverFrom e n) := by
  -- Blocks are tried from the top down; one that was left by a jump is erased.
  induction n generalizing s with
  | zero => exact .failed rfl rfl (List.Sublist.refl _) rfl
  | succ n ih =>
    rw [recoverFrom]
    split
    · rename_i f hf
      split
      · rename_i old hstate
        split
        · exact (ih s).succ
        · split
          · split
            · rename_i hh
              exact .resumed (Nat.lt_succ_self n) ⟨hf, old, hstate, hh⟩
            · exact (ih s).succ
          · exact (ih _).of_erase.succ
      · exact (ih s).succ
    · exact (ih s).succ

/-- An error that no TRY block may take ends the program at once. -/
theorem recover_cases (s : Session) (e : Error) :
    e.isStructural = true ∧ s.recover e = (.failed e, s.halt) ∨
      e.Mild ∧ Recovers s e s.frames.size (s.recover e) := by
  unfold recover
  by_cases h : e.isStructural = true
  · rw [if_pos h]
    exact Or.inl ⟨h, rfl⟩
  · rw [if_neg h]
    exact Or.inr ⟨by simpa [Error.Mild] using h, recoverFrom_recovers s e _⟩

theorem mild_bindError (s : Session) (line : Nat) (e : Error) : MildExcept (s.bindError line e) := by
  unfold bindError
  split
  · refine mildExcept_bind ?_ fun _ => mildExcept_pure _
    exact mildExcept_bind (Run.mild_fitTo _ _) fun _ => mildExcept_pure _
  · exact mildExcept_ok _

/-- The variable of a CATCH line changes nothing but memory. -/
theorem control_bindError {s t : Session} {line : Nat} {e : Error}
    (h : s.bindError line e = .ok t) :
    t.control = s.control ∧ t.program = s.program ∧ t.stopped = s.stopped := by
  unfold bindError at h
  split at h
  · unfold Memory.set at h
    rename_i name _
    cases hf : fitTo name (.string e.description) with
    | error e' => rw [hf] at h; cases h
    | ok v =>
      rw [hf] at h
      cases h
      refine ⟨?_, rfl, rfl⟩
      have hcalls := s.memory.variables.calls_store v
        (s.memory.variables.cell name (s.memory.variables.hasLocal name))
      simp only [State.control, Variables.put, Memory.remember, hcalls]
  · cases h
    exact ⟨rfl, rfl, rfl⟩

/-- A block takes an error and goes on after `line`, unless its CATCH variable
cannot hold the text. -/
theorem resume_cases (s : Session) (i : Nat) (f : Frame) (line : Nat) (t : TryBlock) (e : Error) :
    ∃ u : Session, u.program = s.program ∧ u.stopped = s.stopped ∧
      u.control = s.control.resumed i f.depth t ∧
      (s.resume i f line t e = (.onward, u.goTo (line + 1)) ∨
        ∃ e', e'.Fresh ∧ s.resume i f line t e = (.failed e', u.halt)) := by
  unfold resume
  dsimp only
  have hcut := s.memory.variables.calls_cutTo f.depth
  generalize hr : ({ s with
    memory := { s.memory with «variables» := s.memory.variables.cutTo f.depth }
    frames := (s.frames.truncate (i + 1)).modify i fun f => { f with state := .try t } } :
      Session) = r
  have hrc : r.control = s.control.resumed i f.depth t := by
    rw [← hr]
    simp only [State.control, Control.resumed, hcut]
  have hrp : r.program = s.program := by rw [← hr]
  have hrs : r.stopped = s.stopped := by rw [← hr]
  by_cases hp : t.phase = .catch
  · rw [if_pos hp]
    cases hb : r.bindError line e with
    | ok u =>
      obtain ⟨hc, hpu, hsu⟩ := control_bindError hb
      exact ⟨u, hpu.trans hrp, hsu.trans hrs, hc.trans hrc, Or.inl rfl⟩
    | error e' => exact ⟨r, hrp, hrs, hrc, Or.inr ⟨e', mild_bindError r line e e' hb, rfl⟩⟩
  · rw [if_neg hp]
    exact ⟨r, hrp, hrs, hrc, Or.inl rfl⟩

/-! ## One step -/

/-- What a step can come to. -/
inductive Steps (s : Session) : Outcome × Session → Prop where
  | idle (h : s.stopped = true) : Steps s (.ended, s)
  | pastEnd (h : s.program.statement? s.line = none) : Steps s (.ended, s.halt)
  | moved {st flow t} (hr : s.stopped = false) (hs : s.program.statement? s.line = some st)
      (hm : Moves s.program s.control st flow t.control) : Steps s ((s.withState t).follow flow)
  | failed {st e t} (hr : s.stopped = false) (hs : s.program.statement? s.line = some st)
      (hf : Fails s.program s.control st e t.control) :
      Steps s ((s.withState t).recover (e.inLine s.line))

theorem step_steps (s : Session) : Steps s s.step := by
  unfold step
  split
  · rename_i h
    exact .idle h
  · rename_i hr
    split
    · rename_i h
      exact .pastEnd h
    · rename_i st hs
      have hx := Run.steers_execute st s.program s.toState
      unfold Run.After at hx
      have hr : s.stopped = false := by simpa using hr
      split
      · rename_i flow t he
        rw [he] at hx
        exact .moved hr hs hx
      · rename_i e t he
        rw [he] at hx
        exact .failed hr hs hx

/-- What holds of a step whose statement succeeds: what holds once it is followed. -/
theorem step_after {s : Session} {st : Statement} {P : Outcome × Session → Prop}
    (hr : s.stopped = false) (hs : s.program.statement? s.line = some st)
    (h : Run.After (Run.execute st) s.program s.toState
      (fun flow t => P ((s.withState t).follow flow)) fun _ _ => False) : P s.step := by
  unfold Run.After at h
  cases hx : Run.execute st s.program s.toState with
  | ok flow t =>
    rw [hx] at h
    simp only [step, hr, hs, hx, Bool.false_eq_true, if_false]
    exact h
  | error e t =>
    rw [hx] at h
    exact absurd h id

/-- A statement that tells how to go on does not fail. -/
theorem follow_ne_failed (s : Session) (flow : Flow) (e : Error) :
    (s.follow flow).1 ≠ .failed e := by
  cases flow with
  | «return» =>
    rcases s.returnFromCall_cases with ⟨t, hr, _⟩ | ⟨l, t, hr, _⟩
    · simp [follow, hr]
    · simp [follow, hr]
  | next | jump _ | stop | rest _ => simp [follow]

theorem program_follow (s : Session) (flow : Flow) : (s.follow flow).2.program = s.program := by
  cases flow with
  | «return» =>
    rcases s.returnFromCall_cases with ⟨t, hr, _, hp, _⟩ | ⟨l, t, hr, hp, _⟩
    · simp only [follow, hr, program_halt, hp]
    · simp only [follow, hr, hp]
  | next | jump _ | stop | rest _ => rfl

theorem program_recover (s : Session) (e : Error) : (s.recover e).2.program = s.program := by
  rcases s.recover_cases e with ⟨_, hr⟩ | ⟨_, hr⟩
  · rw [hr, program_halt]
  · generalize s.recover e = r at hr
    cases hr with
    | failed hp _ _ _ => exact hp
    | @resumed i line f t _ _ =>
      obtain ⟨u, hp, _, _, hres | ⟨e', _, hres⟩⟩ := s.resume_cases i f line t e
      · rw [hres, program_goTo, hp]
      · rw [hres, program_halt, hp]

theorem program_step (s : Session) : s.step.2.program = s.program := by
  have h := s.step_steps
  generalize s.step = r at h
  cases h with
  | idle _ => rfl
  | pastEnd _ => rfl
  | moved _ _ _ => rw [program_follow, program_withState]
  | failed _ _ _ => rw [program_recover, program_withState]

/-! ## Ends -/

/-- A session went on or was ended. Either way it does not notice an interrupt. -/
structure Proceeds (s : Session) (r : Outcome × Session) : Prop where
  interrupted : r.2.interrupted = s.interrupted
  stopped : r.1 = .onward ∧ r.2.stopped = s.stopped ∨ r.1 ≠ .onward ∧ r.2.stopped = true

theorem proceeds_returnFromCall (s : Session) : s.Proceeds s.returnFromCall := by
  unfold returnFromCall
  split
  · exact ⟨rfl, Or.inr ⟨nofun, rfl⟩⟩
  · dsimp only
    split
    · exact ⟨rfl, Or.inl ⟨rfl, rfl⟩⟩
    · exact ⟨rfl, Or.inr ⟨nofun, rfl⟩⟩

theorem proceeds_follow (s : Session) (flow : Flow) : s.Proceeds (s.follow flow) := by
  cases flow with
  | «return» => exact s.proceeds_returnFromCall
  | stop => exact ⟨rfl, Or.inr ⟨nofun, rfl⟩⟩
  | next | jump _ | rest _ => exact ⟨rfl, Or.inl ⟨rfl, rfl⟩⟩

theorem proceeds_resume (s : Session) (i : Nat) (f : Frame) (line : Nat) (t : TryBlock)
    (e : Error) : s.Proceeds (s.resume i f line t e) := by
  unfold resume bindError
  dsimp only
  split
  · rename_i u hu
    split at hu
    · split at hu
      · rename_i name _
        unfold Memory.set at hu
        cases hf : fitTo name (.string e.description) with
        | error _ => rw [hf] at hu; cases hu
        | ok v =>
          rw [hf] at hu
          cases hu
          exact ⟨rfl, Or.inl ⟨rfl, rfl⟩⟩
      · cases hu
        exact ⟨rfl, Or.inl ⟨rfl, rfl⟩⟩
    · cases hu
      exact ⟨rfl, Or.inl ⟨rfl, rfl⟩⟩
  · exact ⟨rfl, Or.inr ⟨nofun, rfl⟩⟩

theorem proceeds_recoverFrom (s : Session) (e : Error) (n : Nat) :
    s.Proceeds (s.recoverFrom e n) := by
  induction n generalizing s with
  | zero => exact ⟨rfl, Or.inr ⟨nofun, rfl⟩⟩
  | succ i ih =>
    have herase := ih { s with frames := s.frames.erase i }
    rw [recoverFrom]
    split
    · split
      · split
        · exact ih s
        · split
          · split
            · exact s.proceeds_resume _ _ _ _ _
            · exact ih s
          · exact ⟨herase.interrupted, herase.stopped⟩
      · exact ih s
    · exact ih s

theorem proceeds_recover (s : Session) (e : Error) : s.Proceeds (s.recover e) := by
  unfold recover
  split
  · exact ⟨rfl, Or.inr ⟨nofun, rfl⟩⟩
  · exact s.proceeds_recoverFrom e _

theorem proceeds_step (s : Session) : s.Proceeds s.step := by
  unfold step
  split
  · rename_i h
    exact ⟨rfl, Or.inr ⟨nofun, h⟩⟩
  · split
    · exact ⟨rfl, Or.inr ⟨nofun, rfl⟩⟩
    · split
      · rename_i state _
        have h := (s.withState state).proceeds_follow
        exact ⟨(h _).interrupted, (h _).stopped⟩
      · rename_i state _
        have h := (s.withState state).proceeds_recover
        exact ⟨(h _).interrupted, (h _).stopped⟩

/-- A program runs on after a step if and only if the step says so. -/
theorem stopped_step (s : Session) : s.step.2.stopped = false ↔ s.step.1 = .onward := by
  rcases s.proceeds_step.stopped with ⟨honward, hstopped⟩ | ⟨hnot, hstopped⟩
  · refine ⟨fun _ => honward, fun _ => hstopped.trans ?_⟩
    cases hs : s.stopped with
    | false => rfl
    | true =>
      rw [step, if_pos hs] at honward
      cases honward
  · rw [hstopped]
    exact ⟨nofun, fun honward => absurd honward hnot⟩

/-! ## Runs -/

/-- The states that a program can get to from its start. Anything may happen to
the host between two calls: time passes, files change, the screen is read. Time
passes during a run, too. -/
inductive Reachable (p : Program) : Session → Prop where
  | start (seed : UInt64) (host : Host) : Reachable p (Session.start p seed host)
  | step {s : Session} (h : Reachable p s) : Reachable p s.step.2
  | execute {s : Session} (h : Reachable p s) (n : Nat) (times : Nat → Clock) :
    Reachable p (s.executeAt times n).2
  | interrupt {s : Session} (h : Reachable p s) : Reachable p s.interrupt
  | wake {s : Session} (h : Reachable p s) : Reachable p s.wake
  | reset {s : Session} (h : Reachable p s) : Reachable p s.reset
  | host {s : Session} (h : Reachable p s) (host : Host) : Reachable p { s with host }

/-- What holds at the start, after a reset and after every step, and does not
depend on the host or on why a program waits, holds always. -/
theorem Reachable.induct {p : Program} {P : Session → Prop} {s : Session} (h : Reachable p s)
    (hstart : ∀ seed host, P (Session.start p seed host)) (hstep : ∀ s, P s → P s.step.2)
    (hreset : ∀ s, P s → P s.reset) (hhalt : ∀ s, P s → P s.halt)
    (houtside : ∀ s host wakeAt interrupted, P s → P { s with host, wakeAt, interrupted }) :
    P s := by
  have hcycle : ∀ n times s, P s → P (s.cycle times n).2 := by
    intro n
    induction n with
    | zero => exact fun _ s hs => hs
    | succ n ih =>
      intro times s hs
      have hthen : P (s.atTime (times 0)) :=
        houtside s (s.atTime (times 0)).host s.wakeAt s.interrupted hs
      have hnext := hstep _ hthen
      rw [cycle]
      split
      · rename_i t ht
        rw [ht] at hnext
        split
        · exact hnext
        · exact ih _ t hnext
      · rename_i t ht
        rwa [ht] at hnext
      · rename_i t ht
        rwa [ht] at hnext
  have hawake : ∀ n times s, P s → P (s.executeAwake times n).2 := by
    intro n times s hs
    have hcalm : P { s with interrupted := false } := houtside s s.host s.wakeAt false hs
    unfold executeAwake
    split
    · dsimp only
      split
      · exact hcalm
      · exact hhalt _ hcalm
    · split
      · exact hs
      · exact hcycle n times s hs
  induction h with
  | start seed host => exact hstart seed host
  | step _ ih => exact hstep _ ih
  | execute _ n times ih =>
    rename_i s _
    unfold executeAt
    split
    · split
      · exact ih
      · exact hawake n times _ (houtside s s.host none s.interrupted ih)
    · exact hawake n times s ih
  | interrupt _ ih =>
    rename_i s _
    exact houtside s s.host s.wakeAt true ih
  | wake _ ih =>
    rename_i s _
    exact houtside s s.host none s.interrupted ih
  | reset _ ih => exact hreset _ ih
  | host _ host ih =>
    rename_i s _
    exact houtside s host s.wakeAt s.interrupted ih

/-- If no step can fail but in one way, and neither can an interrupt, then no
run can. -/
theorem Reachable.execute_failed {p : Program} {Q : Error → Prop} {s : Session} {e : Error}
    {n : Nat} {times : Nat → Clock} (h : Reachable p s)
    (hstep : ∀ s e, Reachable p s → s.step.1 = .failed e → Q e)
    (hbreak : ∀ line, Q (Error.interrupted line)) (he : (s.executeAt times n).1 = .failed e) :
    Q e := by
  have hcycle : ∀ n times s, Reachable p s → (s.cycle times n).1 = .failed e → Q e := by
    intro n
    induction n with
    | zero => exact fun _ s _ he => by cases he
    | succ n ih =>
      intro times s hs he
      have hthen : Reachable p (s.atTime (times 0)) := hs.host _
      have hnext := hthen.step
      have hfail := hstep _ e hthen
      rw [cycle] at he
      split at he
      · rename_i t ht
        rw [ht] at hnext
        split at he
        · cases he
        · exact ih _ t hnext he
      · cases he
      · rename_i e' t ht
        cases he
        exact hfail (congrArg Prod.fst ht)
  have hawake : ∀ s, Reachable p s → (s.executeAwake times n).1 = .failed e → Q e := by
    intro s hs he
    unfold executeAwake at he
    split at he
    · dsimp only at he
      split at he
      · cases he
      · cases he
        exact hbreak _
    · split at he
      · cases he
      · exact hcycle n times s hs he
  unfold executeAt at he
  split at he
  · split at he
    · cases he
    · exact hawake _ h.wake he
  · exact hawake s h he

end Session

end LineBasic
