-- Two sessions side by side, the second in a program to which the lines of the
-- first were moved. A step of both comes to the same: they go on, end or fail
-- together, and they stay side by side.
import LineBasic.Proofs.Carriage
import LineBasic.Proofs.Types

namespace LineBasic

/-! ## Calls -/

/-- Every call notes the line after the one that it was made from. -/
def Variables.Called (vars : Variables) : Prop := ∀ o ∈ vars.calls.items, ∃ l, o = some (l + 1)

namespace Variables

variable {vars : Variables}

theorem stable_called : Stable Called where
  store {vars} v c h := by
    unfold Called
    rw [calls_store]
    exact h
  enterCall {vars vars' line aliases} h hvars := by
    obtain ⟨hitems, _⟩ := enterCall_eq_ok hvars
    intro o ho
    simp only [calls, hitems, List.map_append, List.map_singleton, List.mem_append,
      List.mem_singleton] at ho
    rcases ho with ho | ho
    · exact h o ho
    · exact ⟨line, ho⟩

theorem Called.cutTo (h : vars.Called) (depth : Nat) : (vars.cutTo depth).Called := by
  intro o ho
  rw [calls_cutTo] at ho
  exact h o (List.mem_of_mem_take ho)

/-- The line to return to follows the line of the call. -/
theorem Called.leaveCall_line (h : vars.Called) {line : Nat} (hl : vars.leaveCall.1 = some line) :
    ∃ l, line = l + 1 := by
  rw [Variables.leaveCall_line] at hl
  cases htop : vars.calls.top? with
  | none => rw [htop] at hl; cases hl
  | some o =>
    rw [htop] at hl
    obtain ⟨l, rfl⟩ := h o (List.mem_of_getLast? htop)
    exact ⟨l, (Option.some.inj hl).symm⟩

/-- The line of a call is moved with the call. -/
theorem Called.callSite_moved (h : vars.Called) (place : Nat → Nat) (depth : Nat) :
    (vars.moved place).callSite depth = (vars.callSite depth).map place := by
  simp only [callSite, moved, Stack.mapItems_get?]
  cases hs : vars.scopes.get? depth with
  | none => rfl
  | some scope =>
    have hmem : scope.returnLine ∈ vars.calls.items :=
      List.mem_map.2 ⟨scope, List.mem_of_getElem? hs, rfl⟩
    obtain ⟨l, hl⟩ := h _ hmem
    simp only [Option.map_some, Option.bind_some, Scope.moved, hl, afterMoved]
    rfl

end Variables

/-! ## Errors and TRY blocks -/

theorem Error.inLine_moved (e : Error) (place : Nat → Nat) (line : Nat) :
    (e.moved place).inLine (place line) = (e.inLine line).moved place := by
  obtain ⟨code, l, message⟩ := e
  cases l <;> rfl

/-- What became of a step, with the line of an error moved. -/
def Outcome.moved (place : Nat → Nat) : Outcome → Outcome
  | .failed e => .failed (e.moved place)
  | outcome => outcome

namespace Session

theorem tryRegion_moved (place : Nat → Nat) (f : Frame) (t : TryBlock) :
    tryRegion (f.moved place) (t.moved place) =
      (tryRegion f t).map fun r => (place r.1, place r.2) := by
  obtain ⟨phase, catchLine, finallyLine, pending⟩ := t
  cases phase <;> cases catchLine <;> cases finallyLine <;> rfl

theorem handler?_moved (place : Nat → Nat) (t : TryBlock) (e : Error) :
    handler? (t.moved place) (e.moved place) =
      (handler? t e).map fun r => (place r.1, r.2.moved place) := by
  obtain ⟨phase, catchLine, finallyLine, pending⟩ := t
  cases phase <;> cases catchLine <;> cases finallyLine <;> rfl

/-! ## Side by side -/

/-- The second session holds what the first holds, with lines moved. Nothing is said
about the time and about the lines that the two are at. -/
structure Beside (place : Nat → Nat) (s t : Session) : Prop where
  «variables» : t.memory.variables = s.memory.variables.moved place
  trail : t.memory.trail = s.memory.trail
  keyboard : t.memory.keyboard = s.memory.keyboard
  frames : t.frames = s.frames.moved place
  screen : t.host.screen = s.host.screen
  sound : t.host.sound = s.host.sound
  files : t.host.files = s.host.files
  views : t.host.views = s.host.views
  stopped : t.stopped = s.stopped
  asleep : t.wakeAt.isSome = s.wakeAt.isSome
  called : s.memory.variables.Called

variable {place : Nat → Nat} {s t : Session}

/-- Two steps that came to the same. A program that ends stays at its line, and one
that goes on lands where the other does. -/
structure Abreast (place : Nat → Nat) (r r' : Outcome × Session) : Prop where
  outcome : r'.1 = r.1.moved place
  beside : r.2.Beside place r'.2
  line : r'.2.line = place r.2.line ∨ r.1 = .onward ∧ Lands place r.2.line r'.2.line

namespace Beside

theorem depth (h : s.Beside place t) : t.depth = s.depth := by
  unfold Session.depth
  rw [h.variables, Variables.depth_moved]

theorem halt (h : s.Beside place t) : s.halt.Beside place t.halt :=
  { h with stopped := rfl }

theorem goTo (h : s.Beside place t) (a b : Nat) : (s.goTo a).Beside place (t.goTo b) :=
  { h with }

/-- Calls are left and frames dropped on both sides. -/
theorem cut (h : s.Beside place t) {vars : Variables} (hvars : vars.Called) (fs : Frames) :
    Beside place { s with memory := { s.memory with «variables» := vars }, frames := fs }
      { t with
        memory := { t.memory with «variables» := vars.moved place }
        frames := fs.moved place } :=
  { h with «variables» := rfl, frames := rfl, called := hvars }

theorem ended (h : s.Beside place t) (hline : t.line = place s.line) :
    Abreast place (.ended, s.halt) (.ended, t.halt) := ⟨rfl, h.halt, Or.inl hline⟩

theorem failed (h : s.Beside place t) (hline : t.line = place s.line) (e : Error) :
    Abreast place (.failed e, s.halt) (.failed (e.moved place), t.halt) :=
  ⟨rfl, h.halt, Or.inl hline⟩

theorem onward (h : s.Beside place t) {a b : Nat} (hab : Lands place a b) :
    Abreast place (.onward, s.goTo a) (.onward, t.goTo b) := ⟨rfl, h.goTo a b, Or.inr ⟨rfl, hab⟩⟩

theorem returnFromCall (h : s.Beside place t) (hline : t.line = place s.line) :
    Abreast place s.returnFromCall t.returnFromCall := by
  have hleave : t.memory.variables.leaveCall =
      (s.memory.variables.leaveCall.1.map (afterMoved place),
        s.memory.variables.leaveCall.2.moved place) := by
    rw [h.variables, Variables.leaveCall_moved]
  have hcalled : s.memory.variables.leaveCall.2.Called := by
    rw [Variables.leaveCall_eq_cutTo]
    exact h.called.cutTo _
  have hreturn : ∀ l, s.memory.variables.leaveCall.1 = some l → ∃ k, l = k + 1 :=
    fun l => h.called.leaveCall_line
  unfold Session.returnFromCall
  rw [h.depth, hleave]
  split
  · exact h.ended hline
  · generalize s.memory.variables.leaveCall = r at hcalled hreturn
    obtain ⟨target, vars⟩ := r
    dsimp only at hcalled hreturn ⊢
    have hnext := h.cut hcalled (s.frames.unwind vars.depth)
    rw [Frames.unwind_moved, ← h.frames, ← vars.depth_moved place] at hnext
    rw [vars.depth_moved place] at hnext ⊢
    cases target with
    | none => exact hnext.ended hline
    | some l =>
      obtain ⟨k, rfl⟩ := hreturn l rfl
      exact hnext.onward (lands_after place k)

/-- What a statement says is followed on both sides. -/
theorem follow (h : s.Beside place t) (hline : t.line = place s.line) {flow flow' : Flow}
    (hflow : flow.Moved place flow') : Abreast place (s.follow flow) (t.follow flow') := by
  have hnext : Lands place (s.line + 1) (t.line + 1) := by
    rw [hline]
    exact lands_after place s.line
  cases hflow with
  | next => exact h.onward hnext
  | jump hab => exact h.onward hab
  | «return» => exact h.returnFromCall hline
  | stop => exact h.ended hline
  | rest delay => exact ⟨rfl, { h with asleep := rfl }, Or.inr ⟨rfl, hnext⟩⟩

end Beside

/-! ## Recovery -/

namespace Beside

variable (hplace : ∀ {a b}, place a < place b ↔ a < b)

include hplace

theorem failedWithin (h : s.Beside place t) (hline : t.line = place s.line) (depth low high : Nat) :
    t.failedWithin depth (place low) (place high) = s.failedWithin depth low high := by
  have hseen : t.lineSeenFrom depth = (s.lineSeenFrom depth).map place := by
    unfold lineSeenFrom
    rw [h.depth, h.variables, h.called.callSite_moved, hline]
    split
    · rfl
    · split <;> rfl
  unfold Session.failedWithin
  rw [hseen]
  cases s.lineSeenFrom depth with
  | none => rfl
  | some line => simp only [Option.map_some, hplace]

end Beside

variable {m : Relocation}

/-- The message of an error is stored under the same name on both sides. -/
theorem Beside.bindError (h : s.Beside m.place t) (hold : s.program = m.old)
    (hnew : t.program = m.new) (line : Nat) (e : Error) :
    (∃ s' t', s.bindError line e = .ok s' ∧
        t.bindError (m.place line) (e.moved m.place) = .ok t' ∧ s'.Beside m.place t') ∨
      ∃ f, f.line = none ∧ s.bindError line e = .error f ∧
        t.bindError (m.place line) (e.moved m.place) = .error f := by
  have hst : t.program.statement? (m.place line) = s.program.statement? line := by
    rw [hold, hnew, m.statement?]
  unfold Session.bindError
  rw [hst]
  split
  · rename_i name _
    have hdescription : (e.moved m.place).description = e.description := rfl
    have hlocal : t.memory.variables.hasLocal name = s.memory.variables.hasLocal name := by
      rw [h.variables, Variables.hasLocal_moved]
    rw [hdescription, hlocal]
    dsimp only [Memory.set]
    cases hfit : fitTo name (.string e.description) with
    | error f => exact Or.inr ⟨f, (Run.mild_fitTo _ _ f hfit).line, rfl, rfl⟩
    | ok w =>
      refine Or.inl ⟨_, _, rfl, rfl, { h with «variables» := ?_, trail := ?_, called := ?_ }⟩
      · change t.memory.variables.put name w _ = (s.memory.variables.put name w _).moved m.place
        rw [h.variables, Variables.put_moved]
      · exact congrArg (·.remember name) h.trail
      · exact Variables.stable_called.store w _ h.called
  · exact Or.inl ⟨s, t, rfl, rfl, h⟩

theorem Beside.resume (h : s.Beside m.place t) (hold : s.program = m.old) (hnew : t.program = m.new)
    (hline : t.line = m.place s.line) (i line : Nat) (f : Frame) (b : TryBlock) (e : Error) :
    Abreast m.place (s.resume i f line b e)
      (t.resume i (f.moved m.place) (m.place line) (b.moved m.place) (e.moved m.place)) := by
  have hcut := h.cut (h.called.cutTo f.depth)
    ((s.frames.truncate (i + 1)).modify i fun f => { f with state := .try b })
  rw [Variables.cutTo_moved, ← h.variables, Frames.modify_moved, Frames.truncate_moved,
    ← h.frames] at hcut
  dsimp only [FrameState.moved] at hcut
  unfold Session.resume
  dsimp only [Frame.moved]
  have hphase : (b.moved m.place).phase = b.phase := rfl
  rw [hphase]
  by_cases hb : b.phase = .catch
  · rw [if_pos hb, if_pos hb]
    rcases hcut.bindError hold hnew line e with ⟨s', t', hs', ht', hbeside⟩ | ⟨g, hg, hs', ht'⟩
    · rw [hs', ht']
      exact hbeside.onward (lands_after m.place line)
    · rw [hs', ht']
      have hfailed := hcut.failed hline g
      rw [Error.moved_of_line _ hg] at hfailed
      exact hfailed
  · rw [if_neg hb, if_neg hb]
    exact hcut.onward (lands_after m.place line)

theorem Beside.recoverFrom (h : s.Beside m.place t) (hold : s.program = m.old)
    (hnew : t.program = m.new) (hline : t.line = m.place s.line) (e : Error) (n : Nat) :
    Abreast m.place (s.recoverFrom e n) (t.recoverFrom (e.moved m.place) n) := by
  induction n generalizing s t with
  | zero => exact h.failed hline e
  | succ i ih =>
    have hnext := ih h hold hnew hline
    have herase : Abreast m.place
        (Session.recoverFrom { s with frames := s.frames.erase i } e i)
        (Session.recoverFrom { t with frames := t.frames.erase i } (e.moved m.place) i) := by
      refine ih { h with frames := ?_ } hold hnew hline
      change t.frames.erase i = Stack.mapItems (s.frames.erase i) _
      rw [Stack.mapItems_erase, h.frames]
      rfl
    rw [Session.recoverFrom, Session.recoverFrom, h.frames, Frames.get?_moved]
    rw [h.frames] at herase
    cases s.frames.get? i with
    | none => exact hnext
    | some f =>
      obtain ⟨first, last, depth, state⟩ := f
      cases state with
      | «try» b =>
        have hregion := tryRegion_moved m.place ⟨first, last, depth, .try b⟩ b
        have hhandler := handler?_moved m.place b e
        dsimp only [Option.map_some, Frame.moved, FrameState.moved] at hregion ⊢
        rw [hregion]
        cases tryRegion ⟨first, last, depth, .try b⟩ b with
        | none => exact hnext
        | some region =>
          dsimp only [Option.map_some]
          rw [h.failedWithin m.place_lt hline, hhandler]
          split
          · cases handler? b e with
            | none => exact hnext
            | some r => exact h.resume hold hnew hline i r.1 ⟨first, last, depth, .try b⟩ r.2 e
          · exact herase
      | «if» | «while» | «do» | «for» | select | sub => exact hnext

theorem Beside.recover (h : s.Beside m.place t) (hold : s.program = m.old)
    (hnew : t.program = m.new) (hline : t.line = m.place s.line) (e : Error) :
    Abreast m.place (s.recover e) (t.recover (e.moved m.place)) := by
  have hsize : t.frames.size = s.frames.size := by
    rw [h.frames]
    exact Stack.mapItems_size _ _
  have hstructural : (e.moved m.place).isStructural = e.isStructural := rfl
  unfold Session.recover
  rw [hsize, hstructural]
  split
  · exact h.failed hline e
  · exact h.recoverFrom hold hnew hline e _

/-! ## One step -/

/-- Sessions at the same line are in states that the relocation takes to each other,
if it takes one clock to the other. -/
theorem Beside.toState_eq (h : s.Beside m.place t) (hline : t.line = m.place s.line)
    (hclock : t.host.clock = m.clock s.host.clock) : t.toState = m.state s.toState := by
  obtain ⟨⟨memory, frames, host⟩, _, _, _, _⟩ := t
  obtain ⟨vars, trail, line, keyboard⟩ := memory
  obtain ⟨screen, sound, files, views, clock⟩ := host
  obtain ⟨hvars, htrail, hkeyboard, hframes, hscreen, hsound, hfiles, hviews, _, _, _⟩ := h
  dsimp only [Session.line] at *
  subst hvars htrail hkeyboard hframes hscreen hsound hfiles hviews hline hclock
  rfl

/-- A step at a line and a step at the place of that line come to the same. -/
theorem Beside.step (h : s.Beside m.place t) (hold : s.program = m.old) (hnew : t.program = m.new)
    (hline : t.line = m.place s.line) (hclock : t.host.clock = m.clock s.host.clock) :
    Abreast m.place s.step t.step := by
  have hst : t.program.statement? t.line = s.program.statement? s.line := by
    rw [hold, hnew, hline, m.statement?]
  unfold Session.step
  rw [h.stopped, hst]
  split
  · exact ⟨rfl, h, Or.inl hline⟩
  · cases hs : s.program.statement? s.line with
    | none => exact h.ended hline
    | some st =>
      have hmeets := Run.directs_execute (m := m) (I := Variables.Called) (hold ▸ hs)
        (fun _ => Variables.stable_called) s.toState ⟨rfl, h.called⟩
      rw [← h.toState_eq hline hclock, ← hold, ← hnew] at hmeets
      have hwith : ∀ u : State, u.memory.variables.Called →
          (s.withState u).Beside m.place (t.withState (m.state u)) := fun u hu =>
        ⟨rfl, rfl, rfl, rfl, rfl, rfl, rfl, rfl, h.stopped, h.asleep, hu⟩
      dsimp only
      cases hx : Run.execute st s.program s.toState <;>
        cases hy : Run.execute st t.program t.toState <;> rw [hx, hy] at hmeets
      · obtain ⟨hflow, rfl, _, hcalled⟩ := hmeets
        exact (hwith _ hcalled).follow rfl hflow
      · exact hmeets.elim
      · exact hmeets.elim
      · rename_i e u f v
        obtain ⟨rfl, rfl, _, hcalled⟩ := hmeets
        have hrecover := (hwith u hcalled).recover hold hnew rfl (e.inLine s.line)
        rw [← Error.inLine_moved, ← hline] at hrecover
        exact hrecover

end Session

end LineBasic
