-- What one step does at each line of a block that chooses or repeats, exactly.
-- A step law names the computation that decides the step and, for each result,
-- the line and the blocks that the program goes on with.
import LineBasic.Proofs.Control
import LineBasic.Proofs.Steps
import LineBasic.Proofs.Worlds

namespace LineBasic

/-! ## A frame on top -/

namespace Frames

variable {fs : Frames} {f : Frame}

/-- The stack with one more frame. -/
def above (fs : Frames) (f : Frame) : Frames := { fs with items := fs.items ++ [f] }

theorem enter_eq (hp : fs.place? f.first f.depth = none) (hl : fs.items.length < fs.limit) :
    fs.enter f = .ok (fs.above f) := by
  unfold enter
  rw [leave_of_none _ hp]
  exact fs.push_of_lt hl

theorem place?_above (fs : Frames) (f : Frame) :
    (fs.above f).place? f.first f.depth = some fs.items.length :=
  place?_of_top _ rfl rfl rfl

theorem get?_above (fs : Frames) (f : Frame) : (fs.above f).get? fs.items.length = some f :=
  List.getElem?_concat_length

theorem truncate_above (fs : Frames) (f : Frame) :
    (fs.above f).truncate (fs.items.length + 1) = fs.above f :=
  Stack.truncate_all _ (by simp [above])

theorem leave_above (fs : Frames) (f : Frame) : (fs.above f).leave f.first f.depth = fs := by
  rw [leave_of_some _ (place?_above fs f)]
  refine Stack.eq_of_items rfl rfl ?_
  rw [Stack.truncate_items, above, List.take_left]

theorem modify_above (fs : Frames) (f : Frame) (g : Frame → Frame) :
    (fs.above f).modify fs.items.length g = fs.above (g f) := by
  have hitems := truncate_modify_items _ (get?_above fs f) g
  rw [truncate_above] at hitems
  refine Stack.eq_of_items rfl rfl ?_
  rw [hitems, above, List.take_left]
  rfl

/-- No block of the stack takes an error. -/
def NoTry (fs : Frames) : Prop := ∀ f ∈ fs.items, f.kind ≠ .try

theorem NoTry.above (h : fs.NoTry) (hf : f.kind ≠ .try) : (fs.above f).NoTry := by
  intro g hg
  rcases List.mem_append.1 hg with hg | hg
  · exact h g hg
  · obtain rfl := List.mem_singleton.1 hg
    exact hf

end Frames

/-! ## From decisions to steps -/

/-- On to a line, at once. -/
def Flow.Leads (line target : Nat) (flow : Flow) : Prop :=
  flow = .next ∧ target = line + 1 ∨ flow = .jump target

section Decisions

variable {α : Type} {p : Program} {st : Statement} {w : World} {line : Nat} {fs fs' : Frames}

/-- In a world `w`, what a statement does is decided by `x` alone. -/
def Decides (p : Program) (st : Statement) (w : World) (line : Nat) (fs fs' : Frames) (x : Run α)
    (next : α → Nat × Frames) : Prop :=
  ∀ ⦃Q : Flow → State → Prop⦄ ⦃E : Error → State → Prop⦄,
    (∀ a v flow ⦃target : Nat⦄ ⦃top : Frames⦄, w.does x = (.ok a, v) → next a = (target, top) →
      flow.Leads line target → Q flow (v.state line top)) →
    (∀ e v, w.does x = (.error e, v) → E e (v.state line fs')) →
    Run.After (Run.execute st) p (w.state line fs) Q E

theorem after_does {ok : Error → Prop} {x : Run α} {Q : α → State → Prop}
    {E : Error → State → Prop} (hx : Run.Steady ok x)
    (hQ : ∀ a v, w.does x = (.ok a, v) → v.depth = w.depth → Q a (v.state line fs))
    (hE : ∀ e v, w.does x = (.error e, v) → E e (v.state line fs)) :
    Run.After x p (w.state line fs) Q E := by
  have hdepth := w.does_depth hx
  unfold Run.After
  rw [w.does_eq hx]
  generalize w.does x = r at hQ hE hdepth
  obtain ⟨a | e, v⟩ := r
  · exact hE _ v rfl
  · exact hQ _ v rfl hdepth

theorem recoverFrom_noTry {s : Session} (e : Error) (n : Nat) (h : s.frames.NoTry) :
    s.recoverFrom e n = (.failed e, s.halt) := by
  induction n with
  | zero => rfl
  | succ n ih =>
    rw [Session.recoverFrom]
    split
    · rename_i f hf
      have hkind := h f (List.mem_of_getElem? hf)
      split
      · rename_i t ht
        exact absurd (by rw [Frame.kind, ht]; rfl) hkind
      · exact ih
    · exact ih

theorem recover_noTry {s : Session} (e : Error) (h : s.frames.NoTry) :
    s.recover e = (.failed e, s.halt) := by
  unfold Session.recover
  split
  · rfl
  · exact recoverFrom_noTry e _ h

/-- A step of a running session is the execution of its statement. -/
theorem step_eq {s : Session} {r : Outcome × Session} (hstop : s.stopped = false)
    (hst : s.program.statement? line = some st)
    (h : Run.After (Run.execute st) s.program (w.state line fs)
      (fun flow t => ((s.put w line fs).withState t).follow flow = r)
      fun e t => ((s.put w line fs).withState t).recover (e.inLine line) = r) :
    (s.put w line fs).step = r := by
  unfold Session.step
  have hstop' : (s.put w line fs).stopped = false := hstop
  have hst' : (s.put w line fs).program.statement? (s.put w line fs).line = some st := hst
  rw [if_neg (by simp [hstop']), hst']
  unfold Run.After at h
  have hx : Run.execute st (s.put w line fs).program (s.put w line fs).toState =
      Run.execute st s.program (w.state line fs) := rfl
  dsimp only
  rw [hx]
  cases hr : Run.execute st s.program (w.state line fs) with
  | ok flow t =>
    rw [hr] at h
    exact h
  | error e t =>
    rw [hr] at h
    exact h

/-- A line that is decided by `x`, where no block takes an error. -/
theorem Decides.step {s : Session} {x : Run α} {next : α → Nat × Frames}
    (h : Decides s.program st w line fs fs' x next) (hstop : s.stopped = false)
    (hst : s.program.statement? line = some st) (hf : fs'.NoTry) :
    (s.put w line fs).step = s.decided line fs' x next w := by
  have hwake := w.does_wakeAt x
  refine step_eq hstop hst (h (fun a v flow target top hv hn hl => ?_) fun e v hv => ?_)
  · rw [hv] at hwake
    rw [s.withState_put line line fs _ hwake, Session.decided, hv]
    dsimp only
    rw [hn]
    rcases hl with ⟨rfl, rfl⟩ | rfl <;> rfl
  · rw [hv] at hwake
    rw [s.withState_put line line fs _ hwake, Session.decided, hv]
    exact recover_noTry _ hf

/-- The same decision, told in another way. -/
theorem Decides.map {β : Type} {x : Run α} {next : α → Nat × Frames}
    {f : α → β} {next' : β → Nat × Frames} (h : Decides p st w line fs fs' x next)
    (hn : ∀ a, next' (f a) = next a) :
    Decides p st w line fs fs' (do return f (← x)) next' := by
  intro Q E hQ hE
  have hmap := w.does_map x f
  refine h (fun a v flow target top hv ha hl => ?_) fun e v hv => ?_
  · rw [hv] at hmap
    exact hQ (f a) v flow hmap ((hn a).trans ha) hl
  · rw [hv] at hmap
    exact hE e v hmap

/-- A plain line that is no jump, where no block takes an error. -/
theorem step_steady {s : Session} (hs : st.isSteady = true) (hstop : s.stopped = false)
    (hst : s.program.statement? line = some st) (hf : fs.NoTry) :
    (s.put w line fs).step = match w.does (Run.execute st) with
      | (.ok flow, v) => (.onward, s.put (v.resting flow) (line + 1) fs)
      | (.error e, v) => (.failed (e.inLine line), (s.put v line fs).halt) := by
  have hwake := w.does_wakeAt (Run.execute st)
  have honward := Run.onward_execute st hs s.program (w.state line fs)
  have hdoes := w.does_eq (Run.steady_execute st hs) s.program line fs
  refine step_eq hstop hst ?_
  unfold Run.After at honward ⊢
  rw [hdoes] at honward ⊢
  generalize w.does (Run.execute st) = r at hwake honward
  obtain ⟨e | flow, v⟩ := r
  · change ((s.put w line fs).withState (v.state line fs)).recover _ = _
    rw [s.withState_put line line fs _ hwake]
    exact recover_noTry _ hf
  · change ((s.put w line fs).withState (v.state line fs)).follow flow = _
    rw [s.withState_put line line fs _ hwake]
    change flow.isOnward = true at honward
    cases flow with
    | next => rfl
    | rest delay => rfl
    | jump | «return» | stop => cases honward

end Decisions

namespace World

variable (w : World) (line : Nat) (fs fs' : Frames)

@[simp] theorem state_line : (w.state line fs).memory.line = line := rfl

@[simp] theorem state_frames : (w.state line fs).frames = fs := rfl

@[simp] theorem state_depth : (w.state line fs).memory.variables.depth = w.depth := rfl

@[simp] theorem state_withFrames :
    ({ w.state line fs with frames := fs' } : State) = w.state line fs' := rfl

end World

/-! ## Choices -/

section Choices

variable {p : Program} {st first : Statement} {e : Expression} {negated : Bool}
  {place level : Nat} {behind : List Line} {parts rest : Parts} {body : Body} {w : World}
  {fs : Frames} {d : Nat}

/-- The first line of a block finds the last. -/
theorem BlockAt.closer_last (hb : BlockAt p place level st [] parts) :
    p.closer place st.closedBy = some (place + parts.size) := by
  rw [hb.closer]
  exact parts.find_closedBy place hb.nested

/-- The first line of a choice finds its first clause or, without one, the last line. -/
theorem BlockAt.closer_next (hb : BlockAt p place level st [] parts) (hs : st.branches = true) :
    p.closer place st.branchEndedBy = some (place + 1 + parts.ahead.size) := by
  rw [hb.closer]
  exact Parts.find_next (place + 1) hb.nested fun _ => Statement.branchEndedBy_of_own hs

theorem decides_if (hs : st = .if e ∧ negated = false ∨ st = .unless e ∧ negated = true)
    (hb : BlockAt p place level st [] parts) (hp : fs.place? place d = none)
    (hl : fs.items.length < fs.limit) (hd : w.depth = d) :
    Decides p st w place fs fs (Run.condition e) fun taken =>
      (if taken != negated then place + 1 else place + 1 + parts.ahead.size,
        fs.above ⟨place, place + parts.size, d, .if (taken != negated)⟩) := by
  intro Q E hQ hE
  have hx : Run.execute st = Run.ifStatement e negated := by
    rcases hs with ⟨rfl, rfl⟩ | ⟨rfl, rfl⟩ <;> rfl
  have hlast : p.closer place Statement.closesIf = some (place + parts.size) := by
    rw [← hb.closer_last]
    rcases hs with ⟨rfl, _⟩ | ⟨rfl, _⟩ <;> rfl
  have hnext : p.closer place Statement.endsIfBranch = some (place + 1 + parts.ahead.size) := by
    rw [← hb.closer_next (by rcases hs with ⟨rfl, _⟩ | ⟨rfl, _⟩ <;> rfl)]
    rcases hs with ⟨rfl, _⟩ | ⟨rfl, _⟩ <;> rfl
  rw [hx]
  unfold Run.ifStatement Run.endOfIf Run.clauseOr
  simp only [Run.after_bind, Run.after_line, Run.after_closer, Run.after_require, Run.after_enter,
    Run.after_ite, Run.after_pure, World.state_line, hlast, hnext, Option.getD_some]
  refine ⟨fun stop hstop => ?_, fun h => by cases h⟩
  cases hstop
  refine after_does (Run.steady_condition e) (fun taken v hv hdepth => ?_) hE
  rw [World.state_frames, World.state_depth, hdepth, hd, Frames.enter_eq hp hl]
  refine ⟨fun fs' hfs => ?_, fun er h => by cases h⟩
  cases hfs
  exact ⟨fun ht => hQ taken v _ hv (Prod.ext (if_pos ht) rfl) (Or.inl ⟨rfl, rfl⟩),
    fun ht => hQ taken v _ hv (Prod.ext (if_neg ht) rfl) (Or.inr rfl)⟩

/-- A clause finds the next one or, after the last clause, the last line. -/
theorem BlockAt.closer_clause_next {dividing : Statement}
    (hb : BlockAt p place level first behind (.clause body dividing rest))
    (hs : first.branches = true) :
    p.closer (place + 1 + behind.length + body.size) first.branchEndedBy =
      some (place + 1 + behind.length + body.size + 1 + rest.ahead.size) := by
  rw [hb.closer_clause]
  exact Parts.find_next _ hb.next.nested fun _ => Statement.branchEndedBy_of_own hs

/-- The frame of an IF block that is open. -/
theorem after_ifBlock_above {f : Frame} {line : Nat} {Q : Run.IfBlock → State → Prop}
    {E : Error → State → Prop} (hd : f.depth = w.depth)
    (hQ : Q (.active fs.items.length f) (w.state line (fs.above f))) :
    Run.After (Run.ifBlock f.first) p (w.state line (fs.above f)) Q E := by
  unfold Run.ifBlock
  simp only [Run.after_bind, Run.after_framePlace, World.state_frames, World.state_depth, ← hd,
    Frames.place?_above, Run.after_frames, Run.after_require, Frames.get?_above, Run.after_pure]
  refine ⟨fun g hg => ?_, fun h => by cases h⟩
  cases hg
  exact hQ

variable {line last : Nat}

/-- An ELSEIF of a block that has not taken a branch. -/
theorem decides_elseIf
    (hb : BlockAt p place level first behind (.clause body (.elseIf e) rest))
    (hline : line = place + 1 + behind.length + body.size) (hd : w.depth = d) :
    Decides p (.elseIf e) w line (fs.above ⟨place, last, d, .if false⟩)
      (fs.above ⟨place, last, d, .if false⟩) (Run.condition e) fun taken =>
      (if taken then line + 1 else line + 1 + rest.ahead.size,
        fs.above ⟨place, last, d, .if taken⟩) := by
  intro Q E hQ hE
  subst hline
  have ho : p.opener _ Statement.opensIf = some place := hb.opener_clause
  have hnext : p.closer (place + 1 + behind.length + body.size) Statement.endsIfBranch =
      some (place + 1 + behind.length + body.size + 1 + rest.ahead.size) := by
    have hn := hb.nested
    simp only [Parts.nested, Bool.and_eq_true] at hn
    cases first with
    | «if» c => exact hb.closer_clause_next rfl
    | _ => cases hn.1.2
  change Run.After (Run.elseIfStatement e) _ _ _ _
  unfold Run.elseIfStatement Run.clauseOr
  simp only [Run.after_bind, Run.after_line, Run.after_opener, Run.after_require,
    World.state_line, ho]
  refine ⟨fun start hstart => ?_, fun h => by cases h⟩
  cases hstart
  refine after_ifBlock_above (f := ⟨place, last, d, .if false⟩) hd.symm ?_
  simp only [Run.branchTaken, Bool.false_eq_true, if_false, Run.after_bind]
  refine after_does (Run.steady_condition e) (fun taken v hv _ => ?_) hE
  simp only [Run.after_ite, Run.after_bind, Run.after_setFrameState, Run.after_pure,
    Run.after_closer, World.state_frames, Frames.modify_above, hnext, Option.getD_some]
  refine ⟨fun ht => ?_, fun ht => ?_⟩
  · subst ht
    exact hQ true v _ hv rfl (Or.inl ⟨rfl, rfl⟩)
  · obtain rfl : taken = false := by simpa using ht
    exact hQ false v _ hv rfl (Or.inr rfl)

/-- An ELSE of a block that has not taken a branch. -/
theorem decides_else (hb : BlockAt p place level first behind (.clause body .else rest))
    (hline : line = place + 1 + behind.length + body.size) (hd : w.depth = d) :
    Decides p .else w line (fs.above ⟨place, last, d, .if false⟩)
      (fs.above ⟨place, last, d, .if false⟩) (pure ()) fun _ =>
      (line + 1, fs.above ⟨place, last, d, .if true⟩) := by
  intro Q E hQ hE
  subst hline
  have ho : p.opener _ Statement.opensIfOrUnless = some place := hb.opener_clause
  change Run.After Run.elseStatement _ _ _ _
  unfold Run.elseStatement
  simp only [Run.after_bind, Run.after_line, Run.after_opener, Run.after_require,
    World.state_line, ho]
  refine ⟨fun start hstart => ?_, fun h => by cases h⟩
  cases hstart
  refine after_ifBlock_above (f := ⟨place, last, d, .if false⟩) hd.symm ?_
  simp only [Run.branchTaken, Bool.false_eq_true, if_false, Run.after_bind,
    Run.after_setFrameState, Run.after_pure, World.state_frames, Frames.modify_above]
  exact hQ () w _ rfl rfl (Or.inl ⟨rfl, rfl⟩)

theorem decides_select (hb : BlockAt p place level (.select e) [] parts)
    (hp : fs.place? place d = none) (hl : fs.items.length < fs.limit) (hd : w.depth = d) :
    Decides p (.select e) w place fs fs (Run.value e) fun v =>
      (place + 1 + parts.ahead.size,
        fs.above ⟨place, place + parts.size, d, .select v false⟩) := by
  intro Q E hQ hE
  have hlast : p.closer place Statement.closesSelect = some (place + parts.size) := hb.closer_last
  have hnext : p.closer place Statement.endsCase = some (place + 1 + parts.ahead.size) :=
    hb.closer_next rfl
  change Run.After (Run.selectStatement e) _ _ _ _
  unfold Run.selectStatement Run.endOfSelect Run.clauseOr
  simp only [Run.after_bind, Run.after_line, Run.after_closer, Run.after_require, Run.after_enter,
    Run.after_pure, World.state_line, hlast, hnext, Option.getD_some]
  refine ⟨fun stop hstop => ?_, fun h => by cases h⟩
  cases hstop
  refine after_does (Run.steady_value e) (fun selector v hv hdepth => ?_) hE
  rw [World.state_frames, World.state_depth, hdepth, hd, Frames.enter_eq hp hl]
  refine ⟨fun fs' hfs => ?_, fun er h => by cases h⟩
  cases hfs
  exact hQ selector v _ hv rfl (Or.inr rfl)

/-- A CASE line of a block that is open, with the state of its frame. -/
theorem after_case {tests : List CaseTest} {selector : Value} {matched : Bool}
    {Q : Flow → State → Prop} {E : Error → State → Prop}
    (hb : BlockAt p place level first behind (.clause body (.case tests) rest))
    (hline : line = place + 1 + behind.length + body.size) (hd : w.depth = d)
    (hmatched : matched = true →
      Q (.jump last) (w.state line (fs.above ⟨place, last, d, .select selector matched⟩)))
    (htest : matched = false → Run.After (do
      if ← Run.anyMatches selector tests then
        Run.setFrameState fs.items.length (.select selector true)
        return Flow.next
      else Run.clauseOr last line Statement.endsCase) p
      (w.state line (fs.above ⟨place, last, d, .select selector matched⟩)) Q E) :
    Run.After (Run.execute (.case tests)) p
      (w.state line (fs.above ⟨place, last, d, .select selector matched⟩)) Q E := by
  subst hline
  have ho : p.opener _ Statement.opensSelect = some place := hb.opener_clause
  have hplace := fs.place?_above ⟨place, last, d, .select selector matched⟩
  change Run.After (Run.caseStatement tests) _ _ _ _
  unfold Run.caseStatement
  simp only [Run.after_bind, Run.after_line, Run.after_opener, Run.after_require,
    World.state_line, ho]
  refine ⟨fun start hstart => ?_, fun h => by cases h⟩
  cases hstart
  simp only [Run.after_framePlace, World.state_frames, World.state_depth, hd, hplace,
    Run.after_bind, Run.after_frames, Run.after_require, Frames.get?_above]
  refine ⟨fun g hg => ?_, fun h => by cases h⟩
  cases hg
  dsimp only
  rw [Run.after_ite]
  refine ⟨hmatched, fun hm => htest (by simpa using hm)⟩

/-- A CASE of a block that has not matched yet. -/
theorem decides_case {tests : List CaseTest} {selector : Value}
    (hb : BlockAt p place level first behind (.clause body (.case tests) rest))
    (hline : line = place + 1 + behind.length + body.size) (hd : w.depth = d) :
    Decides p (.case tests) w line (fs.above ⟨place, last, d, .select selector false⟩)
      (fs.above ⟨place, last, d, .select selector false⟩) (Run.anyMatches selector tests)
      fun matched => (if matched then line + 1 else line + 1 + rest.ahead.size,
        fs.above ⟨place, last, d, .select selector matched⟩) := by
  intro Q E hQ hE
  have hnext : p.closer line Statement.endsCase = some (line + 1 + rest.ahead.size) := by
    have hn := hb.nested
    simp only [Parts.nested, Bool.and_eq_true] at hn
    rw [hline]
    cases first with
    | select c => exact hb.closer_clause_next rfl
    | _ => cases hn.1.2
  refine after_case hb hline hd (fun h => by cases h) fun _ => ?_
  rw [Run.after_bind]
  refine after_does (Run.steady_anyMatches selector tests) (fun matched v hv _ => ?_) hE
  simp only [Run.clauseOr, Run.after_ite, Run.after_bind, Run.after_setFrameState, Run.after_pure,
    Run.after_closer, World.state_frames, Frames.modify_above, hnext, Option.getD_some]
  refine ⟨fun hm => ?_, fun hm => ?_⟩
  · subst hm
    exact hQ true v _ hv rfl (Or.inl ⟨rfl, rfl⟩)
  · obtain rfl : matched = false := by simpa using hm
    exact hQ false v _ hv rfl (Or.inr rfl)

/-- The block has run a branch, or is about to. -/
def FrameState.isMade : FrameState → Bool
  | .if taken => taken
  | .select _ matched => matched
  | _ => false

/-- A clause of an IF block that has taken a branch. -/
theorem decides_taken {dividing : Statement} (hs : dividing.blockKind? = some .if)
    (hb : BlockAt p place level first behind (.clause body dividing rest))
    (hline : line = place + 1 + behind.length + body.size) (hd : w.depth = d) :
    Decides p dividing w line (fs.above ⟨place, last, d, .if true⟩)
      (fs.above ⟨place, last, d, .if true⟩) (pure ()) fun _ =>
      (last, fs.above ⟨place, last, d, .if true⟩) := by
  intro Q E hQ hE
  subst hline
  have hn := hb.nested
  simp only [Parts.nested, Bool.and_eq_true] at hn
  have hrole := (Statement.role_of_divides hn.1.2).2
  have hjump := hQ () w _ rfl rfl (Or.inr rfl)
  have ho := hb.opener_clause
  cases dividing with
  | elseIf e =>
    change p.opener _ Statement.opensIf = some place at ho
    change Run.After (Run.elseIfStatement e) _ _ _ _
    unfold Run.elseIfStatement
    simp only [Run.after_bind, Run.after_line, Run.after_opener, Run.after_require,
      World.state_line, ho]
    refine ⟨fun start hstart => ?_, fun h => by cases h⟩
    cases hstart
    exact after_ifBlock_above (f := ⟨place, last, d, .if true⟩) hd.symm hjump
  | «else» =>
    change p.opener _ Statement.opensIfOrUnless = some place at ho
    change Run.After Run.elseStatement _ _ _ _
    unfold Run.elseStatement
    simp only [Run.after_bind, Run.after_line, Run.after_opener, Run.after_require,
      World.state_line, ho]
    refine ⟨fun start hstart => ?_, fun h => by cases h⟩
    cases hstart
    exact after_ifBlock_above (f := ⟨place, last, d, .if true⟩) hd.symm hjump
  | _ => first | (cases hrole; done) | cases hs

/-- A clause of a block whose choice is made leads to the last line. -/
theorem decides_made {dividing : Statement} {state : FrameState}
    (hb : BlockAt p place level first behind (.clause body dividing rest))
    (hline : line = place + 1 + behind.length + body.size) (hm : state.isMade = true)
    (hk : first.blockKind? = some state.kind) (hd : w.depth = d) :
    Decides p dividing w line (fs.above ⟨place, last, d, state⟩)
      (fs.above ⟨place, last, d, state⟩) (pure ()) fun _ =>
      (last, fs.above ⟨place, last, d, state⟩) := by
  have hn := hb.nested
  simp only [Parts.nested, Bool.and_eq_true] at hn
  have hkind := (Statement.blockKind_of_divides hn.1.2).symm.trans hk
  have hrole := (Statement.role_of_divides hn.1.2).2
  cases state with
  | «if» taken =>
    obtain rfl : taken = true := hm
    exact decides_taken hkind hb hline hd
  | select selector matched =>
    obtain rfl : matched = true := hm
    intro Q E hQ hE
    cases dividing with
    | case tests => exact after_case hb hline hd (fun _ => hQ () w _ rfl rfl (Or.inr rfl)) fun h => by cases h
    | _ => first | (cases hrole; done) | cases hkind
  | «while» | «do» | «for» | sub | «try» => cases hm

/-- The closing line of a choice. -/
theorem decides_closing {closing : Statement} {state : FrameState} (hs : first.branches = true)
    (hb : BlockAt p place level first behind (.last body closing))
    (hline : line = place + 1 + behind.length + body.size) (hd : w.depth = d) :
    Decides p closing w line (fs.above ⟨place, last, d, state⟩)
      (fs.above ⟨place, last, d, state⟩) (pure ()) fun _ => (line + 1, fs) := by
  intro Q E hQ hE
  subst hline
  have hn := hb.nested
  simp only [Parts.nested, Bool.and_eq_true] at hn
  have hnext := hQ () w _ rfl rfl (Or.inl ⟨rfl, rfl⟩)
  have hleave := fs.leave_above ⟨place, last, d, state⟩
  have hclosing : (closing = .endIf ∨ closing = .endUnless) ∨ closing = .endSelect := by
    have he := hn.2
    unfold Statement.ends at he
    split at he
    all_goals first
      | (cases he; done)
      | (cases hs; done)
      | simp
  rcases hclosing with hif | rfl
  · have hx : Run.execute closing = Run.endIfStatement := by rcases hif with rfl | rfl <;> rfl
    have ho : p.opener (place + 1 + behind.length + body.size) Statement.opensIfOrUnless =
        some place := by
      rcases hif with rfl | rfl <;> exact hb.opener_closing (by simp)
    rw [hx]
    unfold Run.endIfStatement
    simp only [Run.after_bind, Run.after_line, Run.after_opener, World.state_line, ho,
      Run.after_leave, Run.after_pure, World.state_frames, World.state_depth, hd, hleave]
    exact hnext
  · have ho : p.opener _ Statement.opensSelect = some place := hb.opener_closing (by simp)
    change Run.After Run.endSelectStatement _ _ _ _
    unfold Run.endSelectStatement
    simp only [Run.after_bind, Run.after_line, Run.after_opener, World.state_line, ho,
      Run.after_leave, Run.after_pure, World.state_frames, World.state_depth, hd, hleave]
    exact hnext

end Choices

/-! ## Loops -/

/-- The first line of a loop: `x` decides whether it is entered, and `entry` tells
the state of its frame. -/
def loopHead {α : Type} (wanted : Statement → Bool) (code : ErrorCode) (x : Run α)
    (entry : α → Option FrameState) : Run Flow := do
  let here ← Run.line
  let stop ← Run.require (← Run.closer here wanted) { code }
  match entry (← x) with
  | some state =>
    Run.enter here stop state
    return .next
  | none =>
    Run.leave here
    return .jump (stop + 1)

section Loops

variable {α : Type} {p : Program} {st : Statement} {place level : Nat} {parts : Parts}
  {body : Body} {w : World} {fs : Frames} {d : Nat}

/-- The start of a loop, from a test. -/
def FrameState.onlyIf (state : FrameState) (more : Bool) : Option FrameState :=
  if more then some state else none

theorem execute_while (e : Expression) : Run.execute (.while e) =
    loopHead Statement.closesWhile .whileWithoutWend (Run.condition e)
      (FrameState.while false).onlyIf := by
  unfold loopHead FrameState.onlyIf
  change Run.whileStatement e false = _
  unfold Run.whileStatement
  refine bind_congr fun here => bind_congr fun stop => bind_congr fun _ => bind_congr fun more => ?_
  cases more <;> rfl

theorem execute_until (e : Expression) : Run.execute (.until e) =
    loopHead Statement.closesWhile .untilWithoutUend (Run.untilTest e)
      (FrameState.while true).onlyIf := by
  unfold loopHead FrameState.onlyIf Run.untilTest
  change Run.whileStatement e true = _
  unfold Run.whileStatement
  refine bind_congr fun here => bind_congr fun stop => bind_congr fun _ => ?_
  rw [bind_assoc]
  refine bind_congr fun more => ?_
  cases more <;> rfl

theorem execute_do (c : Condition) : Run.execute (.do c) =
    loopHead Statement.closesDo .doWithoutLoop (Run.test c) FrameState.do.onlyIf := by
  unfold loopHead FrameState.onlyIf
  change Run.doStatement c = _
  unfold Run.doStatement
  refine bind_congr fun here => bind_congr fun stop => bind_congr fun _ => bind_congr fun more => ?_
  cases more <;> rfl

theorem execute_for (name : Name) (start limit : Expression) (step : Option Expression) :
    Run.execute (.for name start limit step) =
    loopHead (Statement.closesFor name) .forWithoutNext (Run.forEntry name start limit step)
      (·.map .for) := by
  unfold loopHead Run.forEntry
  change Run.forStatement name start limit step = _
  unfold Run.forStatement
  refine bind_congr fun here => bind_congr fun stop => bind_congr fun _ => ?_
  simp only [bind_assoc]
  refine bind_congr fun v => bind_congr fun low => bind_congr fun v => bind_congr fun high => ?_
  cases step with
  | none =>
    simp only [pure_bind]
    split <;> simp only [bind_assoc, pure_bind] <;> rfl
  | some e =>
    simp only [bind_assoc]
    refine bind_congr fun v => bind_congr fun stride => ?_
    split <;> simp only [bind_assoc, pure_bind] <;> rfl

/-- Into a loop that ends at `last`, or past it. -/
def Frames.entering (fs : Frames) (place last depth : Nat) : Option FrameState → Nat × Frames
  | some state => (place + 1, fs.above ⟨place, last, depth, state⟩)
  | none => (last + 1, fs)

/-- The first line of a loop enters it or passes it over. -/
theorem decides_loopHead {ok : Error → Prop} {wanted : Statement → Bool} {code : ErrorCode}
    {x : Run α} {entry : α → Option FrameState} (hx : Run.Steady ok x)
    (hs : Run.execute st = loopHead wanted code x entry) (hw : st.closedBy = wanted)
    (hb : BlockAt p place level st [] parts) (hp : fs.place? place d = none)
    (hl : fs.items.length < fs.limit) (hd : w.depth = d) :
    Decides p st w place fs fs x fun a =>
      fs.entering place (place + parts.size) d (entry a) := by
  intro Q E hQ hE
  have hlast : p.closer place wanted = some (place + parts.size) := by
    rw [← hw]
    exact hb.closer_last
  rw [hs]
  unfold loopHead
  simp only [Run.after_bind, Run.after_line, Run.after_closer, Run.after_require,
    World.state_line, hlast]
  refine ⟨fun stop hstop => ?_, fun h => by cases h⟩
  cases hstop
  refine after_does hx (fun a v hv hdepth => ?_) hE
  cases ha : entry a with
  | some state =>
    simp only [Run.after_bind, Run.after_enter, Run.after_pure, World.state_frames,
      World.state_depth, hdepth, hd]
    rw [Frames.enter_eq hp hl]
    refine ⟨fun fs' hfs => ?_, fun er h => by cases h⟩
    cases hfs
    exact hQ a v _ hv (congrArg _ ha) (Or.inl ⟨rfl, rfl⟩)
  | none =>
    simp only [Run.after_bind, Run.after_leave, Run.after_pure, World.state_frames,
      World.state_depth, hdepth, hd, Frames.leave_of_none _ hp]
    exact hQ a v _ hv (congrArg _ ha) (Or.inr rfl)

/-! ## The last line of a loop -/

variable {closing : Statement} {line last : Nat} {f : Frame}

theorem after_loopStart_above {code : ErrorCode} {wanted : Statement → Bool}
    {Q : Nat → State → Prop} {E : Error → State → Prop} (ho : p.opener line wanted = some f.first)
    (hd : f.depth = w.depth) (hQ : Q f.first (w.state line (fs.above f))) :
    Run.After (Run.loopStart wanted code) p (w.state line (fs.above f)) Q E := by
  unfold Run.loopStart
  simp only [Run.after_bind, Run.after_line, Run.after_opener, Run.after_require,
    Run.after_framePlace, Run.after_truncate, Run.after_pure, World.state_line,
    World.state_frames, World.state_depth, ho, ← hd]
  refine ⟨fun start hstart => ?_, fun h => by cases h⟩
  cases hstart
  rw [Frames.place?_above]
  refine ⟨fun i hi => ?_, fun h => by cases h⟩
  cases hi
  rw [Frames.truncate_above]
  exact hQ

theorem after_repeatOrLeave_above {again : Bool} {Q : Flow → State → Prop}
    {E : Error → State → Prop} (hd : f.depth = w.depth)
    (hagain : again = true → Q (.jump (f.first + 1)) (w.state line (fs.above f)))
    (hleft : again = false → Q .next (w.state line fs)) :
    Run.After (Run.repeatOrLeave f.first again) p (w.state line (fs.above f)) Q E := by
  unfold Run.repeatOrLeave
  simp only [Run.after_bind, Run.after_ite, Run.after_leave, Run.after_pure, World.state_frames,
    World.state_depth, ← hd, Frames.leave_above]
  exact ⟨hagain, fun h => hleft (by simpa using h)⟩

/-- Around the loop of the top frame, or out of it. -/
def Frames.turning (fs : Frames) (f : Frame) (line : Nat) (again : Bool) : Nat × Frames :=
  if again then (f.first + 1, fs.above f) else (line + 1, fs)

/-- A test at the end of a loop. -/
theorem after_tested_above {ok : Error → Prop} {x : Run Bool} {Q : Flow → State → Prop}
    {E : Error → State → Prop} (hx : Run.Steady ok x) (hd : f.depth = w.depth)
    (hQ : ∀ again v flow ⦃target : Nat⦄ ⦃top : Frames⦄, w.does x = (.ok again, v) →
      fs.turning f line again = (target, top) → flow.Leads line target → Q flow (v.state line top))
    (hE : ∀ e v, w.does x = (.error e, v) → E e (v.state line (fs.above f))) :
    Run.After (x >>= fun again => Run.repeatOrLeave f.first again) p (w.state line (fs.above f))
      Q E := by
  rw [Run.after_bind]
  refine after_does hx (fun again v hv hdepth => ?_) hE
  exact after_repeatOrLeave_above (hd.trans hdepth.symm)
    (fun ha => hQ again v _ hv (if_pos ha) (Or.inr rfl))
    fun ha => hQ again v _ hv (if_neg (by simp [ha])) (Or.inl ⟨rfl, rfl⟩)

/-- The closing line of a loop finds the opening line, where the frame of the loop says. -/
theorem BlockAt.finds_opening {first : Statement}
    (hb : BlockAt p place level first [] (.last body closing))
    (hline : line = place + 1 + body.size) (hf : f.first = place) (hc : closing ≠ .endSub) :
    p.opener line closing.openedBy = some f.first ∧ p.statement? f.first = some first := by
  rw [hline, hf]
  exact ⟨hb.opener_closing hc, hb.lines.statement⟩

variable {e : Expression} {head tail : Condition}

theorem decides_wend (hb : BlockAt p place level (.while e) [] (.last body .wend))
    (hline : line = place + 1 + body.size) (hf : f.first = place) (hd : f.depth = w.depth) :
    Decides p .wend w line (fs.above f) (fs.above f) (Run.condition e) (fs.turning f line) := by
  intro Q E hQ hE
  obtain ⟨ho, hst⟩ := hb.finds_opening hline hf (by simp)
  change Run.After (Run.wendStatement false) _ _ _ _
  unfold Run.wendStatement
  rw [Run.after_bind]
  refine after_loopStart_above ho hd ?_
  rw [Run.after_bind, Run.after_statement, hst]
  refine ⟨fun o h => ?_, fun h => by cases h⟩
  cases h
  exact after_tested_above (Run.steady_condition e) hd hQ hE

theorem steady_untilTest (e : Expression) : Run.Steady Error.Fresh (Run.untilTest e) :=
  Run.steady_bind (Run.steady_condition e) fun _ => Run.steady_pure _

theorem decides_uend (hb : BlockAt p place level (.until e) [] (.last body .uend))
    (hline : line = place + 1 + body.size) (hf : f.first = place) (hd : f.depth = w.depth) :
    Decides p .uend w line (fs.above f) (fs.above f) (Run.untilTest e) (fs.turning f line) := by
  intro Q E hQ hE
  obtain ⟨ho, hst⟩ := hb.finds_opening hline hf (by simp)
  change Run.After (Run.wendStatement true) _ _ _ _
  unfold Run.wendStatement
  rw [Run.after_bind]
  refine after_loopStart_above ho hd ?_
  rw [Run.after_bind, Run.after_statement, hst]
  refine ⟨fun o h => ?_, fun h => by cases h⟩
  cases h
  have htest := after_tested_above (p := p) (steady_untilTest e) hd hQ hE
  unfold Run.untilTest at htest
  rw [bind_assoc] at htest
  exact htest

theorem steady_bothHold (tail head : Condition) : Run.Steady Error.Fresh (Run.bothHold tail head) :=
  Run.steady_bind (Run.steady_test tail) fun _ =>
    Run.steady_ite (fun _ => Run.steady_test head) fun _ => Run.steady_pure _

theorem decides_loop (hb : BlockAt p place level (.do head) [] (.last body (.loop tail)))
    (hline : line = place + 1 + body.size) (hf : f.first = place) (hd : f.depth = w.depth) :
    Decides p (.loop tail) w line (fs.above f) (fs.above f) (Run.bothHold tail head)
      (fs.turning f line) := by
  intro Q E hQ hE
  obtain ⟨ho, hst⟩ := hb.finds_opening hline hf (by simp)
  have htest := after_tested_above (p := p) (steady_bothHold tail head) hd hQ hE
  change Run.After (Run.loopStatement tail) _ _ _ _
  unfold Run.loopStatement
  rw [Run.after_bind]
  refine after_loopStart_above ho hd ?_
  -- Both sides test the end of the loop first and the head only if that holds.
  simp only [Run.bothHold, Run.after_bind, Run.after_ite, Run.after_pure] at htest
  simp only [Run.after_bind, Run.after_ite, Run.after_statement, hst]
  refine htest.mono (fun again t h => ⟨fun ha => ?_, fun ha => ?_⟩) fun _ _ h => h
  · refine ⟨fun o ho => ?_, fun h => by cases h⟩
    cases ho
    exact (Run.after_bind _ _).2 (h.1 ha)
  · exact h.2 ha

/-- What a FOR line or a NEXT line stored is read back from the variables, which are
the same at every line. -/
theorem steady_peek {β : Type} (name : Name) (f : Value → β) :
    Run.Steady Error.Fresh (do return f ((← Run.memory).variables.peek name)) :=
  ⟨fun _ _ _ _ _ => rfl, fun _ _ => rfl⟩

theorem steady_forEntry (name : Name) (start limit : Expression) (step : Option Expression) :
    Run.Steady Error.Fresh (Run.forEntry name start limit step) := by
  have hentry : ∀ low high stride : Number, Run.Steady Error.Fresh (do
      if low.within high stride then
        Run.store name (.ofNumber low)
        let assigned := (← Run.memory).variables.peek name
        return some (ForLoop.mk name low high stride low assigned)
      else return none) := fun low high stride =>
    Run.steady_ite (fun _ => Run.steady_bind (Run.steady_store _ _) fun _ =>
      steady_peek name fun _ => some _) fun _ => Run.steady_pure _
  unfold Run.forEntry
  refine Run.steady_bind (Run.steady_value start) fun v => ?_
  refine Run.steady_bind (Run.steady_number v) fun low => ?_
  refine Run.steady_bind (Run.steady_value limit) fun v => ?_
  refine Run.steady_bind (Run.steady_number v) fun high => ?_
  cases step with
  | none => exact hentry low high _
  | some e =>
    refine Run.steady_bind (Run.steady_value e) fun v => ?_
    exact Run.steady_bind (Run.steady_number v) fun stride => hentry low high stride

theorem steady_counting (loop : ForLoop) : Run.Steady Error.Fresh (Run.counting loop) := by
  rw [Run.counting_eq]
  exact Run.steady_bind (Run.steady_observe (Eval.isMild_get _)) fun current =>
    Run.steady_bind (Run.steady_counterAfter loop current) fun _ =>
      Run.steady_bind (Run.steady_store _ _) fun _ => steady_peek _ fun _ => (_, _)

/-- The end of a NEXT line: the frame gets the new counter. -/
theorem after_counting {loop : ForLoop} {Q : Flow → State → Prop} {E : Error → State → Prop}
    (hd : w.depth = d)
    (hQ : ∀ r v flow ⦃target : Nat⦄ ⦃top : Frames⦄, w.does (Run.counting loop) = (.ok r, v) →
      fs.turning ⟨place, last, d, .for r.2⟩ line r.1 = (target, top) →
      flow.Leads line target → Q flow (v.state line top))
    (hE : ∀ e v, w.does (Run.counting loop) = (.error e, v) →
      E e (v.state line (fs.above ⟨place, last, d, .for loop⟩))) :
    Run.After (do
      let r ← Run.counting loop
      Run.setFrameState fs.items.length (.for r.2)
      Run.repeatOrLeave place r.1) p
      (w.state line (fs.above ⟨place, last, d, .for loop⟩)) Q E := by
  rw [Run.after_bind]
  refine after_does (steady_counting loop) (fun r v hv hdepth => ?_) hE
  rw [Run.after_bind, Run.after_setFrameState, World.state_frames, Frames.modify_above]
  refine after_repeatOrLeave_above (f := ⟨place, last, d, .for r.2⟩) (hdepth.trans hd).symm
    (fun ha => hQ r v _ hv (if_pos ha) (Or.inr rfl))
    fun ha => hQ r v _ hv (if_neg (by simp [ha])) (Or.inl ⟨rfl, rfl⟩)

theorem decides_next {name : Name} {start limit : Expression} {step : Option Expression}
    {other : Option Name} {loop : ForLoop}
    (hb : BlockAt p place level (.for name start limit step) [] (.last body (.next other)))
    (hline : line = place + 1 + body.size) (hd : w.depth = d) :
    Decides p (.next other) w line (fs.above ⟨place, last, d, .for loop⟩)
      (fs.above ⟨place, last, d, .for loop⟩) (Run.counting loop) fun r =>
      fs.turning ⟨place, last, d, .for r.2⟩ line r.1 := by
  intro Q E hQ hE
  have ho : p.opener line Statement.opensFor = some place := by
    rw [hline]
    exact hb.opener_closing (by simp)
  have hst := hb.lines.statement
  have hcheck : Run.checkNext other (.for name start limit step) = pure () := by
    have hn := hb.nested
    simp only [Parts.nested, Bool.and_eq_true] at hn
    cases other with
    | none => rfl
    | some n =>
      have halike : n.alike name = true := hn.2
      rw [Name.alike_comm] at halike
      exact if_pos halike
  change Run.After (Run.nextStatement other) _ _ _ _
  unfold Run.nextStatement
  simp only [Run.after_bind, Run.after_line, Run.after_opener, Run.after_require,
    World.state_line, ho]
  refine ⟨fun i hi => ?_, fun h => by cases h⟩
  cases hi
  rw [Run.after_statement, hst]
  refine ⟨fun o h => ?_, fun h => by cases h⟩
  cases h
  rw [hcheck, Run.after_pure]
  have hplace := fs.place?_above ⟨place, last, d, .for loop⟩
  simp only [Run.after_framePlace, World.state_frames, World.state_depth, hd, hplace]
  refine ⟨fun i hi => ?_, fun h => by cases h⟩
  cases hi
  simp only [Run.after_truncate, Run.after_frames, World.state_frames, Frames.truncate_above,
    Frames.get?_above, World.state_withFrames]
  simpa only [Run.counting_eq, bind_assoc, pure_bind] using after_counting hd hQ hE

end Loops

end LineBasic
