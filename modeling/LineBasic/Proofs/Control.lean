-- Every statement steers a program by one of its moves or fails in one of the
-- listed ways. The proof runs each statement symbolically, once.
import LineBasic.Proofs.Moves
import LineBasic.Proofs.Search
import LineBasic.Proofs.Stack

namespace LineBasic

/-! ## From statements to moves -/

namespace State

theorem line_control (s : State) : s.memory.line = s.control.line := rfl

theorem frames_control (s : State) : s.frames = s.control.frames := rfl

theorem depth_control (s : State) : s.memory.variables.depth = s.control.depth :=
  s.memory.variables.depth_eq_size_calls

theorem control_withFrames (s : State) (fs : Frames) :
    ({ s with frames := fs } : State).control = { s.control with frames := fs } := rfl

end State

theorem Frames.mild_enter {fs : Frames} {f : Frame} {e : Error} (h : fs.enter f = .error e) :
    e.Fresh := by
  rw [Stack.push_eq_error _ h]
  rfl

namespace Run

variable {α : Type}

/-- Whatever `x` does to the control of a program, `st` may do. -/
def Steers (st : Statement) (x : Run Flow) : Prop :=
  ∀ p s, After x p s (fun flow t => Moves p s.control st flow t.control)
    fun e t => Fails p s.control st e t.control

theorem After.steady {ok : Error → Prop} {x : Run α} {p : Program} {s : State}
    {Q : α → State → Prop} {E : Error → State → Prop} (hx : Steady ok x)
    (hQ : ∀ a t, t.control = s.control → Q a t)
    (hE : ∀ e t, ok e → t.control = s.control → E e t) : After x p s Q E :=
  (hx.control p s).mono hQ fun e t h => hE e t h.1 h.2

theorem steers_steady {st : Statement} (hs : st.isSteady = true) : Steers st (execute st) := by
  intro p s
  have hc := (steady_execute st hs).control p s
  have hf := onward_execute st hs p s
  unfold After at *
  cases hx : execute st p s with
  | ok flow t =>
    rw [hx] at hc hf
    change t.control = s.control at hc
    change Moves p s.control st flow t.control
    rw [hc]
    exact .onward (Or.inl hs) hf
  | error e t =>
    rw [hx] at hc
    obtain ⟨he, ht⟩ := hc
    change Fails p s.control st e t.control
    rw [ht]
    rcases he with he | he
    · exact .mild he
    · exact .emptyPath he.1 he.2

/-! ## Blocks that choose -/

theorem steers_if (st : Statement) (e : Expression) (negated : Bool)
    (hs : st = .if e ∨ st = .unless e) : Steers st (ifStatement e negated) := by
  intro p s
  have hrole : st.role = .opener := by rcases hs with rfl | rfl <;> rfl
  have hclose : st.closedBy = Statement.closesIf := by rcases hs with rfl | rfl <;> rfl
  have hend : st.branchEndedBy = Statement.endsIfBranch := by rcases hs with rfl | rfl <;> rfl
  have hbranch : st.branches = true := by rcases hs with rfl | rfl <;> rfl
  have hkind : st.blockKind? = some .if := by rcases hs with rfl | rfl <;> rfl
  unfold ifStatement endOfIf clauseOr
  simp only [after_bind, after_line, after_closer, after_require, after_enter, after_ite,
    after_pure, State.line_control, State.frames_control, State.depth_control,
    State.control_withFrames]
  rw [← hclose, ← hend]
  refine ⟨fun stop hstop => .steady (steady_condition e) (fun taken t ht => ?_)
    fun er t he ht => ht ▸ .mild he, fun hnone => .unclosed ⟨rfl, by simp, rfl⟩ hrole hnone⟩
  rw [ht]
  have hfresh : (FrameState.if (taken != negated)).Fresh p s.control.line st.blockKind? :=
    ⟨hkind.symm, fun t h => by cases h⟩
  refine ⟨fun fs hfs => ⟨fun _ => ?_, fun _ => ?_⟩, fun er her => .mild (Frames.mild_enter her)⟩
  · exact .opened hrole hstop hfresh hfs (Or.inl rfl) (by simp [hkind])
  · exact .opened hrole hstop hfresh hfs (Or.inr ⟨hbranch, rfl⟩) (by simp [hkind])

/-- An IF block seen from a clause: its frame, or its last line if it has none. -/
theorem after_ifBlock {p : Program} {s : State} (st : Statement) {first : Nat}
    {Q : IfBlock → State → Prop} {E : Error → State → Prop}
    (ho : p.opener s.control.line st.openedBy = some first)
    (hactive : ∀ i f, s.control.InBlock p st first i f → Q (.active i f) s)
    (hskipped : ∀ last, s.control.frames.place? first s.control.depth = none →
      p.closer first Statement.closesIf = some last → Q (.skipped last) s)
    (hopen : s.control.frames.place? first s.control.depth = none →
      p.closer first Statement.closesIf = none → E { code := .ifWithoutEndIf } s) :
    After (ifBlock first) p s Q E := by
  unfold ifBlock endOfIf
  simp only [after_bind, after_framePlace, State.frames_control, State.depth_control]
  cases hp : s.control.frames.place? first s.control.depth with
  | some i =>
    obtain ⟨f, hf, _⟩ := s.control.frames.place?_eq_some hp
    simp only [after_bind, after_frames, after_require, after_pure, State.frames_control, hf]
    refine ⟨fun g hg => ?_, fun h => by cases h⟩
    cases hg
    exact hactive i f ⟨ho, hp, hf⟩
  | none =>
    simp only [after_bind, after_closer, after_require, after_pure]
    exact ⟨fun last hl => hskipped last hp hl, fun hl => hopen hp hl⟩

theorem steers_elseIf (e : Expression) : Steers (.elseIf e) (elseIfStatement e) := by
  intro p s
  unfold elseIfStatement clauseOr
  simp only [after_bind, after_line, after_opener, after_require, State.line_control]
  refine ⟨fun first ho => ?_, fun ho => .unopened ⟨rfl, by simp, rfl⟩ (Or.inl rfl) ho⟩
  refine after_ifBlock (.elseIf e) ho (fun i f hb => ?_) (fun last hp hl => ?_) fun hp hl => ?_
  · simp only [after_ite, after_pure, after_bind, after_setFrameState, after_closer]
    refine ⟨fun _ => .clause rfl hb (Or.inl rfl), fun _ => ?_⟩
    refine .steady (steady_condition e) (fun c t ht => ?_) fun er t he ht => ht ▸ .mild he
    simp only [State.control_withFrames, State.frames_control, ht]
    refine ⟨fun _ => ?_, fun _ => ?_⟩
    · exact .tookClause rfl hb rfl fun u hu => by cases hu
    · exact .clause rfl hb (Or.inr (Or.inl ⟨rfl, rfl⟩))
  · exact .skipped rfl ho hp hl
  · exact .clauseUnclosed ⟨rfl, by simp, rfl⟩ rfl ho hp hl

theorem steers_else : Steers .else elseStatement := by
  intro p s
  unfold elseStatement
  simp only [after_bind, after_line, after_opener, after_require, State.line_control]
  refine ⟨fun first ho => ?_, fun ho => .unopened ⟨rfl, by simp [Error.elseWithoutIf], rfl⟩ (Or.inl rfl) ho⟩
  refine after_ifBlock .else ho (fun i f hb => ?_) (fun last hp hl => ?_) fun hp hl => ?_
  · simp only [after_ite, after_pure, after_bind, after_setFrameState]
    refine ⟨fun _ => .clause rfl hb (Or.inl rfl), fun _ => ?_⟩
    exact .tookClause rfl hb rfl fun u hu => by cases hu
  · exact .skipped rfl ho hp hl
  · exact .clauseUnclosed ⟨rfl, by simp, rfl⟩ rfl ho hp hl

theorem steers_endIf (st : Statement) (hs : st = .endIf ∨ st = .endUnless) :
    Steers st endIfStatement := by
  intro p s
  have hr : st.closesOnce = true := by rcases hs with rfl | rfl <;> rfl
  have hb : st.openedBy = Statement.opensIfOrUnless := by rcases hs with rfl | rfl <;> rfl
  unfold endIfStatement
  simp only [after_bind, after_line, after_opener, State.line_control]
  rw [← hb]
  cases ho : p.opener s.control.line st.openedBy with
  | some first =>
    simp only [after_bind, after_leave, after_pure, State.control_withFrames, State.depth_control]
    exact .closed hr ho
  | none => exact .closedNothing hr ho

theorem steers_select (e : Expression) : Steers (.select e) (selectStatement e) := by
  intro p s
  unfold selectStatement endOfSelect clauseOr
  simp only [after_bind, after_line, after_closer, after_require, after_enter, after_pure,
    State.line_control, State.frames_control, State.depth_control, State.control_withFrames]
  refine ⟨fun stop hstop => .steady (steady_value e) (fun v t ht => ?_)
    fun er t he ht => ht ▸ .mild he, fun hnone => .unclosed ⟨rfl, by simp, rfl⟩ rfl hnone⟩
  rw [ht]
  have hfresh : (FrameState.select v false).Fresh p s.control.line (Statement.select e).blockKind? :=
    ⟨rfl, fun t h => by cases h⟩
  refine ⟨fun fs hfs => ?_, fun er her => .mild (Frames.mild_enter her)⟩
  exact .opened rfl hstop hfresh hfs (Or.inr ⟨rfl, rfl⟩) (by simp [Statement.blockKind?])

theorem steady_matchesOne (selector : Value) (es : List Expression) :
    Steady Error.Fresh (matchesOne selector es) := by
  induction es with
  | nil => exact steady_pure _
  | cons e es ih =>
    refine steady_bind (steady_value e) fun v => ?_
    refine steady_bind (steady_mild (selector.mild_compare v)) fun o => ?_
    exact steady_ite (fun _ => steady_pure _) fun _ => ih

theorem mild_relationHolds (order : Option Ordering) (operator : String) :
    MildExcept (relationHolds order operator) := by
  unfold relationHolds
  split
  all_goals first
    | exact mildExcept_ok _
    | exact (mildExcept_error _).2 rfl

theorem steady_caseMatches (selector : Value) (test : CaseTest) :
    Steady Error.Fresh (caseMatches selector test) := by
  cases test with
  | otherwise => exact steady_pure _
  | values es => exact steady_matchesOne selector es
  | range low high =>
    exact steady_bind (steady_value low) fun v => steady_bind (steady_value high) fun w =>
      steady_bind (steady_mild (selector.mild_compare v)) fun _ =>
        steady_bind (steady_mild (selector.mild_compare w)) fun _ => steady_pure _
  | relation operator e =>
    exact steady_bind (steady_value e) fun v =>
      steady_bind (steady_mild (selector.mild_compare v)) fun order =>
        steady_mild (mild_relationHolds order operator)

theorem steady_anyMatches (selector : Value) (tests : List CaseTest) :
    Steady Error.Fresh (anyMatches selector tests) := by
  induction tests with
  | nil => exact steady_pure _
  | cons t ts ih =>
    exact steady_bind (steady_caseMatches selector t) fun _ =>
      steady_ite (fun _ => steady_pure _) fun _ => ih

theorem steers_case (tests : List CaseTest) : Steers (.case tests) (caseStatement tests) := by
  intro p s
  unfold caseStatement endOfSelect clauseOr
  simp only [after_bind, after_line, after_opener, after_require, after_framePlace,
    State.line_control, State.frames_control, State.depth_control]
  refine ⟨fun first ho => ?_, fun ho => .unopened ⟨rfl, by simp, rfl⟩ (Or.inl rfl) ho⟩
  cases hp : s.control.frames.place? first s.control.depth with
  | none =>
    simp only [after_bind, after_closer, after_require, after_pure]
    exact ⟨fun last hl => .skipped rfl ho hp hl, fun hl => .clauseUnclosed ⟨rfl, by simp, rfl⟩ rfl ho hp hl⟩
  | some i =>
    obtain ⟨f, hf, _⟩ := s.control.frames.place?_eq_some hp
    have hb : s.control.InBlock p (.case tests) first i f := ⟨ho, hp, hf⟩
    simp only [after_bind, after_frames, after_require, State.frames_control, hf]
    refine ⟨fun g hg => ?_, fun h => by cases h⟩
    cases hg
    cases hs : f.state with
    | select selector matched =>
      simp only [after_ite, after_pure, after_bind, after_setFrameState, after_closer]
      refine ⟨fun _ => .clause rfl hb (Or.inl rfl), fun _ => ?_⟩
      refine .steady (steady_anyMatches selector tests) (fun c t ht => ?_)
        fun er t he ht => ht ▸ .mild he
      simp only [State.control_withFrames, State.frames_control, ht]
      refine ⟨fun _ => ?_, fun _ => ?_⟩
      · exact .tookClause rfl hb rfl fun u hu => by cases hu
      · exact .clause rfl hb (Or.inr (Or.inl ⟨rfl, rfl⟩))
    | «if» | «while» | «do» | «for» | sub | «try» =>
      exact .mismatch hb (by simp [Frame.kind, hs, FrameState.kind, Statement.blockKind?])

theorem steers_endSelect : Steers .endSelect endSelectStatement := by
  intro p s
  unfold endSelectStatement
  simp only [after_bind, after_line, after_opener, State.line_control]
  cases ho : p.opener s.control.line Statement.opensSelect with
  | some first =>
    simp only [after_bind, after_leave, after_pure, State.control_withFrames, State.depth_control]
    exact .closed rfl ho
  | none => exact .closedNothing rfl ho

/-! ## Loops -/

/-- The closing line of a loop finds its frame and drops all above it. -/
theorem after_loopStart {p : Program} {s : State} (st : Statement) {code : ErrorCode}
    {Q : Nat → State → Prop} (hr : st.closesLoop = true)
    (he : Error.Misplaced { code })
    (hQ : ∀ first i f, s.control.InBlock p st first i f →
      Q first { s with frames := s.frames.truncate (i + 1) }) :
    After (loopStart st.openedBy code) p s Q fun e t => Fails p s.control st e t.control := by
  unfold loopStart
  simp only [after_bind, after_line, after_opener, after_require, after_framePlace, after_truncate,
    after_pure, State.line_control, State.depth_control]
  refine ⟨fun first ho => ⟨fun i hp => ?_, fun hp => ?_⟩, fun ho => ?_⟩
  · obtain ⟨f, hf, _⟩ := s.control.frames.place?_eq_some hp
    exact hQ first i f ⟨ho, hp, hf⟩
  · exact .unentered he hr ho hp
  · exact .unopened he (Or.inr hr) ho

/-- With all above its frame dropped, a loop goes around or is left. The frame
may have changed its state on the way. -/
theorem after_repeatOrLeave {p : Program} {c : Control} {t : State} {st : Statement}
    {first i : Nat} {f : Frame} {state : FrameState} {E : Error → State → Prop} (again : Bool)
    (hr : st.closesLoop = true) (hb : c.InBlock p st first i f) (hk : f.state.Keeps state)
    (ht : t.control =
      { c with frames := (c.frames.truncate (i + 1)).modify i fun f => { f with state } }) :
    After (repeatOrLeave first again) p t (fun flow u => Moves p c st flow u.control) E := by
  unfold repeatOrLeave
  simp only [after_bind, after_ite, after_pure, after_leave, State.control_withFrames,
    State.frames_control, State.depth_control]
  refine ⟨fun _ => ?_, fun _ => ?_⟩
  · rw [ht]
    exact .again hr hb hk
  · have hd : t.control.depth = c.depth := by rw [ht]; rfl
    rw [hd, ht]
    dsimp only
    rw [Frames.leave_top c.frames hb.place state]
    exact .left hr hb

/-- The stack above a loop's frame is dropped and the frame itself stays as it was. -/
theorem truncate_keeps {c : Control} {p : Program} {st : Statement} {first i : Nat} {f : Frame}
    (hb : c.InBlock p st first i f) :
    ({ c with frames := c.frames.truncate (i + 1) } : Control) =
      { c with frames := (c.frames.truncate (i + 1)).modify i fun g => { g with state := f.state } } := by
  have hf : (c.frames.truncate (i + 1)).get? i = some f := by
    rw [c.frames.get?_truncate (Nat.lt_succ_self i)]
    exact hb.frame
  rw [Frames.modify_state_self _ hf]

theorem steers_while (st : Statement) (e : Expression) (negated : Bool)
    (hs : st = .while e ∧ negated = false ∨ st = .until e ∧ negated = true) :
    Steers st (whileStatement e negated) := by
  intro p s
  have hrole : st.role = .opener := by rcases hs with ⟨rfl, _⟩ | ⟨rfl, _⟩ <;> rfl
  have hhead : st.headsLoop = true := by rcases hs with ⟨rfl, _⟩ | ⟨rfl, _⟩ <;> rfl
  have hclose : st.closedBy = Statement.closesWhile := by rcases hs with ⟨rfl, _⟩ | ⟨rfl, _⟩ <;> rfl
  have hkind : st.blockKind? = some .while := by rcases hs with ⟨rfl, _⟩ | ⟨rfl, _⟩ <;> rfl
  have herr : Error.Misplaced { code := if negated then .untilWithoutUend else .whileWithoutWend } := by
    cases negated <;> exact ⟨rfl, by simp, rfl⟩
  unfold whileStatement
  simp only [after_bind, after_line, after_closer, after_require, after_enter, after_ite,
    after_pure, after_leave, State.line_control, State.frames_control, State.depth_control,
    State.control_withFrames]
  rw [← hclose]
  refine ⟨fun stop hstop => .steady (steady_condition e) (fun c t ht => ?_)
    fun er t he ht => ht ▸ .mild he, fun hnone => .unclosed herr hrole hnone⟩
  rw [ht]
  have hfresh : (FrameState.while negated).Fresh p s.control.line st.blockKind? :=
    ⟨hkind.symm, fun t h => by cases h⟩
  refine ⟨fun _ => ⟨fun fs hfs => ?_, fun er her => .mild (Frames.mild_enter her)⟩, fun _ => ?_⟩
  · exact .opened hrole hstop hfresh hfs (Or.inl rfl) (by simp [hkind])
  · exact .passed hhead hstop

/-- A loop that is tested at its end, with all above its frame dropped. -/
theorem after_tested {p : Program} {c : Control} {t : State} {st : Statement} {first i : Nat}
    {f : Frame} {x : Run Bool} (hx : Steady Error.Fresh x) (hr : st.closesLoop = true)
    (hb : c.InBlock p st first i f)
    (ht : t.control = { c with frames := c.frames.truncate (i + 1) }) :
    After (x >>= fun again => repeatOrLeave first again) p t
      (fun flow u => Moves p c st flow u.control) fun e u => Fails p c st e u.control := by
  rw [after_bind]
  refine .steady hx (fun again u hu => ?_) fun e u he hu => ?_
  · have hu' := (hu.trans ht).trans (truncate_keeps hb)
    exact after_repeatOrLeave again hr hb (FrameState.Keeps.refl _) hu'
  · rw [hu, ht]
    exact .mildInLoop he hr hb

theorem steers_wend (st : Statement) (negated : Bool)
    (hs : st = .wend ∧ negated = false ∨ st = .uend ∧ negated = true) :
    Steers st (wendStatement negated) := by
  intro p s
  have hr : st.closesLoop = true := by rcases hs with ⟨rfl, _⟩ | ⟨rfl, _⟩ <;> rfl
  have ho : st.openedBy = Statement.opensWhile := by rcases hs with ⟨rfl, _⟩ | ⟨rfl, _⟩ <;> rfl
  have herr : Error.Misplaced { code := if negated then .uendWithoutUntil else .wendWithoutWhile } := by
    cases negated <;> exact ⟨rfl, by simp, rfl⟩
  unfold wendStatement
  rw [after_bind, ← ho]
  refine after_loopStart st hr herr fun first i f hb => ?_
  obtain ⟨_, opening, hopening, _⟩ := Program.opener_eq_some hb.opener
  rw [after_bind]
  simp only [after_statement, hopening]
  refine ⟨fun o h => ?_, fun h => by cases h⟩
  cases h
  split
  · exact after_tested (steady_condition _) hr hb rfl
  · rw [← bind_assoc]
    exact after_tested (steady_bind (steady_condition _) fun _ => steady_pure _) hr hb rfl
  · exact after_tested (steady_pure false) hr hb rfl

theorem steady_test (c : Condition) : Steady Error.Fresh (test c) := by
  cases c with
  | always => exact steady_pure _
  | «while» e => exact steady_condition e
  | «until» e => exact steady_bind (steady_condition e) fun _ => steady_pure _

theorem steers_do (c : Condition) : Steers (.do c) (doStatement c) := by
  intro p s
  unfold doStatement
  simp only [after_bind, after_line, after_closer, after_require, after_enter, after_ite,
    after_pure, after_leave, State.line_control, State.frames_control, State.depth_control,
    State.control_withFrames]
  refine ⟨fun stop hstop => .steady (steady_test c) (fun b t ht => ?_)
    fun er t he ht => ht ▸ .mild he, fun hnone => .unclosed ⟨rfl, by simp, rfl⟩ rfl hnone⟩
  rw [ht]
  have hfresh : FrameState.do.Fresh p s.control.line (Statement.do c).blockKind? :=
    ⟨rfl, fun t h => by cases h⟩
  refine ⟨fun _ => ⟨fun fs hfs => ?_, fun er her => .mild (Frames.mild_enter her)⟩, fun _ => ?_⟩
  · exact .opened rfl hstop hfresh hfs (Or.inl rfl) (by simp [Statement.blockKind?])
  · exact .passed rfl hstop

theorem steers_loop (c : Condition) : Steers (.loop c) (loopStatement c) := by
  intro p s
  unfold loopStatement
  rw [after_bind]
  refine after_loopStart (.loop c) rfl ⟨rfl, by simp, rfl⟩ fun first i f hb => ?_
  obtain ⟨_, opening, hopening, _⟩ := Program.opener_eq_some hb.opener
  rw [after_bind]
  refine .steady (steady_test c) (fun again t ht => ?_) fun e t he ht => ?_
  · have hlast : ∀ again, After (repeatOrLeave first again) p t
        (fun flow u => Moves p s.control (.loop c) flow u.control)
        fun e u => Fails p s.control (.loop c) e u.control := by
      intro again
      exact after_repeatOrLeave again rfl hb (FrameState.Keeps.refl _) (ht.trans (truncate_keeps hb))
    rw [after_ite]
    refine ⟨fun _ => ?_, fun _ => hlast false⟩
    rw [after_bind]
    simp only [after_statement, hopening]
    refine ⟨fun o h => ?_, fun h => by cases h⟩
    cases h
    split
    · exact after_tested (steady_test _) rfl hb ht
    · exact hlast true
  · rw [ht]
    exact .mildInLoop he rfl hb

/-! ## FOR -/

theorem steady_number (v : Value) : Steady Error.Fresh (number v) := steady_require rfl

/-- Part of a statement that leaves the program where it is. -/
theorem After.steadyBind {β : Type} {x : Run α} {f : α → Run β} {p : Program} {s : State}
    {c : Control} {Q : β → State → Prop} {E : Error → State → Prop} (hx : Steady Error.Fresh x)
    (hs : s.control = c) (hE : ∀ e t, e.Fresh → t.control = c → E e t)
    (hf : ∀ a t, t.control = c → After (f a) p t Q E) : After (x >>= f) p s Q E := by
  rw [after_bind]
  refine .steady hx (fun a t ht => hf a t (ht.trans hs)) fun e t he ht => hE e t he (ht.trans hs)

/-- The end of a FOR line: the loop is entered, or passed over if its counter
starts out of range. -/
theorem after_forEntry {p : Program} {t : State} {c : Control} {name : Name} {a b : Expression}
    {step : Option Expression} {stop : Nat} (low high stride : Number)
    (hstop : p.closer c.line (Statement.closesFor name) = some stop) (ht : t.control = c) :
    After (do
      if low.within high stride then
        store name (.ofNumber low)
        let assigned := (← memory).variables.peek name
        enter c.line stop (.for { name, start := low, limit := high, step := stride, counter := low, assigned })
        return Flow.next
      else
        leave c.line
        return .jump (stop + 1)) p t
      (fun flow u => Moves p c (.for name a b step) flow u.control)
      fun e u => Fails p c (.for name a b step) e u.control := by
  rw [after_ite]
  refine ⟨fun _ => ?_, fun _ => ?_⟩
  · refine .steadyBind (steady_store _ _) ht (fun e u he hu => hu ▸ .mild he) fun _ u hu => ?_
    simp only [after_bind, after_memory, after_enter, after_pure, State.frames_control,
      State.depth_control, State.control_withFrames, hu]
    refine ⟨fun fs hfs => ?_, fun er her => .mild (Frames.mild_enter her)⟩
    exact .opened rfl hstop ⟨rfl, fun t h => by cases h⟩ hfs (Or.inl rfl)
      (by simp [Statement.blockKind?])
  · simp only [after_bind, after_leave, after_pure, State.control_withFrames, State.frames_control,
      State.depth_control, ht]
    exact .passed rfl hstop

theorem steers_for (name : Name) (start limit : Expression) (step : Option Expression) :
    Steers (.for name start limit step) (forStatement name start limit step) := by
  intro p s
  have hmild : ∀ (e : Error) (t : State), e.Fresh → t.control = s.control →
      Fails p s.control (.for name start limit step) e t.control := fun e t he ht => ht ▸ .mild he
  unfold forStatement
  rw [after_bind, after_line, after_bind, after_closer, after_bind, after_require]
  refine ⟨fun stop hstop => ?_, fun hnone => .unclosed ⟨rfl, by simp, rfl⟩ rfl hnone⟩
  refine .steadyBind (steady_value start) rfl hmild fun v t ht => ?_
  refine .steadyBind (steady_number v) ht hmild fun a t ht => ?_
  refine .steadyBind (steady_value limit) ht hmild fun v t ht => ?_
  refine .steadyBind (steady_number v) ht hmild fun b t ht => ?_
  dsimp only
  split
  · refine .steadyBind (steady_value _) ht hmild fun v t ht => ?_
    refine .steadyBind (steady_number v) ht hmild fun stride t ht => ?_
    exact after_forEntry (c := s.control) a b stride hstop ht
  · exact after_forEntry (c := s.control) a b _ hstop ht

theorem steady_counterAfter (loop : ForLoop) (current : Value) :
    Steady Error.Fresh (counterAfter loop current) :=
  steady_ite (fun _ => steady_pure _) fun _ => steady_number current

/-- A NEXT may stand under a FOR of another variable; apart from that it passes. -/
theorem after_checkNext {p : Program} {s : State} {name : Option Name} {opening : Statement}
    {first : Nat} (ho : p.opener s.control.line Statement.opensFor = some first)
    (hs : p.statement? first = some opening) :
    After (checkNext name opening) p s (fun _ t => t = s)
      fun e t => Fails p s.control (.next name) e t.control := by
  unfold checkNext
  split
  · rename_i n loop start limit step
    rw [after_ite]
    refine ⟨fun _ => rfl, fun hn => ?_⟩
    exact .otherLoop ⟨rfl, by simp [Error.nextOfOtherLoop], rfl⟩ ho hs (by simpa using hn)
  · rfl

theorem steers_next (name : Option Name) : Steers (.next name) (nextStatement name) := by
  intro p s
  unfold nextStatement
  rw [after_bind, after_line, after_bind, after_opener, after_bind, after_require]
  refine ⟨fun first ho => ?_, fun ho => .unopened ⟨rfl, by simp, rfl⟩ (Or.inr rfl) ho⟩
  obtain ⟨_, opening, hopening, _⟩ := Program.opener_eq_some ho
  rw [after_bind, after_statement]
  refine ⟨fun o hst => ?_, fun h => by rw [hopening] at h; cases h⟩
  rw [after_bind]
  refine (after_checkNext ho hst).mono (fun _ t ht => ?_) fun e t h => h
  subst ht
  rw [after_bind, after_framePlace, after_bind, after_require]
  refine ⟨fun i hp => ?_, fun hp => ?_⟩
  · rw [State.depth_control] at hp
    obtain ⟨f, hf, _⟩ := t.control.frames.place?_eq_some hp
    have hb : t.control.InBlock p (.next name) first i f := ⟨ho, hp, hf⟩
    rw [after_bind, after_truncate, after_bind, after_frames]
    have hget : (t.frames.truncate (i + 1)).get? i = some f := by
      rw [t.frames.get?_truncate (Nat.lt_succ_self i)]
      exact hf
    dsimp only
    rw [hget]
    have hmild : ∀ (e : Error) (u : State), e.Fresh →
        u.control = { t.control with frames := t.control.frames.truncate (i + 1) } →
        Fails p t.control (.next name) e u.control := by
      intro e u he hu
      rw [hu]
      exact .mildInLoop he rfl hb
    obtain ⟨start, last, depth, state⟩ := f
    cases state with
    | «for» loop =>
      refine .steadyBind (steady_observe (Eval.isMild_get _)) rfl hmild fun current u hu => ?_
      refine .steadyBind (steady_counterAfter _ current) hu hmild fun counter u hu => ?_
      refine .steadyBind (steady_store _ _) hu hmild fun _ u hu => ?_
      rw [after_bind, after_memory, after_bind, after_setFrameState]
      have hk : (FrameState.for loop).Keeps (.for { loop with
          counter := counter.add loop.step
          assigned := u.memory.variables.peek loop.name }) := ⟨rfl, fun _ h => by cases h⟩
      refine after_repeatOrLeave _ rfl hb hk ?_
      rw [State.control_withFrames, State.frames_control, hu]
      rfl
    | «if» | «while» | «do» | select | sub | «try» =>
      exact .mismatch hb (by simp [Frame.kind, FrameState.kind, Statement.blockKind?])
  · rw [State.depth_control] at hp
    exact .unentered ⟨rfl, by simp, rfl⟩ rfl ho hp

/-! ## EXIT and CONTINUE -/

theorem steers_exit (kind : BlockKind) (name : Option Name) :
    Steers (.exit kind name) (exitStatement kind name) := by
  intro p s
  unfold exitStatement target?
  simp only [after_bind, after_frames, after_depth, after_pure, State.frames_control,
    State.depth_control]
  cases ht : s.control.frames.lastPlace? (isTarget kind name s.control.depth) with
  | none => exact .onward (Or.inr ⟨kind, name, Or.inl rfl, ht⟩) rfl
  | some i =>
    obtain ⟨f, hf, _⟩ := lastPlace?_eq_some ht
    change s.control.frames.get? i = some f at hf
    simp only [after_bind, after_frames, after_require, after_ite, after_truncate, after_pure,
      State.control_withFrames, State.frames_control, hf]
    refine ⟨fun g hg => ?_, fun h => by cases h⟩
    cases hg
    refine ⟨fun hk => ?_, fun hk => ?_⟩
    · exact .toLast (Or.inr ⟨rfl, hk⟩) ht hf
    · exact .exit ht hf hk

theorem steers_continue (kind : BlockKind) (name : Option Name) :
    Steers (.continue kind name) (continueStatement kind name) := by
  intro p s
  unfold continueStatement target?
  simp only [after_bind, after_frames, after_depth, after_pure, State.frames_control,
    State.depth_control]
  cases ht : s.control.frames.lastPlace? (isTarget kind name s.control.depth) with
  | none => exact .onward (Or.inr ⟨kind, name, Or.inr rfl, ht⟩) rfl
  | some i =>
    obtain ⟨f, hf, _⟩ := lastPlace?_eq_some ht
    change s.control.frames.get? i = some f at hf
    simp only [after_bind, after_frames, after_require, after_truncate, after_pure,
      State.control_withFrames, State.frames_control,
      s.control.frames.get?_truncate (Nat.lt_succ_self i), hf]
    refine ⟨fun g hg => ?_, fun h => by cases h⟩
    cases hg
    exact .toLast (Or.inl rfl) ht hf

/-! ## Calls -/

/-- A call puts the line to return to on top of the others. -/
theorem after_enterCall {p : Program} {s : State} {aliases : List (Name × Name)}
    {Q : Unit → State → Prop} {E : Error → State → Prop}
    (hQ : ∀ calls t, s.control.calls.push (some (s.control.line + 1)) = .ok calls →
      t.control = { s.control with calls } → Q () t)
    (hE : ∀ e, Error.Fresh e → E e s) : After (enterCall aliases) p s Q E := by
  unfold enterCall Variables.enterCall
  simp only [after_bind, after_memory, after_ofExcept, after_setMemory]
  unfold Stack.push
  have hlen : s.control.calls.items.length = s.memory.variables.scopes.items.length :=
    List.length_map _
  by_cases h : s.memory.variables.scopes.items.length < s.memory.variables.scopes.limit
  · rw [if_pos h]
    refine ⟨fun vars hv => ?_, fun e he => by cases he⟩
    cases hv
    refine hQ _ _ (Stack.push_of_lt _ (hlen.symm ▸ h)) ?_
    simp [State.control, Variables.calls]
  · rw [if_neg h]
    refine ⟨fun vars hv => (by cases hv), fun e he => ?_⟩
    cases he
    exact hE _ rfl

theorem steers_goto (label : Name) : Steers (.goto label) (gotoStatement label) := by
  intro p s
  unfold gotoStatement labelLine
  simp only [after_bind, after_read, after_require, after_pure]
  exact ⟨fun target hl => .goto hl, fun hl => .noLabel ⟨rfl, by simp [Error.labelNotFound], rfl⟩
    (Or.inl rfl) hl⟩

theorem steers_gosub (label : Name) : Steers (.gosub label) (gosubStatement label) := by
  intro p s
  unfold gosubStatement labelLine
  simp only [after_bind, after_read, after_require, after_pure]
  refine ⟨fun target hl => ?_, fun hl => .noLabel ⟨rfl, by simp [Error.labelNotFound], rfl⟩
    (Or.inr rfl) hl⟩
  refine after_enterCall (fun calls t hc ht => ?_) fun e he => .mild he
  rw [ht]
  exact .gosub hl hc

theorem steers_sub (name : Name) (params : List Parameter) :
    Steers (.sub name params) subStatement := by
  intro p s
  unfold subStatement endOfSub
  simp only [after_bind, after_line, after_closer, after_require, after_pure]
  exact ⟨fun last hl => .passSub hl, fun hl => .unclosed ⟨rfl, by simp, rfl⟩ rfl hl⟩

theorem steady_passArgument (param : Parameter) (e : Expression) :
    Steady Error.Fresh (passArgument param e) := by
  have hv : Steady Error.Fresh (do return Passed.value param.name (← value e)) :=
    steady_bind (steady_value e) fun _ => steady_pure _
  cases e with
  | «variable» target => exact steady_ite (fun _ => steady_pure _) fun _ => hv
  | _ => exact hv

theorem steady_passArguments (params : List Parameter) (args : List Expression) :
    Steady Error.Fresh (passArguments params args) := by
  induction params generalizing args with
  | nil => exact steady_pure _
  | cons param params ih =>
    cases args with
    | nil => exact steady_pure _
    | cons e args =>
      exact steady_bind (steady_passArgument param e) fun _ =>
        steady_bind (ih args) fun _ => steady_pure _

theorem steady_bindValues (passed : List Passed) : Steady Error.Fresh (bindValues passed) := by
  induction passed with
  | nil => exact steady_pure _
  | cons a rest ih =>
    cases a with
    | «alias» parameter target => exact ih
    | value parameter v => exact steady_bind (steady_storeLocal parameter v) fun _ => ih

theorem steers_call (name : Name) (args : List Expression) :
    Steers (.call name args) (callStatement name args) := by
  intro p s
  unfold callStatement endOfSub
  rw [after_bind, after_read, after_bind, after_require]
  refine ⟨fun first hfirst => ?_, fun h => .noSub ⟨rfl, by simp [Error.subNotDefined], rfl⟩ h⟩
  obtain ⟨other, params, hsub, _⟩ := p.subPlace?_eq_some hfirst
  rw [after_bind, after_statement, hsub]
  refine ⟨fun st h => ?_, fun h => by cases h⟩
  cases h
  dsimp only
  rw [after_ite]
  refine ⟨fun _ => .mild rfl, fun _ => ?_⟩
  simp only [bind_assoc]
  rw [after_bind, after_closer, after_bind, after_require]
  refine ⟨fun last hlast => ?_, fun h => .subUnclosed ⟨rfl, by simp, rfl⟩ hfirst h⟩
  have hmild : ∀ (e : Error) (t : State), e.Fresh → t.control = s.control →
      Fails p s.control (.call name args) e t.control := fun e t he ht => ht ▸ .mild he
  refine .steadyBind (steady_passArguments params args) rfl hmild fun passed t ht => ?_
  rw [after_bind]
  refine after_enterCall (fun calls u hc hu => ?_) fun e he => hmild e t he ht
  rw [ht] at hc hu
  have hincall : ∀ (e : Error) (t : State), e.Fresh → t.control = { s.control with calls } →
      Fails p s.control (.call name args) e t.control := fun e t he ht => ht ▸ .mildInCall he hc
  refine .steadyBind (steady_bindValues passed) hu hincall fun _ v hv => ?_
  simp only [after_bind, after_enter, after_pure, State.frames_control, State.depth_control,
    State.control_withFrames, hv]
  refine ⟨fun fs hfs => .call hfirst hlast hc hfs, fun e he => ?_⟩
  exact .mildInCall (Frames.mild_enter he) hc

/-! ## TRY -/

theorem steers_try : Steers .try tryStatement := by
  intro p s
  unfold tryStatement endOfTry
  simp only [after_bind, after_line, after_closer, after_require, after_enter, after_pure,
    State.line_control, State.frames_control, State.depth_control, State.control_withFrames]
  refine ⟨fun last hlast => ?_, fun hnone => .unclosed ⟨rfl, by simp, rfl⟩ rfl hnone⟩
  refine ⟨fun fs hfs => ?_, fun er her => .mild (Frames.mild_enter her)⟩
  refine .opened rfl hlast ⟨rfl, fun t ht => ?_⟩ hfs (Or.inl rfl) (by simp [Statement.blockKind?])
  cases ht
  exact ⟨rfl, rfl, rfl, rfl⟩

theorem steers_catch (name : Option Name) : Steers (.catch name) catchStatement := by
  intro p s
  unfold catchStatement endOfTry
  simp only [after_bind, after_line, after_opener, after_require, after_framePlace, after_frames,
    State.line_control, State.frames_control, State.depth_control]
  refine ⟨fun first ho => ?_, fun ho => .unopened ⟨rfl, by simp [Error.catchWithoutTry], rfl⟩
    (Or.inl rfl) ho⟩
  cases hp : s.control.frames.place? first s.control.depth with
  | none =>
    simp only [Option.bind_none, after_bind, after_closer, after_require, after_pure]
    exact ⟨fun last hl => .skipped rfl ho hp hl, fun hl => .clauseUnclosed ⟨rfl, by simp, rfl⟩ rfl ho hp hl⟩
  | some i =>
    obtain ⟨f, hf, _⟩ := s.control.frames.place?_eq_some hp
    have hb : s.control.InBlock p (.catch name) first i f := ⟨ho, hp, hf⟩
    simp only [Option.bind_some, hf]
    split
    · rename_i hstate
      exact .clause rfl hb (Or.inr (Or.inr ⟨_, hstate, rfl⟩))
    · exact .clause rfl hb (Or.inl rfl)

/-- The frame of a TRY block seen from one of its lines, if there is one. -/
theorem after_tryFrame {p : Program} {s : State} (st : Statement)
    {Q : Option (Nat × Nat × Frame) → State → Prop} {E : Error → State → Prop}
    (hst : st.openedBy = Statement.opensTry)
    (hnone : (p.opener s.control.line st.openedBy = none ∨
      ∃ first, p.opener s.control.line st.openedBy = some first ∧
        s.control.frames.place? first s.control.depth = none) → Q none s)
    (hsome : ∀ first i f, s.control.InBlock p st first i f → Q (some (first, i, f)) s) :
    After tryFrame? p s Q E := by
  unfold tryFrame?
  simp only [after_bind, after_line, after_opener, State.line_control]
  rw [← hst]
  cases ho : p.opener s.control.line st.openedBy with
  | none => exact hnone (Or.inl ho)
  | some first =>
    simp only [after_bind, after_framePlace, State.frames_control, State.depth_control]
    cases hp : s.control.frames.place? first s.control.depth with
    | none => exact hnone (Or.inr ⟨first, ho, hp⟩)
    | some i =>
      obtain ⟨f, hf, _⟩ := s.control.frames.place?_eq_some hp
      simp only [after_bind, after_frames, after_pure, State.frames_control, hf]
      exact hsome first i f ⟨ho, hp, hf⟩

theorem steers_finally : Steers .finally finallyStatement := by
  intro p s
  unfold finallyStatement
  rw [after_bind]
  refine after_tryFrame .finally rfl (fun _ => .finallyAlone rfl) fun first i f hb => ?_
  obtain ⟨start, last, depth, state⟩ := f
  cases state with
  | «try» block =>
    rw [after_bind, after_setFrameState, after_pure]
    refine .tookClause rfl hb rfl fun t ht => ⟨rfl, fun u hu => ?_⟩
    cases hu
    exact ⟨block, rfl, rfl, rfl, rfl⟩
  | «if» | «while» | «do» | «for» | select | sub => exact .finallyAlone rfl

theorem steers_endTry : Steers .endTry endTryStatement := by
  intro p s
  unfold endTryStatement
  rw [after_bind]
  refine after_tryFrame .endTry rfl (fun h => ?_) fun first i f hb => ?_
  · rcases h with ho | ⟨first, ho, hp⟩
    · exact .closedNothing rfl ho
    · have hmove : Moves p s.control .endTry .next
          { s.control with frames := s.control.frames.leave first s.control.depth } :=
        .closed rfl ho
      rw [Frames.leave_of_none _ hp] at hmove
      exact hmove
  · rw [after_bind, after_leave, State.depth_control]
    split
    · rename_i hstate
      exact .raised rfl hb hstate rfl
    · exact .closed rfl hb.opener

/-! ## All statements -/

/-- Whatever a statement does to the control of a program is one of the moves
or one of the failures above. -/
theorem steers_execute : (st : Statement) → Steers st (execute st)
  | .if e => steers_if (.if e) e false (Or.inl rfl)
  | .unless e => steers_if (.unless e) e true (Or.inr rfl)
  | .elseIf e => steers_elseIf e
  | .else => steers_else
  | .endIf => steers_endIf .endIf (Or.inl rfl)
  | .endUnless => steers_endIf .endUnless (Or.inr rfl)
  | .while e => steers_while (.while e) e false (Or.inl ⟨rfl, rfl⟩)
  | .until e => steers_while (.until e) e true (Or.inr ⟨rfl, rfl⟩)
  | .wend => steers_wend .wend false (Or.inl ⟨rfl, rfl⟩)
  | .uend => steers_wend .uend true (Or.inr ⟨rfl, rfl⟩)
  | .do c => steers_do c
  | .loop c => steers_loop c
  | .for name start limit step => steers_for name start limit step
  | .next name => steers_next name
  | .select e => steers_select e
  | .case tests => steers_case tests
  | .endSelect => steers_endSelect
  | .try => steers_try
  | .catch name => steers_catch name
  | .finally => steers_finally
  | .endTry => steers_endTry
  | .exit kind name => steers_exit kind name
  | .continue kind name => steers_continue kind name
  | .goto label => steers_goto label
  | .gosub label => steers_gosub label
  | .sub name params => steers_sub name params
  | .call name args => steers_call name args
  | .return => fun _ _ => .return (Or.inl rfl)
  | .endSub => fun _ _ => .return (Or.inr rfl)
  | .stop => fun _ _ => .stop
  | .remark _ | .label _ | .assign .. | .localVariable .. | .dim .. | .swap .. | .push ..
  | .pop .. | .shift .. | .unshift .. | .print _ | .throw _ | .randomize _ | .sleep _ | .view _
  | .color .. | .locate .. | .cls | .draw .. | .tempo _ | .volume _ | .voice _ | .play ..
  | .playStop | .openFile .. | .closeFile _ | .readBytes .. | .writeBytes .. | .seek ..
  | .loadFile .. | .saveFile .. => steers_steady rfl

end Run

end LineBasic
