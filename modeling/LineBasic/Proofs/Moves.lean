-- What a statement can do to the control of a program: its line, the blocks it
-- is in and the calls it is in. `Moves` lists every way to succeed and `Fails`
-- every way to fail, with the conditions under which the program takes it.
-- What a condition or an argument evaluates to is left open.
import LineBasic.Proofs.Steady

namespace LineBasic

/-! ## Families of statements -/

namespace Statement

/-- The kind of the block that a statement opens, divides or closes. -/
def blockKind? : Statement → Option BlockKind
  | .if _ | .unless _ | .elseIf _ | .else | .endIf | .endUnless => some .if
  | .while _ | .until _ | .wend | .uend => some .while
  | .do _ | .loop _ => some .do
  | .for .. | .next _ => some .for
  | .select _ | .case _ | .endSelect => some .select
  | .try | .catch _ | .finally | .endTry => some .try
  | .sub .. | .endSub => some .sub
  | _ => none

/-- What an opening line searches for to find the end of its block. -/
def closedBy : Statement → Statement → Bool
  | .if _ | .unless _ => closesIf
  | .while _ | .until _ => closesWhile
  | .do _ => closesDo
  | .for name .. => closesFor name
  | .select _ => closesSelect
  | .try => closesTry
  | .sub .. => closesSub
  | _ => fun _ => false

/-- What a clause searches for, from the opening line of its block, to find the end of it. -/
def clauseClosedBy : Statement → Statement → Bool
  | .elseIf _ | .else => closesIf
  | .case _ => closesSelect
  | .catch _ => closesTry
  | _ => fun _ => false

/-- What a clause or a closing line searches for to find its opening line. -/
def openedBy : Statement → Statement → Bool
  | .elseIf _ => opensIf
  | .else | .endIf | .endUnless => opensIfOrUnless
  | .wend | .uend => opensWhile
  | .loop _ => opensDo
  | .next _ => opensFor
  | .case _ | .endSelect => opensSelect
  | .catch _ | .finally | .endTry => opensTry
  | _ => fun _ => false

/-- What ends the branch that a line of a choosing block opens. -/
def branchEndedBy : Statement → Statement → Bool
  | .if _ | .unless _ | .elseIf _ => endsIfBranch
  | .select _ | .case _ => endsCase
  | _ => fun _ => false

/-- A line that goes on to the next clause if its branch is not taken. -/
def branches : Statement → Bool
  | .if _ | .unless _ | .elseIf _ | .select _ | .case _ => true
  | _ => false

/-- The head of a loop, which may be passed over. -/
def headsLoop : Statement → Bool
  | .while _ | .until _ | .do _ | .for .. => true
  | _ => false

/-- The last line of a loop. -/
def closesLoop : Statement → Bool
  | .wend | .uend | .loop _ | .next _ => true
  | _ => false

/-- The last line of a block that ends whenever it is reached. -/
def closesOnce : Statement → Bool
  | .endIf | .endUnless | .endSelect | .endTry => true
  | _ => false

/-- What a clause or a closing line takes for its opening line opens a block of
its kind. -/
theorem opens_of_openedBy {st o : Statement} (h : st.openedBy o = true) :
    o.role = .opener ∧ o.blockKind? = st.blockKind? := by
  unfold openedBy at h
  split at h
  all_goals first
    | cases h
    | (unfold opensIf at h; split at h <;> first | exact ⟨rfl, rfl⟩ | cases h)
    | (unfold opensIfOrUnless at h; split at h <;> first | exact ⟨rfl, rfl⟩ | cases h)
    | (unfold opensWhile at h; split at h <;> first | exact ⟨rfl, rfl⟩ | cases h)
    | (unfold opensDo at h; split at h <;> first | exact ⟨rfl, rfl⟩ | cases h)
    | (unfold opensFor at h; split at h <;> first | exact ⟨rfl, rfl⟩ | cases h)
    | (unfold opensSelect at h; split at h <;> first | exact ⟨rfl, rfl⟩ | cases h)
    | (unfold opensTry at h; split at h <;> first | exact ⟨rfl, rfl⟩ | cases h)

theorem role_of_isSteady {st : Statement} (h : st.isSteady = true) : st.role = .plain := by
  unfold isSteady at h
  split at h
  all_goals first
    | cases h
    | simpa using h

theorem role_of_headsLoop {st : Statement} (h : st.headsLoop = true) : st.role = .opener := by
  unfold headsLoop at h
  split at h <;> first | rfl | cases h

theorem role_of_closesLoop {st : Statement} (h : st.closesLoop = true) :
    st.role = .closer ∧ st ≠ .endSub := by
  unfold closesLoop at h
  split at h <;> first | exact ⟨rfl, by simp⟩ | cases h

theorem role_of_closesOnce {st : Statement} (h : st.closesOnce = true) :
    st.role = .closer ∧ st ≠ .endSub := by
  unfold closesOnce at h
  split at h <;> first | exact ⟨rfl, by simp⟩ | cases h

theorem blockKind?_ne_sub {st : Statement} (h : st.closesOnce = true ∨ st.closesLoop = true) :
    st.blockKind? ≠ some .sub := by
  unfold closesOnce closesLoop at h
  cases st <;> simp [blockKind?] at h ⊢

end Statement

/-! ## Moves -/

/-- The line that a program goes on at. -/
def Flow.target? (line : Nat) : Flow → Option Nat
  | .next | .rest _ => some (line + 1)
  | .jump target => some target
  | .return | .stop => none

theorem Flow.target?_of_isOnward {flow : Flow} {line target : Nat} (h : flow.isOnward = true)
    (ht : flow.target? line = some target) : target = line + 1 := by
  cases flow with
  | next | rest _ => exact (Option.some.inj ht).symm
  | jump _ | «return» | stop => cases h

/-- The state of a block that was just entered. A TRY block starts with its
body, knows its clauses and holds no error. -/
def FrameState.Fresh (p : Program) (line : Nat) (kind : Option BlockKind) (state : FrameState) :
    Prop :=
  some state.kind = kind ∧
    ∀ t, state = .try t → t.catchLine = p.closer line Statement.isCatch ∧
      t.finallyLine = p.closer line Statement.isFinally ∧ t.pending = none ∧ t.phase = .body

/-- A state that a block may go over to without being left. A TRY block keeps
its clauses and its error. -/
def FrameState.Keeps (old new : FrameState) : Prop :=
  new.kind = old.kind ∧
    ∀ t, new = .try t → ∃ u, old = .try u ∧ t.catchLine = u.catchLine ∧
      t.finallyLine = u.finallyLine ∧ t.pending = u.pending

theorem FrameState.Keeps.refl (state : FrameState) : state.Keeps state :=
  ⟨rfl, fun t ht => ⟨t, ht, rfl, rfl, rfl⟩⟩

/-- The block of the line that a program is at has a frame: it starts at
`first`, and its frame `f` stands at place `i`. -/
structure Control.InBlock (p : Program) (c : Control) (st : Statement) (first i : Nat) (f : Frame) :
    Prop where
  opener : p.opener c.line st.openedBy = some first
  place : c.frames.place? first c.depth = some i
  frame : c.frames.get? i = some f

inductive Moves (p : Program) (c : Control) : Statement → Flow → Control → Prop where
  /-- A plain statement, or a way out of a block that is not there. -/
  | onward {st flow} (hs : st.isSteady = true ∨ ∃ kind name,
      (st = .exit kind name ∨ st = .continue kind name) ∧
        c.frames.lastPlace? (Run.isTarget kind name c.depth) = none)
      (hf : flow.isOnward = true) : Moves p c st flow c
  | return {st} (hs : st = .return ∨ st = .endSub) : Moves p c st .return c
  | stop : Moves p c .stop .stop c
  | goto {label target} (hl : p.labelPlace? label = some target) :
      Moves p c (.goto label) (.jump target) c
  | gosub {label target calls} (hl : p.labelPlace? label = some target)
      (hc : c.calls.push (some (c.line + 1)) = .ok calls) :
      Moves p c (.gosub label) (.jump target) { c with calls }
  | passSub {name parameters last} (hl : p.closer c.line Statement.closesSub = some last) :
      Moves p c (.sub name parameters) (.jump (last + 1)) c
  | call {name args first last calls frames} (hs : p.subPlace? name = some first)
      (hl : p.closer first Statement.closesSub = some last)
      (hc : c.calls.push (some (c.line + 1)) = .ok calls)
      (hf : c.frames.enter ⟨first, last, calls.size, .sub⟩ = .ok frames) :
      Moves p c (.call name args) (.jump (first + 1)) { c with frames, calls }
  | opened {st last state frames flow} (ho : st.role = .opener)
      (hl : p.closer c.line st.closedBy = some last)
      (hs : state.Fresh p c.line st.blockKind?)
      (hf : c.frames.enter ⟨c.line, last, c.depth, state⟩ = .ok frames)
      (hw : flow = .next ∨ st.branches = true ∧
        flow = .jump ((p.closer c.line st.branchEndedBy).getD last))
      (hk : st.blockKind? ≠ some .sub) : Moves p c st flow { c with frames }
  | passed {st last} (ho : st.headsLoop = true) (hl : p.closer c.line st.closedBy = some last) :
      Moves p c st (.jump (last + 1)) { c with frames := c.frames.leave c.line c.depth }
  /-- A clause of a block that a jump led into. -/
  | skipped {st first last} (hr : st.role = .clause) (ho : p.opener c.line st.openedBy = some first)
      (hp : c.frames.place? first c.depth = none)
      (hl : p.closer first st.clauseClosedBy = some last) : Moves p c st (.jump last) c
  | clause {st first i f target} (hr : st.role = .clause) (hb : c.InBlock p st first i f)
      (ht : target = f.last ∨
        st.branches = true ∧ target = (p.closer c.line st.branchEndedBy).getD f.last ∨
        ∃ t, f.state = .try t ∧ t.finallyLine = some target) : Moves p c st (.jump target) c
  | tookClause {st first i f state} (hr : st.role = .clause) (hb : c.InBlock p st first i f)
      (hk : some state.kind = st.blockKind?)
      (ht : ∀ t, state = .try t → f.state.Keeps state) :
      Moves p c st .next { c with frames := c.frames.modify i fun f => { f with state } }
  | finallyAlone {st} (hs : st = .finally) : Moves p c st .next c
  | closed {st first} (hr : st.closesOnce = true)
      (ho : p.opener c.line st.openedBy = some first) :
      Moves p c st .next { c with frames := c.frames.leave first c.depth }
  | closedNothing {st} (hr : st.closesOnce = true) (ho : p.opener c.line st.openedBy = none) :
      Moves p c st .next c
  | again {st first i f state} (hr : st.closesLoop = true) (hb : c.InBlock p st first i f)
      (hk : f.state.Keeps state) :
      Moves p c st (.jump (first + 1))
        { c with frames := (c.frames.truncate (i + 1)).modify i fun f => { f with state } }
  | left {st first i f} (hr : st.closesLoop = true) (hb : c.InBlock p st first i f) :
      Moves p c st .next { c with frames := c.frames.truncate i }
  | exit {kind name i f} (ht : c.frames.lastPlace? (Run.isTarget kind name c.depth) = some i)
      (hf : c.frames.get? i = some f) (hk : kind ≠ .sub) :
      Moves p c (.exit kind name) (.jump (f.last + 1)) { c with frames := c.frames.truncate i }
  | toLast {st kind name i f}
      (hs : st = .continue kind name ∨ st = .exit kind name ∧ kind = .sub)
      (ht : c.frames.lastPlace? (Run.isTarget kind name c.depth) = some i)
      (hf : c.frames.get? i = some f) :
      Moves p c st (.jump f.last) { c with frames := c.frames.truncate (i + 1) }

/-- A return leaves it to the call to say where the program goes on. -/
theorem Moves.eq_of_return {p : Program} {c c' : Control} {st : Statement}
    (h : Moves p c st .return c') : c' = c := by
  cases h with
  | onward | «return» => rfl
  | opened _ _ _ _ hflow _ => rcases hflow with hflow | ⟨_, hflow⟩ <;> cases hflow

/-! ## Failures -/

/-- A structural error other than an internal one, with no line noted in it yet. -/
structure Error.Misplaced (e : Error) : Prop where
  structural : e.isStructural = true
  code_ne : e.code ≠ .internalError
  line : e.line = none

inductive Fails (p : Program) (c : Control) : Statement → Error → Control → Prop where
  | mild {st e} (he : e.Fresh) : Fails p c st e c
  | emptyPath {st e} (he : e.line = none) (hs : st.hasPaths = false) : Fails p c st e c
  /-- A test or a counter at the end of a loop fails. -/
  | mildInLoop {st e first i f} (he : e.Fresh) (hr : st.closesLoop = true)
      (hb : c.InBlock p st first i f) :
      Fails p c st e { c with frames := c.frames.truncate (i + 1) }
  /-- A call fails after its scope was opened. -/
  | mildInCall {name args e calls} (he : e.Fresh)
      (hc : c.calls.push (some (c.line + 1)) = .ok calls) :
      Fails p c (.call name args) e { c with calls }
  /-- The end of a TRY block raises the error that waited for it. -/
  | raised {st e first i f t} (hs : st = .endTry) (hb : c.InBlock p st first i f)
      (ht : f.state = .try t) (he : t.pending = some e) :
      Fails p c st e { c with frames := c.frames.leave first c.depth }
  | unclosed {st e} (he : e.Misplaced) (hr : st.role = .opener)
      (hl : p.closer c.line st.closedBy = none) : Fails p c st e c
  | unopened {st e} (he : e.Misplaced) (hr : st.role = .clause ∨ st.closesLoop = true)
      (ho : p.opener c.line st.openedBy = none) : Fails p c st e c
  | clauseUnclosed {st e first} (he : e.Misplaced) (hr : st.role = .clause)
      (ho : p.opener c.line st.openedBy = some first)
      (hp : c.frames.place? first c.depth = none)
      (hl : p.closer first st.clauseClosedBy = none) : Fails p c st e c
  | unentered {st e first} (he : e.Misplaced) (hr : st.closesLoop = true)
      (ho : p.opener c.line st.openedBy = some first)
      (hp : c.frames.place? first c.depth = none) : Fails p c st e c
  | otherLoop {name loop start limit step e first} (he : e.Misplaced)
      (ho : p.opener c.line Statement.opensFor = some first)
      (hs : p.statement? first = some (.for loop start limit step))
      (hn : loop.alike name = false) : Fails p c (.next (some name)) e c
  | noLabel {st label e} (he : e.Misplaced) (hs : st = .goto label ∨ st = .gosub label)
      (hl : p.labelPlace? label = none) : Fails p c st e c
  | noSub {name args e} (he : e.Misplaced) (hs : p.subPlace? name = none) :
      Fails p c (.call name args) e c
  | subUnclosed {name args e first} (he : e.Misplaced) (hs : p.subPlace? name = some first)
      (hl : p.closer first Statement.closesSub = none) : Fails p c (.call name args) e c
  /-- The frame of the block is of another kind than its line. -/
  | mismatch {st e first i f c'} (hb : c.InBlock p st first i f)
      (hk : some f.kind ≠ st.blockKind?) : Fails p c st e c'

end LineBasic
