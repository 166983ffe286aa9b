-- The lines of a program at other places. A relocation moves each line of one
-- program to its place in another, and with it what a running program notes about
-- lines: the line it is at, the lines to return to, the lines of blocks and the
-- lines of errors. Here is what it is to carry a computation along, and the rules
-- for the parts that statements are made of.
import LineBasic.Proofs.Reading
import LineBasic.Proofs.Search
import LineBasic.Proofs.Steady

namespace LineBasic

/-! ## What notes a line -/

section Moving

variable (place : Nat → Nat)

def Error.moved (e : Error) : Error := { e with line := e.line.map place }

def TryBlock.moved (t : TryBlock) : TryBlock :=
  { t with
    catchLine := t.catchLine.map place
    finallyLine := t.finallyLine.map place
    pending := t.pending.map (Error.moved place) }

def FrameState.moved : FrameState → FrameState
  | .try block => .try (block.moved place)
  | state => state

def Frame.moved (f : Frame) : Frame :=
  { first := place f.first, last := place f.last, depth := f.depth, state := f.state.moved place }

def Frames.moved (fs : Frames) : Frames := fs.mapItems (Frame.moved place)

/-- A call goes on after the line that made it, wherever that line is. -/
def afterMoved : Nat → Nat
  | 0 => 0
  | line + 1 => place line + 1

def Scope.moved (s : Scope) : Scope := { s with returnLine := s.returnLine.map (afterMoved place) }

def Variables.moved (vars : Variables) : Variables :=
  { vars with scopes := vars.scopes.mapItems (Scope.moved place) }

theorem Error.moved_of_line {e : Error} (h : e.line = none) : e.moved place = e := by
  obtain ⟨code, line, message⟩ := e
  cases h
  rfl

/-! ### Lines that stay where they are -/

theorem Stack.mapItems_of_id {α : Type} {f : α → α} (s : Stack α) (h : ∀ a, f a = a) :
    s.mapItems f = s := by
  rw [funext h, mapItems, List.map_id']

@[simp] theorem Error.moved_id (e : Error) : e.moved id = e := by simp [moved]

theorem FrameState.moved_id (state : FrameState) : state.moved id = state := by
  cases state with
  | «try» b =>
    have hpending : b.pending.map (Error.moved id) = b.pending := by cases b.pending <;> simp
    simp [moved, TryBlock.moved, hpending]
  | _ => rfl

@[simp] theorem Frames.moved_id (fs : Frames) : fs.moved id = fs :=
  fs.mapItems_of_id fun f => by simp [Frame.moved, FrameState.moved_id]

@[simp] theorem Variables.moved_id (vars : Variables) : vars.moved id = vars := by
  have hafter : ∀ line, afterMoved id line = line := fun line => by cases line <;> rfl
  have hscopes := vars.scopes.mapItems_of_id (f := Scope.moved id) fun s => by
    simp [Scope.moved, funext hafter]
  rw [moved, hscopes]

/-! ### Variables -/

namespace Variables

variable (vars : Variables) (name : Name) (here : Bool)

theorem locate_moved (scopes : List Scope) (depth : Nat) (key : Name) (here : Bool) :
    locate (scopes.map (Scope.moved place)) depth key here = locate scopes depth key here := by
  induction depth generalizing key here with
  | zero => rfl
  | succ level ih =>
    rw [locate, locate, List.getElem?_map]
    cases scopes[level]? with
    | none => rfl
    | some scope =>
      simp only [Option.map_some, Scope.moved]
      cases scope.aliases.get? key with
      | none => rfl
      | some target => simp only [ih]

@[simp] theorem depth_moved : (vars.moved place).depth = vars.depth := Stack.mapItems_size _ _

@[simp] theorem cell_moved : (vars.moved place).cell name here = vars.cell name here := by
  simp only [cell, depth_moved]
  exact locate_moved _ _ _ _ _

@[simp] theorem fetch_moved (c : Cell) : (vars.moved place).fetch c = vars.fetch c := by
  cases c with
  | global key => rfl
  | «local» level key =>
    simp only [fetch, moved, Stack.mapItems_get?]
    cases vars.scopes.get? level <;> rfl

theorem store_moved (v : Value) (c : Cell) :
    (vars.store v c).moved place = (vars.moved place).store v c := by
  cases c with
  | global key => rfl
  | «local» level key =>
    simp only [store, moved]
    rw [Stack.mapItems_modify]
    exact fun _ => rfl

@[simp] theorem lookup_moved : (vars.moved place).lookup name = vars.lookup name := by
  simp only [lookup, cell_moved, fetch_moved]

@[simp] theorem peek_moved : (vars.moved place).peek name = vars.peek name := by
  simp only [peek, lookup_moved]

@[simp] theorem hasLocal_moved : (vars.moved place).hasLocal name = vars.hasLocal name := by
  simp only [hasLocal, moved, Stack.mapItems_top?]
  cases vars.scopes.top? <;> rfl

theorem put_moved (v : Value) :
    (vars.put name v here).moved place = (vars.moved place).put name v here := by
  simp only [put, store_moved, cell_moved]

theorem slot_moved : (vars.moved place).slot name =
    ((vars.slot name).1, (vars.slot name).2.1, (vars.slot name).2.2.moved place) := by
  simp only [slot, cell_moved, fetch_moved]
  cases vars.fetch (vars.cell name false) with
  | some v => rfl
  | none => simp only [store_moved]

theorem enterCall_moved (line : Nat) (aliases : List (Name × Name)) :
    (vars.moved place).enterCall (some (place line + 1)) aliases =
      (vars.enterCall (some (line + 1)) aliases).map (moved place) := by
  have hpush := vars.scopes.mapItems_push (Scope.moved place)
    { aliases := Table.ofList (aliases.map fun a => (a.1.key, a.2)), returnLine := some (line + 1) }
  simp only [Scope.moved, Option.map_some, afterMoved] at hpush
  unfold enterCall
  dsimp only [moved]
  rw [hpush]
  cases vars.scopes.push _ <;> rfl

theorem cutTo_moved (depth : Nat) :
    (vars.cutTo depth).moved place = (vars.moved place).cutTo depth := by
  simp only [cutTo, moved, Stack.mapItems_truncate]

theorem leaveCall_moved : (vars.moved place).leaveCall =
    (vars.leaveCall.1.map (afterMoved place), vars.leaveCall.2.moved place) := by
  simp only [leaveCall, moved, Stack.mapItems_top?, Stack.mapItems_pop]
  cases vars.scopes.top? <;> rfl

end Variables

/-! ### Blocks -/

theorem Stack.lastPlace?_mapItems {α : Type} {f : α → α} {test test' : α → Bool} (s : Stack α)
    (h : ∀ a, test' (f a) = test a) : (s.mapItems f).lastPlace? test' = s.lastPlace? test := by
  unfold lastPlace?
  rw [mapItems_items, lastPlace?_map]
  simp only [h]

theorem Stack.mild_push {α : Type} (s : Stack α) (a : α) : MildExcept (s.push a) := by
  unfold push
  split
  · exact mildExcept_ok _
  · exact (mildExcept_error _).2 rfl

namespace Frames

variable (fs : Frames)

theorem get?_moved (i : Nat) :
    Stack.get? (fs.moved place) i = (fs.get? i).map (Frame.moved place) :=
  fs.mapItems_get? _ i

theorem truncate_moved (size : Nat) :
    moved place (fs.truncate size) = Stack.truncate (fs.moved place) size :=
  fs.mapItems_truncate _ size

theorem modify_moved (i : Nat) (state : FrameState) :
    moved place (fs.modify i fun f => { f with state }) =
      Stack.modify (fs.moved place) i fun f => { f with state := state.moved place } :=
  fs.mapItems_modify _ i fun _ => rfl

theorem unwind_moved (depth : Nat) :
    (fs.unwind depth).moved place = (fs.moved place).unwind depth := by
  have hplace : Stack.lastPlace? (fs.moved place) (fun f => f.depth ≤ depth) =
      fs.lastPlace? fun f => f.depth ≤ depth := fs.lastPlace?_mapItems fun _ => rfl
  unfold unwind
  rw [hplace]
  split <;> exact truncate_moved place fs _

variable {place} (hplace : ∀ a b, place a = place b → a = b)

include hplace

/-- Lines that differ still differ after they are moved, so the same frame is found. -/
theorem place?_moved (line depth : Nat) :
    (fs.moved place).place? (place line) depth = fs.place? line depth := by
  refine fs.lastPlace?_mapItems fun f => ?_
  unfold Frame.isAt
  congr 1
  exact decide_eq_decide.2 ⟨hplace _ _, congrArg place⟩

theorem leave_moved (line depth : Nat) :
    (fs.leave line depth).moved place = (fs.moved place).leave (place line) depth := by
  unfold leave
  rw [place?_moved fs hplace]
  cases fs.place? line depth with
  | none => rfl
  | some i => exact truncate_moved place fs i

theorem enter_moved (f : Frame) :
    (fs.moved place).enter (f.moved place) = (fs.enter f).map (moved place) := by
  unfold enter
  have hleave : (fs.moved place).leave (f.moved place).first (f.moved place).depth =
      (fs.leave f.first f.depth).moved place := (leave_moved fs hplace f.first f.depth).symm
  rw [hleave]
  exact (fs.leave f.first f.depth).mapItems_push _ _

end Frames

end Moving

/-! ## Relocations -/

/-- The test of a search picks lines that open a block. -/
def Statement.PicksOpeners (wanted : Statement → Bool) : Prop :=
  ∀ st, wanted st = true → st.role = .opener

/-- Two programs, and for each line of the first its place in the second. Lines keep
their order, and searches that start at an opener, or at a clause whose opener can be
found, come to the same lines. The clocks may differ unless the time is read. -/
structure Relocation where
  old : Program
  new : Program
  place : Nat → Nat
  timed : Bool
  clock : Clock → Clock
  place_lt : ∀ {a b}, place a < place b ↔ a < b
  statement? : ∀ l, new.statement? (place l) = old.statement? l
  label : ∀ name, new.labelPlace? name = (old.labelPlace? name).map place
  sub : ∀ name, new.subPlace? name = (old.subPlace? name).map place
  closer : ∀ {l st}, old.statement? l = some st → st.role = .opener →
    ∀ wanted, new.closer (place l) wanted = (old.closer l wanted).map place
  opener : ∀ {l st}, old.statement? l = some st → st.role = .clause ∨ st.role = .closer →
    ∀ {wanted}, Statement.PicksOpeners wanted →
      new.opener (place l) wanted = (old.opener l wanted).map place
  clause : ∀ {l st first wanted}, old.statement? l = some st → st.role = .clause →
    Statement.PicksOpeners wanted → old.opener l wanted = some first →
    ∀ other, new.closer (place l) other = (old.closer l other).map place
  clock_eq : timed = true → ∀ c, clock c = c
  timely : ∀ {l st}, old.statement? l = some st → st.readsClock = true → timed = true

/-- A jump to line `a` is a jump to `b` once the program is moved: either to the place
of that line, or to what follows the place of the line before. -/
def Lands (place : Nat → Nat) (a b : Nat) : Prop :=
  b = place a ∨ ∃ k, a = k + 1 ∧ b = place k + 1

theorem lands_place (place : Nat → Nat) (a : Nat) : Lands place a (place a) := Or.inl rfl

theorem lands_after (place : Nat → Nat) (a : Nat) : Lands place (a + 1) (place a + 1) :=
  Or.inr ⟨a, rfl, rfl⟩

/-- How a program goes on, and how it goes on once it is moved. -/
inductive Flow.Moved (place : Nat → Nat) : Flow → Flow → Prop where
  | next : Moved place .next .next
  | jump {a b : Nat} (h : Lands place a b) : Moved place (.jump a) (.jump b)
  | return : Moved place .return .return
  | stop : Moved place .stop .stop
  | rest (delay : Nat) : Moved place (.rest delay) (.rest delay)

theorem Flow.Moved.eq_of_id {a b : Flow} (h : Moved id a b) : b = a := by
  cases h with
  | jump hlands =>
    rcases hlands with rfl | ⟨k, rfl, rfl⟩ <;> rfl
  | next | «return» | stop | rest _ => rfl

namespace Relocation

/-- Every line stays where it is, and only the clock shows another time. -/
def still (p : Program) (clock : Clock → Clock)
    (hclock : p.readsClock = true → ∀ c, clock c = c) : Relocation where
  old := p
  new := p
  place := id
  timed := p.readsClock
  clock := clock
  place_lt := Iff.rfl
  statement? _ := rfl
  label _ := by simp
  sub _ := by simp
  closer _ _ _ := by simp
  opener _ _ _ _ := by simp
  clause _ _ _ _ _ := by simp
  clock_eq := hclock
  timely := Program.readsClock_of_statement?

variable (m : Relocation)

theorem place_inj (a b : Nat) (h : m.place a = m.place b) : a = b := by
  have hab := m.place_lt (a := a) (b := b)
  have hba := m.place_lt (a := b) (b := a)
  omega

/-- Searches for the rest of the block that start at a line come to the same lines. -/
def Heads (l : Nat) : Prop :=
  ∀ wanted, m.new.closer (m.place l) wanted = (m.old.closer l wanted).map m.place

def memory (mem : Memory) : Memory :=
  { mem with «variables» := mem.variables.moved m.place, line := m.place mem.line }

/-- What a state becomes. -/
def state (s : State) : State :=
  { memory := m.memory s.memory
    frames := s.frames.moved m.place
    host := { s.host with clock := m.clock s.host.clock } }

theorem state_still {p : Program} {clock : Clock → Clock}
    (hclock : p.readsClock = true → ∀ c, clock c = c) (s : State) :
    (still p clock hclock).state s =
      { s with host := { s.host with clock := clock s.host.clock } } := by
  simp [state, memory, still]

theorem agrees_view (s : State) : s.view.Agrees m.timed (m.state s).view where
  lookup _ := (Variables.lookup_moved _ _ _).symm
  keyboard := rfl
  files := rfl
  clock h := (m.clock_eq h _).symm

end Relocation

namespace Run

variable {α β γ δ : Type} {m : Relocation} {I : Variables → Prop} {here : Nat}
  {R : α → γ → Prop} {Q : β → δ → Prop}

/-! ## Carrying -/

/-- A state at a line, with variables of which `I` holds. -/
def Fits (I : Variables → Prop) (here : Nat) (s : State) : Prop :=
  s.memory.line = here ∧ I s.memory.variables

/-- Two results that come to the same, the second one moved. -/
def Meets (m : Relocation) (I : Variables → Prop) (here : Nat) (R : α → γ → Prop) :
    EStateM.Result Error State α → EStateM.Result Error State γ → Prop
  | .ok a s, .ok b t => R a b ∧ t = m.state s ∧ Fits I here s
  | .error e s, .error f t => f = e.moved m.place ∧ t = m.state s ∧ Fits I here s
  | _, _ => False

/-- The second computation does in the moved program what the first does, and `I` is
kept. Both start at the line `here` and stay there. -/
def Carried (m : Relocation) (I : Variables → Prop) (here : Nat) (R : α → γ → Prop)
    (x : Run α) (y : Run γ) : Prop :=
  ∀ s, Fits I here s → Meets m I here R (x m.old s) (y m.new (m.state s))

theorem carried_pure {a : α} {b : γ} (h : R a b) :
    Carried m I here R (pure a : Run α) (pure b) := fun _ hs => ⟨h, rfl, hs⟩

theorem carried_throw (e : Error) :
    Carried m I here R (throw e : Run α) (throw (e.moved m.place)) := fun _ hs => ⟨rfl, rfl, hs⟩

/-- An error that notes no line is the same anywhere. -/
theorem carried_raise {e : Error} (h : e.line = none) :
    Carried m I here R (throw e : Run α) (throw e) := by
  intro s hs
  exact ⟨(Error.moved_of_line _ h).symm, rfl, hs⟩

theorem carried_bind {x : Run β} {y : Run δ} {f : β → Run α} {g : δ → Run γ}
    (hx : Carried m I here Q x y) (hf : ∀ a b, Q a b → Carried m I here R (f a) (g b)) :
    Carried m I here R (x >>= f) (y >>= g) := by
  intro s hs
  have hmeets := hx s hs
  cases hxs : x m.old s <;> cases hys : y m.new (m.state s) <;> rw [hxs, hys] at hmeets
  · obtain ⟨hq, rfl, ht⟩ := hmeets
    rw [bind_of_ok hxs, bind_of_ok hys]
    exact hf _ _ hq _ ht
  · exact hmeets.elim
  · exact hmeets.elim
  · rw [bind_of_error hxs, bind_of_error hys]
    exact hmeets

/-- The common case: the first parts yield the same value. -/
theorem carried_seq {x y : Run β} {f : β → Run α} {g : β → Run γ}
    (hx : Carried m I here Eq x y) (hf : ∀ a, Carried m I here R (f a) (g a)) :
    Carried m I here R (x >>= f) (y >>= g) :=
  carried_bind hx fun a _ hab => hab ▸ hf a

theorem carried_ite {c : Prop} [Decidable c] {x y : Run α} {x' y' : Run γ}
    (hx : Carried m I here R x x') (hy : Carried m I here R y y') :
    Carried m I here R (if c then x else y) (if c then x' else y') := by
  by_cases hc : c
  · rw [if_pos hc, if_pos hc]; exact hx
  · rw [if_neg hc, if_neg hc]; exact hy

/-- A result that may be moved by `f`, with errors that note no line. -/
theorem carried_ofExcept {x : Except Error α} (f : α → γ) (h : ∀ e, x = .error e → e.line = none) :
    Carried m I here (fun a b => b = f a ∧ x = .ok a) (ofExcept x) (ofExcept (x.map f)) := by
  cases x with
  | ok a => exact carried_pure ⟨rfl, rfl⟩
  | error e => exact carried_raise (h e rfl)

/-- What has to be there may be moved by `f`. -/
theorem carried_require {o : Option α} (f : α → γ) {e : Error} (he : e.line = none) :
    Carried m I here (fun a b => b = f a ∧ o = some a) (require o e) (require (o.map f) e) := by
  cases o with
  | some a => exact carried_pure ⟨rfl, rfl⟩
  | none => exact carried_raise he

/-! ### The same on both sides -/

/-- A computation that yields the same value in the moved program. -/
abbrev Same (m : Relocation) (I : Variables → Prop) (here : Nat) (x : Run α) : Prop :=
  Carried m I here Eq x x

/-- A computation that steers the moved program as it steers the program. -/
abbrev Directs (m : Relocation) (I : Variables → Prop) (here : Nat) (x : Run Flow) : Prop :=
  Carried m I here (Flow.Moved m.place) x x

theorem same_ofExcept {x : Except Error α} (h : ∀ e, x = .error e → e.line = none) :
    Same m I here (ofExcept x) := by
  cases x with
  | ok a => exact carried_pure rfl
  | error e => exact carried_raise (h e rfl)

theorem same_mild {x : Except Error α} (h : MildExcept x) : Same m I here (ofExcept x) :=
  same_ofExcept fun e he => (h e he).line

theorem same_require (o : Option α) {e : Error} (he : e.line = none) :
    Same m I here (require o e) := by
  cases o with
  | some a => exact carried_pure rfl
  | none => exact carried_raise he

theorem same_mapM {f : β → Run α} {l : List β} (h : ∀ b ∈ l, Same m I here (f b)) :
    Same m I here (l.mapM f) := by
  induction l with
  | nil => exact carried_pure rfl
  | cons b rest ih =>
    obtain ⟨hb, hrest⟩ := List.forall_mem_cons.1 h
    rw [List.mapM_cons]
    exact carried_seq hb fun _ => carried_seq (ih hrest) fun _ => carried_pure rfl

theorem same_forM {f : β → Run PUnit} {l : List β} (h : ∀ b ∈ l, Same m I here (f b)) :
    Same m I here (l.forM f) := by
  induction l with
  | nil => exact carried_pure rfl
  | cons b rest ih =>
    obtain ⟨hb, hrest⟩ := List.forall_mem_cons.1 h
    exact carried_seq hb fun _ => ih hrest

/-! ## Expressions -/

/-- An evaluation that comes to the same at any time, unless the time is told, and
notes no line in its errors. -/
theorem same_observe {x : Eval α} (hx : Eval.Agrees m.timed (fun t u => t = u) x)
    (hmild : x.IsMild) : Same m I here (observe x) := by
  intro s hs
  obtain ⟨hout, hstate⟩ := hx s.view (m.state s).view s.memory.trail s.memory.trail
    (m.agrees_view s) rfl
  have hsame : x (m.state s).view s.memory.trail = x s.view s.memory.trail :=
    (result_ext hout hstate).symm
  have htrail : (m.state s).memory.trail = s.memory.trail := rfl
  unfold observe State.observe
  rw [htrail, hsame]
  cases hr : x s.view s.memory.trail with
  | ok a t => exact ⟨rfl, rfl, hs⟩
  | error e t => exact ⟨(Error.moved_of_line _ (hmild _ _ _ _ hr).line).symm, rfl, hs⟩

variable {e : Expression}

/-- What may be called by an expression that reads the clock only if `timed`. -/
theorem allows_clock (timed : Bool) :
    Eval.Allows timed true fun word => timed || !Expression.clockWords.contains word := by
  intro word hword
  refine ⟨fun h => ?_, fun _ => rfl⟩
  cases timed with
  | true => rfl
  | false =>
    change (!Expression.clockWords.contains word) = true at hword
    rw [h] at hword
    cases hword

theorem same_value (h : Timely m.timed e) : Same m I here (value e) :=
  same_observe (Eval.agrees_evaluate Trail.abreast_eq (allows_clock m.timed) e
    (Expression.callsOnly_of_timely e h)) (isMild_evaluate e)

/-- A statement that reads the clock only if `timed` has only such expressions. -/
theorem timely_expressions {timed : Bool} {st : Statement}
    (h : st.readsClock = true → timed = true) : ∀ e ∈ st.expressions, Timely timed e :=
  fun _ he hr => h (Statement.readsClock_of_mem he hr)

theorem agrees_indexes {timed : Bool} {es : List Expression} (h : ∀ e ∈ es, Timely timed e) :
    Eval.Agrees timed (fun t u => t = u) (evaluateIndexes es) := by
  refine Eval.agrees_evaluateIndexes Trail.abreast_eq (allows_clock timed) es ?_
  refine Expression.allCallOnly_of_timely es fun hes => ?_
  obtain ⟨e, he, hr⟩ := Expression.exists_of_anyReadsClock hes
  exact h e he hr

theorem same_indexes {es : List Expression} (h : ∀ e ∈ es, Timely m.timed e) :
    Same m I here (observe (evaluateIndexes es)) :=
  same_observe (agrees_indexes h) (isMild_evaluateIndexes es)

theorem same_integer (h : Timely m.timed e) : Same m I here (integer e) :=
  carried_seq (same_value h) fun v => same_mild v.mild_toInteger

theorem same_real (h : Timely m.timed e) : Same m I here (real e) :=
  carried_seq (same_value h) fun v => same_mild v.mild_toReal

theorem same_count (h : Timely m.timed e) : Same m I here (count e) :=
  carried_seq (same_value h) fun v => same_mild v.mild_toCount

theorem same_text (h : Timely m.timed e) : Same m I here (text e) :=
  carried_seq (same_value h) fun v => same_mild v.mild_toText

theorem same_condition (h : Timely m.timed e) :
    Same m I here (condition e) := by
  refine carried_seq (same_value h) fun v => ?_
  cases v with
  | integer n => exact carried_pure rfl
  | real | string | complex | array | record => exact carried_raise rfl

theorem same_test (c : Condition) (h : ∀ e ∈ c.expressions, Timely m.timed e) :
    Same m I here (test c) := by
  cases c with
  | always => exact carried_pure rfl
  | «while» e => exact same_condition (h e List.mem_cons_self)
  | «until» e =>
    exact carried_seq (same_condition (h e List.mem_cons_self)) fun _ => carried_pure rfl

/-! ## The state -/

theorem carried_line :
    Carried m I here (fun a b => a = here ∧ b = m.place here) line line := by
  intro s hs
  exact ⟨⟨hs.1, congrArg m.place hs.1⟩, rfl, hs⟩

theorem same_depth : Same m I here depth :=
  fun s hs => ⟨(s.memory.variables.depth_moved m.place).symm, rfl, hs⟩

theorem carried_frames : Carried m I here (fun fs gs => gs = fs.moved m.place) frames frames :=
  fun _ hs => ⟨rfl, rfl, hs⟩

theorem carried_setFrames (fs : Frames) :
    Carried m I here Eq (setFrames fs) (setFrames (fs.moved m.place)) :=
  fun _ hs => ⟨rfl, rfl, hs⟩

theorem carried_memory : Carried m I here
    (fun a b => b = m.memory a ∧ a.line = here ∧ I a.variables) memory memory :=
  fun _ hs => ⟨⟨rfl, hs⟩, rfl, hs⟩

theorem carried_setMemory {mem : Memory} (hline : mem.line = here) (hI : I mem.variables) :
    Carried m I here Eq (setMemory mem) (setMemory (m.memory mem)) :=
  fun _ _ => ⟨rfl, rfl, hline, hI⟩

theorem carried_files :
    Carried m I here (fun h k => k.files = h.files) host host :=
  fun _ hs => ⟨rfl, rfl, hs⟩

theorem same_onScreen (f : Screen → Screen) :
    Same m I here (onScreen f) := fun _ hs => ⟨rfl, rfl, hs⟩

theorem same_record (request : SoundRequest) :
    Same m I here (onHost (·.record request)) :=
  fun _ hs => ⟨rfl, rfl, hs⟩

theorem same_requestView (target : String) :
    Same m I here (onHost (·.requestView target)) :=
  fun _ hs => ⟨rfl, rfl, hs⟩

theorem same_setFiles (files : Files) :
    Same m I here (setFiles files) := fun _ hs => ⟨rfl, rfl, hs⟩

/-! ## Blocks -/

theorem carried_enter (first last : Nat) (state : FrameState) :
    Carried m I here Eq (enter first last state)
      (enter (m.place first) (m.place last) (state.moved m.place)) := by
  refine carried_bind carried_frames fun fs _ hfs => carried_seq same_depth fun depth => ?_
  subst hfs
  have henter := Frames.enter_moved fs m.place_inj ⟨first, last, depth, state⟩
  rw [Frame.moved] at henter
  rw [henter]
  have hfull : ∀ e, fs.enter ⟨first, last, depth, state⟩ = .error e → e.line = none :=
    fun e he => (Stack.mild_push _ _ e he).line
  refine carried_bind (carried_ofExcept _ hfull) ?_
  rintro gs _ ⟨rfl, _⟩
  exact carried_setFrames gs

theorem carried_framePlace (first : Nat) :
    Carried m I here Eq (framePlace? first) (framePlace? (m.place first)) := by
  refine carried_bind carried_frames fun fs _ hfs => carried_seq same_depth fun depth => ?_
  subst hfs
  exact carried_pure (Frames.place?_moved fs m.place_inj first depth).symm

theorem carried_leave (first : Nat) :
    Carried m I here Eq (leave first) (leave (m.place first)) := by
  refine carried_bind carried_frames fun fs _ hfs => carried_seq same_depth fun depth => ?_
  subst hfs
  rw [← Frames.leave_moved fs m.place_inj first depth]
  exact carried_setFrames _

theorem same_truncate (size : Nat) :
    Same m I here (truncate size) := by
  refine carried_bind carried_frames fun fs _ hfs => ?_
  subst hfs
  rw [← Frames.truncate_moved]
  exact carried_setFrames _

theorem carried_setFrameState (i : Nat) (state : FrameState) :
    Carried m I here Eq (setFrameState i state) (setFrameState i (state.moved m.place)) := by
  refine carried_bind carried_frames fun fs _ hfs => ?_
  subst hfs
  rw [← Frames.modify_moved]
  exact carried_setFrames _

/-- The frame at a place, which has to be there. -/
theorem carried_frame (fs : Frames) (i : Nat) {e : Error} (he : e.line = none) :
    Carried m I here (fun f g => g = f.moved m.place) (require (fs.get? i) e)
      (require (Stack.get? (fs.moved m.place) i) e) := by
  rw [Frames.get?_moved]
  cases fs.get? i with
  | some f => exact carried_pure rfl
  | none => exact carried_raise he

/-! ## The program -/

theorem carried_read :
    Carried m I here (fun p q => p = m.old ∧ q = m.new) (read : Run Program) read :=
  fun _ hs => ⟨⟨rfl, rfl⟩, rfl, hs⟩

theorem carried_statement (l : Nat) :
    Carried m I here (fun a b => a = b ∧ m.old.statement? l = some a) (statement l)
      (statement (m.place l)) := by
  refine carried_bind carried_read ?_
  rintro _ _ ⟨rfl, rfl⟩
  rw [m.statement?]
  cases m.old.statement? l with
  | some st => exact carried_pure ⟨rfl, rfl⟩
  | none => exact carried_raise rfl

theorem carried_closer {l : Nat} (h : m.Heads l) (wanted : Statement → Bool) :
    Carried m I here (fun a b => b = a.map m.place) (closer l wanted)
      (closer (m.place l) wanted) :=
  fun _ hs => ⟨h wanted, rfl, hs⟩

/-- The end of a block, which has to be there. -/
theorem carried_endOf {l : Nat} (h : m.Heads l) (wanted : Statement → Bool) {e : Error}
    (he : e.line = none) :
    Carried m I here (fun a b => b = m.place a) (do require (← closer l wanted) e)
      (do require (← closer (m.place l) wanted) e) := by
  refine carried_bind (carried_closer h wanted) fun o _ ho => ?_
  subst ho
  cases o with
  | some a => exact carried_pure rfl
  | none => exact carried_raise he

/-- The opening line of a loop starts with the closing one. -/
theorem carried_atCloser {R : α → γ → Prop} (h : m.Heads here) (wanted : Statement → Bool)
    {e : Error} (he : e.line = none) {f : Nat → Nat → Run α} {g : Nat → Nat → Run γ}
    (hf : ∀ stop, Carried m I here R (f here stop) (g (m.place here) (m.place stop))) :
    Carried m I here R (do let l ← line; let stop ← require (← closer l wanted) e; f l stop)
      (do let l ← line; let stop ← require (← closer l wanted) e; g l stop) := by
  refine carried_bind carried_line ?_
  rintro _ _ ⟨rfl, rfl⟩
  refine carried_bind (carried_closer h wanted) ?_
  rintro o _ rfl
  refine carried_bind (carried_require m.place he) ?_
  rintro stop _ ⟨rfl, _⟩
  exact hf stop

/-- The next clause after a line, or the end of its block. -/
theorem carried_clauseOr {l : Nat} (h : m.Heads l) (stop : Nat) (wanted : Statement → Bool) :
    Carried m I here (Flow.Moved m.place) (clauseOr stop l wanted)
      (clauseOr (m.place stop) (m.place l) wanted) := by
  refine carried_bind (carried_closer h wanted) fun o _ ho => ?_
  subst ho
  refine carried_pure (.jump ?_)
  rw [Option.getD_map]
  exact lands_place _ _

/-! ### The opening line of a block -/

theorem picks_opensIf : Statement.PicksOpeners Statement.opensIf := by
  intro st; cases st <;> simp [Statement.opensIf, Statement.role]

theorem picks_opensIfOrUnless : Statement.PicksOpeners Statement.opensIfOrUnless := by
  intro st; cases st <;> simp [Statement.opensIfOrUnless, Statement.role]

theorem picks_opensWhile : Statement.PicksOpeners Statement.opensWhile := by
  intro st; cases st <;> simp [Statement.opensWhile, Statement.role]

theorem picks_opensDo : Statement.PicksOpeners Statement.opensDo := by
  intro st; cases st <;> simp [Statement.opensDo, Statement.role]

theorem picks_opensFor : Statement.PicksOpeners Statement.opensFor := by
  intro st; cases st <;> simp [Statement.opensFor, Statement.role]

theorem picks_opensSelect : Statement.PicksOpeners Statement.opensSelect := by
  intro st; cases st <;> simp [Statement.opensSelect, Statement.role]

theorem picks_opensTry : Statement.PicksOpeners Statement.opensTry := by
  intro st; cases st <;> simp [Statement.opensTry, Statement.role]

variable {st : Statement} {wanted : Statement → Bool}

theorem carried_opener (hst : m.old.statement? here = some st)
    (hrole : st.role = .clause ∨ st.role = .closer) (hw : Statement.PicksOpeners wanted) :
    Carried m I here (fun a b => b = a.map m.place ∧ a = m.old.opener here wanted)
      (opener here wanted) (opener (m.place here) wanted) :=
  fun _ hs => ⟨⟨m.opener hst hrole hw, rfl⟩, rfl, hs⟩

/-- A clause or a closing line starts with the opening line of its block. -/
theorem carried_atOpener {R : α → γ → Prop} (hst : m.old.statement? here = some st)
    (hrole : st.role = .clause ∨ st.role = .closer) (hw : Statement.PicksOpeners wanted) {e : Error}
    (he : e.line = none) {f : Nat → Nat → Run α} {g : Nat → Nat → Run γ}
    (hf : ∀ first, m.old.opener here wanted = some first →
      Carried m I here R (f here first) (g (m.place here) (m.place first))) :
    Carried m I here R (do let l ← line; let first ← require (← opener l wanted) e; f l first)
      (do let l ← line; let first ← require (← opener l wanted) e; g l first) := by
  refine carried_bind carried_line ?_
  rintro _ _ ⟨rfl, rfl⟩
  refine carried_bind (carried_opener hst hrole hw) ?_
  rintro _ _ ⟨rfl, rfl⟩
  refine carried_bind (carried_require m.place he) ?_
  rintro first _ ⟨rfl, hfirst⟩
  exact hf first hfirst

theorem heads_of_opener {l first : Nat} (hw : Statement.PicksOpeners wanted)
    (h : m.old.opener l wanted = some first) : m.Heads first := by
  obtain ⟨st, hst, hwanted⟩ := (Program.opener_eq_some h).2
  exact m.closer hst (hw st hwanted)

end Run

end LineBasic
