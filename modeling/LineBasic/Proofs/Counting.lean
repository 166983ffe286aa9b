-- One step at a FOR line and one at a NEXT line, for a counter that is an INTEGER.
-- The counter goes on by the step in INTEGER arithmetic, whatever type the
-- variable has; the variable holds it as its type asks. As long as the variable
-- holds what the loop stored, NEXT goes on from the counter.
import LineBasic.Proofs.Clauses
import LineBasic.Proofs.Presence
import LineBasic.Proofs.StepLaws

namespace LineBasic

/-! ## Numeric variables -/

/-- A scalar that holds numbers: its name ends in `%`, `#` or `&`. -/
def Name.isNumeric (n : Name) : Bool := !n.isArray && (Kind.ofName n).isNumeric

/-- An INTEGER as a variable of a numeric type holds it. -/
def Value.counted (n : Int64) : Kind → Value
  | .real => .real (Real.ofInteger n)
  | .complex => .complex (.ofReal (Real.ofInteger n))
  | _ => .integer n

theorem fitTo_integer {name : Name} (h : name.isNumeric = true) (n : Int64) :
    fitTo name (.integer n) = .ok (Value.counted n (Kind.ofName name)) := by
  simp only [Name.isNumeric, Bool.and_eq_true, Bool.not_eq_true'] at h
  unfold fitTo
  rw [h.1, if_neg (by simp)]
  cases hk : Kind.ofName name with
  | integer | real | complex => rfl
  | string | array | record =>
    rw [hk] at h
    exact absurd h.2 (by simp [Kind.isNumeric])

/-- What was made from an INTEGER is the same as itself. -/
theorem Value.same_counted (n : Int64) (k : Kind) :
    (Value.counted n k).same (Value.counted n k) = true := by
  have hreal := Real.ofInteger_beq n
  cases k with
  | real => simpa [counted, Value.same] using hreal
  | complex =>
    have hzero : ((0 : Float) == 0) = true := by decide +kernel
    simp [counted, Value.same, Complex.same, Complex.ofReal, hreal, hzero]
  | integer | string | array | record => simp [counted, Value.same]

theorem Variables.peek_put (vars : Variables) (name : Name) (v : Value) :
    (vars.put name v (vars.hasLocal name)).peek name = v := by
  unfold peek
  rw [(vars.sets_put name v).reads]
  rfl

theorem Frames.leave_limit (fs : Frames) (line depth : Nat) :
    (fs.leave line depth).limit = fs.limit := by
  obtain ⟨n, _, hn⟩ := fs.leave_eq_truncate line depth
  rw [hn, Stack.truncate_limit]

/-! ## The bounds of a loop -/

namespace Run

/-- The start, the limit and the step of a FOR line. -/
def bounds (start limit : Expression) (step : Option Expression) :
    Run (Number × Number × Number) := do
  let start ← number (← value start)
  let limit ← number (← value limit)
  let step ← match step with
    | some e => do number (← value e)
    | none => pure (.integer 1)
  return (start, limit, step)

/-- A loop that starts with these bounds, if the start is in range. -/
def opening (name : Name) (start limit step : Number) : Run (Option ForLoop) := do
  if start.within limit step then
    store name (.ofNumber start)
    let assigned := (← memory).variables.peek name
    return some { name, start, limit, step, counter := start, assigned }
  else return none

theorem forEntry_eq (name : Name) (start limit : Expression) (step : Option Expression) :
    forEntry name start limit step = (do
      let b ← bounds start limit step
      opening name b.1 b.2.1 b.2.2) := by
  unfold forEntry bounds opening
  simp only [bind_assoc]
  refine bind_congr fun v => bind_congr fun low => bind_congr fun v => bind_congr fun high => ?_
  cases step with
  | none => simp only [pure_bind]
  | some e => simp only [bind_assoc, pure_bind]

/-- The computation leaves only a trail behind. -/
def Reads {α : Type} (x : Run α) : Prop :=
  ∀ p s, After x p s (fun _ t => ∃ trail, t = s.withTrail trail) fun _ t =>
    ∃ trail, t = s.withTrail trail

section Reads

variable {α β : Type}

theorem reads_pure (a : α) : Reads (pure a : Run α) := fun _ s => ⟨s.memory.trail, rfl⟩

theorem reads_observe (x : Eval α) : Reads (observe x) := by
  intro p s
  unfold observe After State.observe
  dsimp only
  cases x s.view s.memory.trail with
  | ok a t => exact ⟨t, rfl⟩
  | error e t => exact ⟨t, rfl⟩

theorem reads_require (o : Option α) (e : Error) : Reads (require o e) := by
  intro p s
  rw [after_require]
  exact ⟨fun _ _ => ⟨s.memory.trail, rfl⟩, fun _ => ⟨s.memory.trail, rfl⟩⟩

theorem reads_bind {x : Run α} {f : α → Run β} (hx : Reads x) (hf : ∀ a, Reads (f a)) :
    Reads (x >>= f) := by
  intro p s
  rw [after_bind]
  refine (hx p s).mono ?_ fun _ _ h => h
  rintro a _ ⟨trail, rfl⟩
  refine (hf a p _).mono ?_ ?_
  · rintro _ _ ⟨next, rfl⟩
    exact ⟨next, rfl⟩
  · rintro _ _ ⟨next, rfl⟩
    exact ⟨next, rfl⟩

/-- Finding the bounds of a loop leaves only a trail. -/
theorem reads_bounds (start limit : Expression) (step : Option Expression) :
    Reads (bounds start limit step) := by
  unfold bounds
  refine reads_bind (reads_observe _) fun _ => reads_bind (reads_require _ _) fun _ => ?_
  refine reads_bind (reads_observe _) fun _ => reads_bind (reads_require _ _) fun _ => ?_
  cases step with
  | none => exact reads_pure _
  | some e => exact reads_bind (reads_observe _) fun _ => reads_bind (reads_require _ _) fun _ => reads_pure _

theorem Reads.eq_withTrail {x : Run α} {p : Program} {s t : State} {a : α} (hx : Reads x)
    (h : x p s = .ok a t) : ∃ trail, t = s.withTrail trail := by
  have hs := hx p s
  unfold After at hs
  rw [h] at hs
  exact hs

end Reads

/-! ## Storing the counter -/

section Storing

variable {p : Program} {s : State} {name : Name} {E : Error → State → Prop}

theorem after_get {Q : Value → State → Prop} :
    After (observe (Eval.get name)) p s Q E ↔
      Q (s.memory.variables.peek name) (s.withTrail (s.memory.trail.remember name)) := Iff.rfl

/-- An INTEGER can be stored under every numeric name. -/
theorem after_store_integer {Q : Unit → State → Prop} (h : name.isNumeric = true) (n : Int64) :
    After (store name (.integer n)) p s Q E ↔
      Q () { s with memory := { s.memory.remember name with
        «variables» := s.memory.variables.put name (Value.counted n (Kind.ofName name))
          (s.memory.variables.hasLocal name) } } := by
  have hset : s.memory.set name (.integer n) (s.memory.variables.hasLocal name) =
      .ok { s.memory.remember name with
        «variables» := s.memory.variables.put name (Value.counted n (Kind.ofName name))
          (s.memory.variables.hasLocal name) } := by
    unfold Memory.set
    rw [fitTo_integer h]
    rfl
  unfold store
  simp only [after_bind, after_memory, after_ofExcept, hset, after_setMemory]
  refine ⟨fun h => h.1 _ rfl, fun h => ⟨fun m hm => ?_, fun e he => by cases he⟩⟩
  cases hm
  exact h

end Storing

/-! ## Counting -/

/-- A loop that has counted from `start` to `c`, with the variable as the loop stored it. -/
def countingLoop (name : Name) (start c : Int64) (limit step : Number) : ForLoop :=
  { name, start := .integer start, limit, step, counter := .integer c
    assigned := Value.counted c (Kind.ofName name) }

/-- A loop that has counted to `c` goes around once more: the step moves the counter, and
the counter is then in range. -/
def goesAround (c k : Int64) (limit : Number) : Bool :=
  decide (Integer.add c k ≠ c) && (Number.integer (Integer.add c k)).within limit (.integer k)

/-- The end of a pass, if the variable holds what the loop stored: the counter goes on by
the step. -/
theorem after_counting_integer {p : Program} {s : State} {name : Name} {a c k : Int64} {b : Number}
    {Q : Bool × ForLoop → State → Prop} {E : Error → State → Prop} (hname : name.isNumeric = true)
    (hk : k ≠ 0) (hpeek : s.memory.variables.peek name = .counted c (Kind.ofName name))
    (hQ : ∀ t : State, t.memory.line = s.memory.line → t.frames = s.frames →
      t.memory.variables = s.memory.variables.put name
        (.counted (Integer.add c k) (Kind.ofName name)) (s.memory.variables.hasLocal name) →
      Q (goesAround c k b, countingLoop name a (Integer.add c k) b (.integer k)) t) :
    After (counting (countingLoop name a c b (.integer k))) p s Q E := by
  have hcounter : counterAfter (countingLoop name a c b (.integer k))
      (s.memory.variables.peek name) = pure (.integer c) := by
    rw [hpeek]
    exact if_pos (Value.same_counted c (Kind.ofName name))
  have hagain : (!stalled (.integer c) (.integer (Integer.add c k)) (.integer k) &&
      (Number.integer (Integer.add c k)).within b (.integer k)) = goesAround c k b := by
    simp [stalled, Number.same, Number.isZero, goesAround, hk]
  rw [counting_eq, after_bind, show (countingLoop name a c b (.integer k)).name = name from rfl, after_get,
    hcounter, pure_bind]
  change After (store name (.integer (Integer.add c k)) >>= _) _ _ _ _
  rw [after_bind, after_store_integer hname]
  simp only [after_bind, after_memory, after_pure, Variables.peek_put]
  refine hagain ▸ hQ _ ?_ ?_ ?_
  · rfl
  · rfl
  · rfl

end Run

/-! ## Steps -/

namespace Session

/-- The session runs a program at a line, in some blocks and with some variables. -/
structure Runs (p : Program) (line : Nat) (fs : Frames) (vars : Variables) (s : Session) :
    Prop where
  program : s.program = p
  running : s.stopped = false
  line : s.line = line
  frames : s.frames = fs
  «variables» : s.memory.variables = vars

variable {p : Program} {s t : Session} {first last : Nat} {fs : Frames} {vars : Variables}

/-- What happens to the host between two steps changes nothing of this. -/
theorem Runs.follows (h : s.step.2.Runs p last fs vars) (ht : s.Follows t) :
    t.Runs p last fs vars := by
  obtain ⟨_, _, _, rfl⟩ := ht
  exact ⟨h.program, h.running, h.line, h.frames, h.variables⟩

section For

variable {name : Name} {start limit : Expression} {step : Option Expression} {a : Int64}
  {b k : Number} {u : State}

/-- A FOR line finds its bounds and then enters the loop or passes it over. -/
theorem Runs.after_for {Q : Flow → State → Prop} {E : Error → State → Prop}
    (h : s.Runs p first fs vars) (hlast : p.closer first (Statement.closesFor name) = some last)
    (hname : name.isNumeric = true)
    (hb : Run.bounds start limit step p s.toState = .ok (.integer a, b, k) u)
    (henter : (Number.integer a).within b k = true → ∀ t : State, t.memory.line = first →
      t.frames = fs →
      t.memory.variables = vars.put name (.counted a (Kind.ofName name)) (vars.hasLocal name) →
      Run.After (do Run.enter first last (.for (Run.countingLoop name a a b k)); return Flow.next) p t Q E)
    (hpass : (Number.integer a).within b k = false → ∀ t : State, t.memory.line = first →
      t.frames = fs → t.memory.variables = vars →
      Run.After (do Run.leave first; return Flow.jump (last + 1)) p t Q E) :
    Run.After (Run.execute (.for name start limit step)) p s.toState Q E := by
  obtain ⟨trail, rfl⟩ := (Run.reads_bounds start limit step).eq_withTrail hb
  have hline : s.toState.memory.line = first := h.line
  rw [execute_for]
  unfold loopHead
  simp only [Run.after_bind, Run.after_line, Run.after_closer, Run.after_require, hline, hlast]
  refine ⟨fun stop hstop => ?_, fun hno => by cases hno⟩
  cases hstop
  rw [Run.forEntry_eq, Run.after_bind]
  unfold Run.After
  rw [hb]
  change Run.After (Run.opening name (.integer a) b k) p _ _ _
  unfold Run.opening
  rw [Run.after_ite]
  refine ⟨fun hin => ?_, fun hin => ?_⟩
  · change Run.After (Run.store name (.integer a) >>= _) _ _ _ _
    rw [Run.after_bind, Run.after_store_integer hname]
    simp only [Run.after_bind, Run.after_memory, Run.after_pure, Variables.peek_put]
    refine henter hin _ ?_ ?_ ?_
    · exact h.line
    · exact h.frames
    · rw [← h.variables]
      rfl
  · rw [Run.after_pure]
    exact hpass (by simpa using hin) _ h.line h.frames h.variables

/-- A FOR line whose start is in range enters the loop. -/
theorem Runs.enters (h : s.Runs p first fs vars)
    (hst : p.statement? first = some (.for name start limit step))
    (hlast : p.closer first (Statement.closesFor name) = some last) (hname : name.isNumeric = true)
    (hb : Run.bounds start limit step p s.toState = .ok (.integer a, b, k) u)
    (hin : (Number.integer a).within b k = true)
    (hroom : (fs.leave first vars.depth).items.length < fs.limit) :
    s.step.2.Runs p (first + 1) ((fs.leave first vars.depth).above
        ⟨first, last, vars.depth, .for (Run.countingLoop name a a b k)⟩)
      (vars.put name (.counted a (Kind.ofName name)) (vars.hasLocal name)) := by
  have hprogram := h.program
  subst hprogram
  refine step_after (P := fun r => r.2.Runs _ _ _ _) h.running (h.line ▸ hst) ?_
  refine h.after_for hlast hname hb (fun _ t hline hframes hvars => ?_) fun hout => ?_
  · have hdepth : t.memory.variables.depth = vars.depth := by rw [hvars, Variables.depth_put]
    have hpush : t.frames.enter ⟨first, last, t.memory.variables.depth,
        .for (Run.countingLoop name a a b k)⟩ = .ok ((fs.leave first vars.depth).above
        ⟨first, last, vars.depth, .for (Run.countingLoop name a a b k)⟩) := by
      rw [hframes, hdepth]
      exact Stack.push_of_lt _ (by rwa [Frames.leave_limit])
    rw [Run.after_bind, Run.after_enter, hpush]
    refine ⟨fun fs' hfs => ?_, fun e he => by cases he⟩
    cases hfs
    exact ⟨rfl, h.running, congrArg (· + 1) hline, rfl, hvars⟩
  · rw [hin] at hout
    cases hout

/-- A FOR line whose start is out of range passes the loop over. -/
theorem Runs.passes (h : s.Runs p first fs vars)
    (hst : p.statement? first = some (.for name start limit step))
    (hlast : p.closer first (Statement.closesFor name) = some last) (hname : name.isNumeric = true)
    (hb : Run.bounds start limit step p s.toState = .ok (.integer a, b, k) u)
    (hout : (Number.integer a).within b k = false) :
    s.step.2.Runs p (last + 1) (fs.leave first vars.depth) vars := by
  have hprogram := h.program
  subst hprogram
  refine step_after (P := fun r => r.2.Runs _ _ _ _) h.running (h.line ▸ hst) ?_
  refine h.after_for hlast hname hb (fun hin => ?_) fun _ t hline hframes hvars => ?_
  · rw [hin] at hout
    cases hout
  · rw [Run.after_bind, Run.after_leave, Run.after_pure, hframes, hvars]
    exact ⟨rfl, h.running, rfl, rfl, hvars⟩

end For

section Next

variable {other : Option Name} {name : Name} {start limit : Expression} {step : Option Expression}
  {i depth final : Nat} {a c k : Int64} {b : Number}

/-- A NEXT line whose loop has counted to `c`, with the variable as the loop stored it. -/
theorem Runs.turns (h : s.Runs p last fs vars) (hst : p.statement? last = some (.next other))
    (ho : p.opener last Statement.opensFor = some first)
    (hfirst : p.statement? first = some (.for name start limit step))
    (hother : ∀ n, other = some n → name.alike n = true)
    (hplace : fs.place? first vars.depth = some i)
    (hget : fs.get? i = some ⟨first, final, depth, .for (Run.countingLoop name a c b (.integer k))⟩)
    (hname : name.isNumeric = true) (hk : k ≠ 0)
    (hpeek : vars.peek name = .counted c (Kind.ofName name)) :
    s.step.2.Runs p (if Run.goesAround c k b then first + 1 else last + 1)
      (if Run.goesAround c k b then (fs.truncate (i + 1)).modify i fun f =>
          { f with state := .for (Run.countingLoop name a (Integer.add c k) b (.integer k)) }
        else fs.truncate i)
      (vars.put name (.counted (Integer.add c k) (Kind.ofName name)) (vars.hasLocal name)) := by
  have hprogram := h.program
  subst hprogram
  have hline : s.toState.memory.line = last := h.line
  have hframes : s.toState.frames = fs := h.frames
  have hvars : s.toState.memory.variables = vars := h.variables
  have hcheck : Run.checkNext other (.for name start limit step) = pure () := by
    cases other with
    | none => rfl
    | some n => exact if_pos (hother n rfl)
  refine step_after (P := fun r => r.2.Runs _ _ _ _) h.running (h.line ▸ hst) ?_
  change Run.After (Run.nextStatement other) _ _ _ _
  unfold Run.nextStatement
  simp only [Run.after_bind, Run.after_line, Run.after_opener, Run.after_require, hline, ho]
  refine ⟨fun l hl => ?_, fun hno => by cases hno⟩
  cases hl
  rw [Run.after_statement, hfirst]
  refine ⟨fun o h => ?_, fun h => by cases h⟩
  cases h
  rw [hcheck, Run.after_pure]
  simp only [Run.after_framePlace, hframes, hvars, hplace]
  refine ⟨fun j hj => ?_, fun hno => by cases hno⟩
  cases hj
  simp only [Run.after_truncate, Run.after_frames, hframes,
    fs.get?_truncate (Nat.lt_succ_self i), hget]
  have hpeek' : ({ s.toState with frames := fs.truncate (i + 1) } : State).memory.variables.peek
      name = .counted c (Kind.ofName name) := by
    rw [← hpeek, ← hvars]
  have hturn : Run.After (do
      let r ← Run.counting (Run.countingLoop name a c b (.integer k))
      Run.setFrameState i (.for r.2)
      Run.repeatOrLeave first r.1) s.program { s.toState with frames := fs.truncate (i + 1) }
      (fun flow t => Runs s.program (if Run.goesAround c k b then first + 1 else last + 1)
        (if Run.goesAround c k b then (fs.truncate (i + 1)).modify i fun f =>
            { f with state := .for (Run.countingLoop name a (Integer.add c k) b (.integer k)) }
          else fs.truncate i)
        (vars.put name (.counted (Integer.add c k) (Kind.ofName name)) (vars.hasLocal name))
        ((s.withState t).follow flow).2) fun _ _ => False := by
    rw [Run.after_bind]
    refine Run.after_counting_integer hname hk hpeek' fun t htline htframes htvars => ?_
    change t.memory.variables = s.memory.variables.put _ _ (s.memory.variables.hasLocal _) at htvars
    rw [hvars] at htvars
    rw [Run.after_bind, Run.after_setFrameState, htframes]
    unfold Run.repeatOrLeave
    simp only [Run.after_ite, Run.after_bind, Run.after_leave, Run.after_pure]
    refine ⟨fun hgo => ?_, fun hgo => ?_⟩
    · rw [if_pos hgo, if_pos hgo]
      exact ⟨rfl, h.running, rfl, rfl, htvars⟩
    · rw [if_neg hgo, if_neg hgo]
      refine ⟨rfl, h.running, congrArg (· + 1) (htline.trans hline), ?_, htvars⟩
      change Frames.leave _ first t.memory.variables.depth = _
      rw [htvars, Variables.depth_put]
      exact fs.leave_top hplace _
  simpa only [Run.counting_eq, bind_assoc, pure_bind] using hturn

end Next

/-! ## A loop from its FOR line -/

/-- The program is at a FOR line with a numeric variable, whose start is `a` and whose
step is `k`, both INTEGERs. -/
structure AtFor (s : Session) (name : Name) (a k : Int64) (b : Number) (last : Nat) : Prop where
  running : s.stopped = false
  opens : ∃ start limit step u,
    s.program.statement? s.line = some (.for name start limit step) ∧
      Run.bounds start limit step s.program s.toState = .ok (.integer a, b, .integer k) u
  closes : s.program.closer s.line (Statement.closesFor name) = some last
  numeric : name.isNumeric = true
  moves : k ≠ 0

/-- The stack as it is when the loop at the current line has been left. -/
def outside (s : Session) : Frames := s.frames.leave s.line s.depth

/-- The frame of a loop that was entered here and has counted to `c`. -/
def loopFrame (s : Session) (name : Name) (a c k : Int64) (b : Number) (last : Nat) : Frame :=
  ⟨s.line, last, s.depth, .for (Run.countingLoop name a c b (.integer k))⟩

namespace AtFor

variable {name : Name} {a k : Int64} {b : Number}

theorem runs (h : s.AtFor name a k b last) :
    s.Runs s.program s.line s.frames s.memory.variables :=
  ⟨rfl, h.running, rfl, rfl, rfl⟩

theorem enters (h : s.AtFor name a k b last) (hin : (Number.integer a).within b (.integer k) = true)
    (hroom : s.outside.items.length < s.frames.limit) :
    s.step.2.Runs s.program (s.line + 1) (s.outside.above (s.loopFrame name a a k b last))
      (s.memory.variables.put name (.counted a (Kind.ofName name))
        (s.memory.variables.hasLocal name)) := by
  obtain ⟨start, limit, step, u, hst, hb⟩ := h.opens
  exact h.runs.enters hst h.closes h.numeric hb hin hroom

theorem passes (h : s.AtFor name a k b last)
    (hout : (Number.integer a).within b (.integer k) = false) :
    s.step.2.Runs s.program (last + 1) s.outside s.memory.variables := by
  obtain ⟨start, limit, step, u, hst, hb⟩ := h.opens
  exact h.runs.passes hst h.closes h.numeric hb hout

theorem spans (h : s.AtFor name a k b last) : ∃ level, s.program.Spans level s.line last :=
  Program.closer_spans h.closes

/-- The last line of the loop is its NEXT, which finds the first line again. -/
theorem next (h : s.AtFor name a k b last) : ∃ other,
    s.program.statement? last = some (.next other) ∧
      s.program.opener last Statement.opensFor = some s.line ∧
      ∀ n, other = some n → name.alike n = true := by
  obtain ⟨start, limit, step, _, hst, _⟩ := h.opens
  obtain ⟨_, _, closing, hclosing, hcloses⟩ := Program.closer_eq_some h.closes
  obtain ⟨level, hspan⟩ := h.spans
  have hopener : s.program.opener last Statement.opensFor = some s.line :=
    hspan.opener_of_wanted hst rfl fun st hw =>
      (@Statement.opens_of_openedBy (.next none) st hw).1
  cases closing with
  | next other =>
    refine ⟨other, hclosing, hopener, ?_⟩
    rintro n rfl
    rw [Name.alike_comm]
    exact hcloses
  | _ => cases hcloses

/-- The NEXT line of a loop that has counted to `c`, at place `i` of the stack. -/
theorem turns {t : Session} {c : Int64} {i : Nat} (h : s.AtFor name a k b last)
    (ht : t.Runs s.program last fs vars) (hplace : fs.place? s.line vars.depth = some i)
    (hget : fs.get? i = some (s.loopFrame name a c k b last))
    (hpeek : vars.peek name = .counted c (Kind.ofName name)) :
    t.step.2.Runs s.program (if Run.goesAround c k b then s.line + 1 else last + 1)
      (if Run.goesAround c k b then
        Frames.above (fs.truncate i) (s.loopFrame name a (Integer.add c k) k b last)
        else fs.truncate i)
      (vars.put name (.counted (Integer.add c k) (Kind.ofName name)) (vars.hasLocal name)) := by
  obtain ⟨start, limit, step, _, hst, _⟩ := h.opens
  obtain ⟨other, hnext, hopener, hother⟩ := h.next
  have hframes : (fs.truncate (i + 1)).modify i (fun f =>
      { f with state := .for (Run.countingLoop name a (Integer.add c k) b (.integer k)) }) =
      Frames.above (fs.truncate i) (s.loopFrame name a (Integer.add c k) k b last) := by
    refine Stack.eq_of_items rfl rfl ?_
    rw [fs.truncate_modify_items hget]
    rfl
  rw [← hframes]
  exact ht.turns hnext hopener hst hother hplace hget h.numeric h.moves hpeek

end AtFor

end Session

end LineBasic
