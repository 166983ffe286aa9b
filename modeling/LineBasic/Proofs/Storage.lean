-- What a step does to the variables of a program. Values come into storage in
-- few ways: a store under a name that the value was made to fit, a change of an
-- array or a structure in its cell, a call that opens a scope, and a return or
-- an error that drops scopes. Every statement is made of these.
import LineBasic.Proofs.Steps

namespace LineBasic

/-! ## Ways to change the variables -/

/-- How a value changes in its cell: an array keeps the type of its items, and a
structure stays one. -/
inductive Value.Evolves : Value → Value → Prop where
  | array {a b : Grid Value} (h : b.element = a.element) : Evolves (.array a) (.array b)
  | record (old new : Table Name Value) : Evolves (.record old) (.record new)

/-- What a program does to its variables, one act after another. `aliases` are
those that a call may pass. -/
inductive Variables.Alters (aliases : List (Name × Name)) : Variables → Variables → Prop where
  | none (vars : Variables) : Alters aliases vars vars
  | put (vars : Variables) {name : Name} {v w : Value} (here : Bool) (h : fitTo name v = .ok w) :
      Alters aliases vars (vars.put name w here)
  | slot (vars : Variables) (name : Name) : Alters aliases vars (vars.slot name).2.2
  | change (vars : Variables) (name : Name) {w : Value} (h : (vars.slot name).2.1.Evolves w) :
      Alters aliases vars ((vars.slot name).2.2.store w (vars.slot name).1)
  | call {vars vars' : Variables} {returnLine : Option Nat}
      (h : vars.enterCall returnLine aliases = .ok vars') : Alters aliases vars vars'
  | cut (vars : Variables) (depth : Nat) : Alters aliases vars (vars.cutTo depth)
  | trans {a b c : Variables} (hab : Alters aliases a b) (hbc : Alters aliases b c) :
      Alters aliases a c

/-- The aliases that a CALL makes: of plain variables, for parameters by reference. -/
def lentTo : List Parameter → List Expression → List (Name × Name)
  | p :: ps, .variable target :: es =>
    if p.byReference then (p.name, target) :: lentTo ps es else lentTo ps es
  | _ :: ps, _ :: es => lentTo ps es
  | _, _ => []

/-- The aliases that a statement makes if it calls. -/
def Program.lends (p : Program) : Statement → List (Name × Name)
  | .call name args =>
    match (p.subPlace? name).bind p.statement? with
    | some (.sub _ params) => lentTo params args
    | _ => []
  | _ => []

namespace Run

variable {α β : Type} {aliases : List (Name × Name)}

/-- Whatever becomes of `x`, it alters the variables in these ways only. -/
def Altering (aliases : List (Name × Name)) (x : Run α) : Prop :=
  ∀ p s, After x p s (fun _ t => Variables.Alters aliases s.memory.variables t.memory.variables)
    fun _ t => Variables.Alters aliases s.memory.variables t.memory.variables

/-! ## Rules -/

theorem altering_pure (a : α) : Altering aliases (pure a : Run α) := fun _ _ => .none _

theorem altering_throw (e : Error) : Altering aliases (throw e : Run α) := fun _ _ => .none _

theorem altering_bind {x : Run α} {f : α → Run β} (hx : Altering aliases x)
    (hf : ∀ a, Altering aliases (f a)) : Altering aliases (x >>= f) := by
  intro p s
  rw [after_bind]
  refine (hx p s).mono (fun a t ht => ?_) fun _ _ ht => ht
  exact (hf a p t).mono (fun _ _ hu => ht.trans hu) fun _ _ hu => ht.trans hu

theorem altering_ite {c : Prop} [Decidable c] {x y : Run α} (hx : Altering aliases x)
    (hy : Altering aliases y) : Altering aliases (if c then x else y) := by
  by_cases hc : c
  · rw [if_pos hc]; exact hx
  · rw [if_neg hc]; exact hy

theorem altering_ofExcept (x : Except Error α) : Altering aliases (ofExcept x) := by
  cases x with
  | ok a => exact altering_pure a
  | error e => exact altering_throw e

theorem altering_require (o : Option α) (e : Error) : Altering aliases (require o e) := by
  cases o with
  | some a => exact altering_pure a
  | none => exact altering_throw e

theorem altering_mapM {f : β → Run α} (hf : ∀ b, Altering aliases (f b)) (l : List β) :
    Altering aliases (l.mapM f) := by
  induction l with
  | nil => exact altering_pure []
  | cons b rest ih =>
    rw [List.mapM_cons]
    exact altering_bind (hf b) fun _ => altering_bind ih fun _ => altering_pure _

theorem altering_forM {f : β → Run PUnit} (hf : ∀ b, Altering aliases (f b)) (l : List β) :
    Altering aliases (l.forM f) := by
  induction l with
  | nil => exact altering_pure _
  | cons b rest ih => exact altering_bind (hf b) fun _ => ih

/-! ## Parts that leave the variables alone -/

theorem altering_observe (x : Eval α) : Altering aliases (observe x) := by
  intro p s
  unfold After observe State.observe
  cases x s.view s.memory.trail <;> exact .none _

theorem altering_value (e : Expression) : Altering aliases (value e) := altering_observe _

theorem altering_integer (e : Expression) : Altering aliases (integer e) :=
  altering_bind (altering_value e) fun _ => altering_ofExcept _

theorem altering_real (e : Expression) : Altering aliases (real e) :=
  altering_bind (altering_value e) fun _ => altering_ofExcept _

theorem altering_count (e : Expression) : Altering aliases (count e) :=
  altering_bind (altering_value e) fun _ => altering_ofExcept _

theorem altering_text (e : Expression) : Altering aliases (text e) :=
  altering_bind (altering_value e) fun _ => altering_ofExcept _

theorem altering_condition (e : Expression) : Altering aliases (condition e) := by
  refine altering_bind (altering_value e) fun v => ?_
  cases v with
  | integer n => exact altering_pure _
  | real | string | complex | array | record => exact altering_throw _

theorem altering_test (c : Condition) : Altering aliases (test c) := by
  cases c with
  | always => exact altering_pure _
  | «while» e => exact altering_condition e
  | «until» e => exact altering_bind (altering_condition e) fun _ => altering_pure _

theorem altering_get (f : State → α) : Altering aliases (do return f (← get) : Run α) :=
  fun _ _ => .none _

theorem altering_read : Altering aliases (read : Run Program) := fun _ _ => .none _

theorem altering_memory : Altering aliases memory := altering_get _

theorem altering_line : Altering aliases line := altering_get _

theorem altering_depth : Altering aliases depth := altering_get _

theorem altering_frames : Altering aliases frames := altering_get _

theorem altering_host : Altering aliases host := altering_get _

theorem altering_setFrames (fs : Frames) : Altering aliases (setFrames fs) := fun _ _ => .none _

theorem altering_onHost (f : Host → Host) : Altering aliases (onHost f) := fun _ _ => .none _

theorem altering_onScreen (f : Screen → Screen) : Altering aliases (onScreen f) :=
  altering_onHost _

theorem altering_setFiles (files : Files) : Altering aliases (setFiles files) := altering_onHost _

theorem altering_enter (first last : Nat) (state : FrameState) :
    Altering aliases (enter first last state) :=
  altering_bind altering_frames fun _ => altering_bind altering_depth fun _ =>
    altering_bind (altering_ofExcept _) fun _ => altering_setFrames _

theorem altering_framePlace (first : Nat) : Altering aliases (framePlace? first) :=
  altering_bind altering_frames fun _ => altering_bind altering_depth fun _ => altering_pure _

theorem altering_leave (first : Nat) : Altering aliases (leave first) :=
  altering_bind altering_frames fun _ => altering_bind altering_depth fun _ => altering_setFrames _

theorem altering_truncate (size : Nat) : Altering aliases (truncate size) :=
  altering_bind altering_frames fun _ => altering_setFrames _

theorem altering_setFrameState (place : Nat) (state : FrameState) :
    Altering aliases (setFrameState place state) :=
  altering_bind altering_frames fun _ => altering_setFrames _

theorem altering_statement (l : Nat) : Altering aliases (statement l) :=
  altering_bind altering_read fun _ => altering_require _ _

theorem altering_closer (start : Nat) (wanted : Statement → Bool) :
    Altering aliases (closer start wanted) :=
  altering_bind altering_read fun _ => altering_pure _

theorem altering_opener (place : Nat) (wanted : Statement → Bool) :
    Altering aliases (opener place wanted) :=
  altering_bind altering_read fun _ => altering_pure _

theorem altering_reseed (seed : UInt64) :
    Altering aliases (do setMemory ((← memory).randomize seed); return Flow.next) :=
  fun _ _ => .none _

theorem altering_matchesOne (selector : Value) (es : List Expression) :
    Altering aliases (matchesOne selector es) := by
  induction es with
  | nil => exact altering_pure _
  | cons e rest ih =>
    refine altering_bind (altering_value e) fun v => ?_
    refine altering_bind (altering_ofExcept _) fun order => ?_
    split
    · exact altering_pure _
    · exact ih

theorem altering_caseMatches (selector : Value) (test : CaseTest) :
    Altering aliases (caseMatches selector test) := by
  cases test with
  | otherwise => exact altering_pure _
  | values es => exact altering_matchesOne selector es
  | range low high =>
    exact altering_bind (altering_value low) fun _ => altering_bind (altering_value high) fun _ =>
      altering_bind (altering_ofExcept _) fun _ => altering_bind (altering_ofExcept _) fun _ =>
        altering_pure _
  | relation operator e =>
    exact altering_bind (altering_value e) fun _ => altering_bind (altering_ofExcept _) fun _ =>
      altering_ofExcept _

theorem altering_anyMatches (selector : Value) (tests : List CaseTest) :
    Altering aliases (anyMatches selector tests) := by
  induction tests with
  | nil => exact altering_pure _
  | cons t rest ih =>
    refine altering_bind (altering_caseMatches selector t) fun matched => ?_
    split
    · exact altering_pure _
    · exact ih

theorem altering_printItem (i : PrintItem) : Altering aliases (printItem i) := by
  cases i with
  | expression e => exact altering_bind (altering_value e) fun _ => altering_onScreen _
  | comma => exact altering_onScreen fun screen => screen.print "\t"
  | semicolon => exact altering_pure _

theorem altering_axisBounds (a : AxisRange) : Altering aliases (axisBounds a) := by
  have hlast : ∀ r : Int64 × Int, Altering aliases (do
      if r.2 < 0 then throw Error.negativeArraySize else return (r.1, r.2.toNat) : Run _) := by
    intro r
    split
    · exact altering_throw _
    · exact altering_pure _
  refine altering_bind (altering_integer a.upper) fun upper => ?_
  dsimp only
  split
  · refine altering_bind (altering_integer _) fun lower => ?_
    split
    · exact altering_bind (altering_pure _) hlast
    · exact altering_bind (altering_throw _) hlast
  · exact altering_bind (altering_pure _) hlast

/-! ## Parts that store -/

/-- A value that was made to fit a name is stored under it. -/
theorem altering_put (name : Name) (v : Value) (here : Variables → Bool) :
    Altering aliases (do
      let m ← memory
      setMemory (← ofExcept (m.set name v (here m.variables)))) := by
  intro p s
  cases hf : fitTo name v with
  | ok w =>
    simp only [Memory.set, hf]
    exact .put _ _ hf
  | error e =>
    simp only [Memory.set, hf]
    exact .none _

theorem altering_store (name : Name) (v : Value) : Altering aliases (store name v) :=
  altering_put name v fun vars => vars.hasLocal name

theorem altering_storeLocal (name : Name) (v : Value) : Altering aliases (storeLocal name v) :=
  altering_put name v fun _ => true

theorem altering_update {name : Name} {change : Value → Except Error (α × Value)}
    (hc : ∀ v a w, change v = .ok (a, w) → v.Evolves w) : Altering aliases (update name change) := by
  rw [update_eq]
  intro p s
  simp only [after_bind, after_memory, after_setMemory, after_ofExcept, after_pure]
  exact ⟨fun r hr => .change _ name (hc _ r.1 r.2 hr), fun e _ => .slot _ name⟩

theorem altering_updateArray {name : Name} {change : Grid Value → Except Error (α × Grid Value)}
    (hc : ∀ a x b, change a = .ok (x, b) → b.element = a.element) :
    Altering aliases (updateArray name change) := by
  refine altering_update fun v x w h => ?_
  cases v with
  | array a =>
    cases hr : change a with
    | error e => simp only [hr] at h; cases h
    | ok r =>
      simp only [hr] at h
      cases h
      exact .array (hc a r.1 r.2 hr)
  | integer | real | string | complex | record => cases h

end Run

/-! ## Changes of arrays and structures -/

theorem exists_of_bind_eq_ok {α β : Type} {x : Except Error α} {f : α → Except Error β} {b : β}
    (h : (x >>= f) = .ok b) : ∃ a, x = .ok a ∧ f a = .ok b := by
  cases x with
  | ok a => exact ⟨a, rfl, h⟩
  | error e => cases h

namespace Grid

variable {a b : Grid Value} {v : Value}

theorem element_set {is : List Int64} (h : a.set is v = .ok b) : b.element = a.element := by
  rw [set_def] at h
  obtain ⟨w, _, h⟩ := exists_of_bind_eq_ok h
  obtain ⟨i, _, h⟩ := exists_of_bind_eq_ok h
  split at h
  · cases h; rfl
  · split at h
    · cases h
    · split at h
      · cases h
      · cases h; rfl

theorem element_push (h : a.push v = .ok b) : b.element = a.element := by
  rw [push_def] at h
  obtain ⟨_, _, h⟩ := exists_of_bind_eq_ok h
  obtain ⟨_, _, h⟩ := exists_of_bind_eq_ok h
  obtain ⟨w, _, h⟩ := exists_of_bind_eq_ok h
  cases h
  rfl

theorem element_unshift (h : a.unshift v = .ok b) : b.element = a.element := by
  rw [unshift_def] at h
  obtain ⟨_, _, h⟩ := exists_of_bind_eq_ok h
  obtain ⟨_, _, h⟩ := exists_of_bind_eq_ok h
  obtain ⟨w, _, h⟩ := exists_of_bind_eq_ok h
  cases h
  rfl

theorem element_pop (h : a.pop = .ok (v, b)) : b.element = a.element := by
  rw [pop_def] at h
  obtain ⟨_, _, h⟩ := exists_of_bind_eq_ok h
  cases h
  rfl

theorem element_shift (h : a.shift = .ok (v, b)) : b.element = a.element := by
  rw [shift_def] at h
  obtain ⟨_, _, h⟩ := exists_of_bind_eq_ok h
  cases h
  rfl

end Grid

theorem Value.evolves_withMember {new v w : Value} {path : List Name}
    (h : Value.withMember new path v = .ok w) : v.Evolves w := by
  cases path with
  | nil => cases h
  | cons field rest =>
    cases v with
    | record members =>
      cases rest with
      | nil =>
        cases h
        exact .record _ _
      | cons next rest =>
        rw [Value.withMember] at h
        obtain ⟨inner, _, h⟩ := exists_of_bind_eq_ok h
        cases h
        exact .record _ _
    | integer | real | string | complex | array => cases rest <;> cases h

namespace Run

variable {aliases : List (Name × Name)}

theorem altering_assign (target : Location) (v : Value) : Altering aliases (assign target v) := by
  cases target with
  | «variable» name => exact altering_store name v
  | element name indexes =>
    refine altering_bind (altering_observe _) fun is => altering_updateArray fun a x b h => ?_
    obtain ⟨c, hc, h⟩ := exists_of_bind_eq_ok h
    cases h
    exact Grid.element_set hc
  | member name path =>
    rw [assign]
    refine altering_update fun r x w h => ?_
    obtain ⟨c, hc, h⟩ := exists_of_bind_eq_ok h
    cases h
    exact Value.evolves_withMember hc

/-! ## Statements -/

theorem altering_local (name : Name) (initial : Option Expression) :
    Altering aliases (localStatement name initial) := by
  have hlast : ∀ v, Altering aliases (do storeLocal name v; return Flow.next) :=
    fun v => altering_bind (altering_storeLocal name v) fun _ => altering_pure _
  cases initial with
  | some e => exact altering_bind (altering_value e) hlast
  | none => exact altering_bind (altering_pure _) hlast

theorem altering_push (name : Name) (e : Expression) : Altering aliases (pushStatement name e) := by
  refine altering_bind (altering_value e) fun v => ?_
  refine altering_bind (altering_updateArray fun a x b h => ?_) fun _ => altering_pure _
  obtain ⟨c, hc, h⟩ := exists_of_bind_eq_ok h
  cases h
  exact Grid.element_push hc

theorem altering_unshift (name : Name) (e : Expression) :
    Altering aliases (unshiftStatement name e) := by
  refine altering_bind (altering_value e) fun v => ?_
  refine altering_bind (altering_updateArray fun a x b h => ?_) fun _ => altering_pure _
  obtain ⟨c, hc, h⟩ := exists_of_bind_eq_ok h
  cases h
  exact Grid.element_unshift hc

theorem altering_pop (name : Name) (target : Location) :
    Altering aliases (popStatement name target) :=
  altering_bind (altering_updateArray fun _ _ _ h => Grid.element_pop h) fun v =>
    altering_bind (altering_assign target v) fun _ => altering_pure _

theorem altering_shift (name : Name) (target : Location) :
    Altering aliases (shiftStatement name target) :=
  altering_bind (altering_updateArray fun _ _ _ h => Grid.element_shift h) fun v =>
    altering_bind (altering_assign target v) fun _ => altering_pure _

theorem altering_enterCall : Altering aliases (enterCall aliases) := by
  intro p s
  simp only [enterCall, after_bind, after_memory, after_ofExcept, after_setMemory]
  exact ⟨fun vars h => .call h, fun _ _ => .none _⟩

theorem altering_dim (name : Name) (axes : List AxisRange) :
    Altering aliases (dimStatement name axes) :=
  altering_bind (altering_mapM altering_axisBounds axes) fun _ =>
    altering_bind (altering_ofExcept _) fun _ =>
      altering_bind (altering_store _ _) fun _ => altering_pure _

theorem altering_swap (a b : Location) : Altering aliases (swapStatement a b) := by
  refine altering_bind (altering_observe _) fun v => altering_bind (altering_observe _) fun w => ?_
  refine altering_ite (altering_throw _) ?_
  exact altering_bind (altering_assign a w) fun _ =>
    altering_bind (altering_assign b v) fun _ => altering_pure _

/-! ## Blocks -/

theorem altering_endOf (line : Nat) (wanted : Statement → Bool) (e : Error) :
    Altering aliases (do require (← closer line wanted) e) :=
  altering_bind (altering_closer _ _) fun _ => altering_require _ _

theorem altering_clauseOr (stop line : Nat) (wanted : Statement → Bool) :
    Altering aliases (clauseOr stop line wanted) :=
  altering_bind (altering_closer _ _) fun _ => altering_pure _

theorem altering_if (e : Expression) (negated : Bool) : Altering aliases (ifStatement e negated) := by
  refine altering_bind altering_line fun here => altering_bind (altering_endOf _ _ _) fun stop => ?_
  refine altering_bind (altering_condition e) fun taken => ?_
  refine altering_bind (altering_enter _ _ _) fun _ => ?_
  exact altering_ite (altering_pure _) (altering_clauseOr _ _ _)

theorem altering_ifBlock (first : Nat) : Altering aliases (ifBlock first) := by
  refine altering_bind (altering_framePlace first) fun place => ?_
  cases place with
  | some i =>
    exact altering_bind altering_frames fun _ => altering_bind (altering_require _ _) fun _ =>
      altering_pure _
  | none => exact altering_bind (altering_endOf _ _ _) fun _ => altering_pure _

theorem altering_elseIf (e : Expression) : Altering aliases (elseIfStatement e) := by
  refine altering_bind altering_line fun here => altering_bind (altering_opener _ _) fun _ => ?_
  refine altering_bind (altering_require _ _) fun first => ?_
  refine altering_bind (altering_ifBlock first) fun block => ?_
  cases block with
  | skipped last => exact altering_pure _
  | active i f =>
    refine altering_ite (altering_pure _) (altering_bind (altering_condition e) fun holds => ?_)
    refine altering_ite ?_ (altering_clauseOr _ _ _)
    exact altering_bind (altering_setFrameState _ _) fun _ => altering_pure _

theorem altering_else : Altering aliases elseStatement := by
  refine altering_bind altering_line fun here => altering_bind (altering_opener _ _) fun _ => ?_
  refine altering_bind (altering_require _ _) fun first => ?_
  refine altering_bind (altering_ifBlock first) fun block => ?_
  cases block with
  | skipped last => exact altering_pure _
  | active i f =>
    refine altering_ite (altering_pure _) ?_
    exact altering_bind (altering_setFrameState _ _) fun _ => altering_pure _

/-- END IF and END SELECT. -/
theorem altering_leaveBlock (wanted : Statement → Bool) :
    Altering aliases (do
      match ← opener (← line) wanted with
      | some first => leave first
      | none => pure ()
      return Flow.next) := by
  refine altering_bind altering_line fun _ => altering_bind (altering_opener _ _) fun found => ?_
  cases found with
  | some first => exact altering_bind (altering_leave first) fun _ => altering_pure _
  | none => exact altering_pure _

theorem altering_select (e : Expression) : Altering aliases (selectStatement e) :=
  altering_bind altering_line fun _ => altering_bind (altering_endOf _ _ _) fun _ =>
    altering_bind (altering_value e) fun _ => altering_bind (altering_enter _ _ _) fun _ =>
      altering_clauseOr _ _ _

theorem altering_case (tests : List CaseTest) : Altering aliases (caseStatement tests) := by
  refine altering_bind altering_line fun here => altering_bind (altering_opener _ _) fun _ => ?_
  refine altering_bind (altering_require _ _) fun first => ?_
  refine altering_bind (altering_framePlace first) fun place => ?_
  cases place with
  | none => exact altering_bind (altering_endOf _ _ _) fun _ => altering_pure _
  | some i =>
    refine altering_bind altering_frames fun _ => altering_bind (altering_require _ _) fun f => ?_
    split
    · refine altering_ite (altering_pure _) (altering_bind (altering_anyMatches _ _) fun _ => ?_)
      refine altering_ite ?_ (altering_clauseOr _ _ _)
      exact altering_bind (altering_setFrameState _ _) fun _ => altering_pure _
    · exact altering_throw _

theorem altering_loopStart (wanted : Statement → Bool) (code : ErrorCode) :
    Altering aliases (loopStart wanted code) :=
  altering_bind altering_line fun _ => altering_bind (altering_opener _ _) fun _ =>
    altering_bind (altering_require _ _) fun _ => altering_bind (altering_framePlace _) fun _ =>
      altering_bind (altering_require _ _) fun _ => altering_bind (altering_truncate _) fun _ =>
        altering_pure _

theorem altering_repeatOrLeave (first : Nat) (again : Bool) :
    Altering aliases (repeatOrLeave first again) :=
  altering_ite (altering_pure _) (altering_bind (altering_leave first) fun _ => altering_pure _)

/-- A loop is entered, or left for the line after it. -/
theorem altering_enterOr (here stop : Nat) (state : FrameState) (again : Bool) :
    Altering aliases (do
      if again then
        enter here stop state
        return Flow.next
      else
        leave here
        return Flow.jump (stop + 1)) :=
  altering_ite (altering_bind (altering_enter _ _ _) fun _ => altering_pure _)
    (altering_bind (altering_leave _) fun _ => altering_pure _)

theorem altering_while (e : Expression) (negated : Bool) :
    Altering aliases (whileStatement e negated) :=
  altering_bind altering_line fun _ => altering_bind (altering_closer _ _) fun _ =>
    altering_bind (altering_require _ _) fun _ => altering_bind (altering_condition e) fun _ =>
      altering_enterOr _ _ _ _

theorem altering_wend (negated : Bool) : Altering aliases (wendStatement negated) := by
  refine altering_bind (altering_loopStart _ _) fun first => ?_
  refine altering_bind (altering_statement first) fun opening => ?_
  have hlast : ∀ again, Altering aliases (repeatOrLeave first again) := altering_repeatOrLeave first
  dsimp only
  split
  · exact altering_bind (altering_condition _) hlast
  · exact altering_bind (altering_condition _) fun _ => altering_bind (altering_pure _) hlast
  · exact altering_bind (altering_pure _) hlast

theorem altering_do (c : Condition) : Altering aliases (doStatement c) :=
  altering_bind altering_line fun _ => altering_bind (altering_closer _ _) fun _ =>
    altering_bind (altering_require _ _) fun _ => altering_bind (altering_test c) fun _ =>
      altering_enterOr _ _ _ _

theorem altering_loop (c : Condition) : Altering aliases (loopStatement c) := by
  refine altering_bind (altering_loopStart _ _) fun first => ?_
  refine altering_bind (altering_test c) fun again => ?_
  refine altering_ite (altering_bind (altering_statement first) fun opening => ?_)
    (altering_repeatOrLeave _ _)
  split
  · exact altering_bind (altering_test _) fun _ => altering_repeatOrLeave _ _
  · exact altering_repeatOrLeave _ _

theorem altering_number (v : Value) : Altering aliases (number v) := altering_require _ _

theorem altering_for (name : Name) (start limit : Expression) (step : Option Expression) :
    Altering aliases (forStatement name start limit step) := by
  refine altering_bind altering_line fun here => altering_bind (altering_closer _ _) fun _ => ?_
  refine altering_bind (altering_require _ _) fun stop => ?_
  refine altering_bind (altering_value start) fun _ => altering_bind (altering_number _) fun start => ?_
  refine altering_bind (altering_value limit) fun _ => altering_bind (altering_number _) fun limit => ?_
  have hlast : ∀ step : Number, Altering aliases (do
      if start.within limit step then
        store name (.ofNumber start)
        let assigned := (← memory).variables.peek name
        enter here stop (.for { name, start, limit, step, counter := start, assigned })
        return Flow.next
      else
        leave here
        return Flow.jump (stop + 1) : Run Flow) := by
    intro step
    refine altering_ite ?_ (altering_bind (altering_leave _) fun _ => altering_pure _)
    exact altering_bind (altering_store _ _) fun _ => altering_bind altering_memory fun _ =>
      altering_bind (altering_enter _ _ _) fun _ => altering_pure _
  cases step with
  | some e => exact altering_bind (altering_value e) fun _ => altering_bind (altering_number _) hlast
  | none => exact altering_bind (altering_pure _) hlast

theorem altering_checkNext (name : Option Name) (opening : Statement) :
    Altering aliases (checkNext name opening) := by
  unfold checkNext
  split
  · exact altering_ite (altering_pure _) (altering_throw _)
  · exact altering_pure _

theorem altering_counterAfter (loop : ForLoop) (current : Value) :
    Altering aliases (counterAfter loop current) :=
  altering_ite (altering_pure _) (altering_number _)

theorem altering_next (name : Option Name) : Altering aliases (nextStatement name) := by
  refine altering_bind altering_line fun _ => altering_bind (altering_opener _ _) fun _ => ?_
  refine altering_bind (altering_require _ _) fun first => ?_
  refine altering_bind (altering_statement first) fun opening => ?_
  refine altering_bind (altering_checkNext name opening) fun _ => ?_
  refine altering_bind (altering_framePlace first) fun _ => ?_
  refine altering_bind (altering_require _ _) fun i => altering_bind (altering_truncate _) fun _ => ?_
  refine altering_bind altering_frames fun fs => ?_
  dsimp only
  split
  · exact altering_bind (altering_observe _) fun _ => altering_bind (altering_counterAfter _ _)
      fun _ => altering_bind (altering_store _ _) fun _ => altering_bind altering_memory fun _ =>
        altering_bind (altering_setFrameState _ _) fun _ => altering_repeatOrLeave _ _
  · exact altering_throw _

theorem altering_target (kind : BlockKind) (name : Option Name) :
    Altering aliases (target? kind name) :=
  altering_bind altering_frames fun _ => altering_bind altering_depth fun _ => altering_pure _

theorem altering_exit (kind : BlockKind) (name : Option Name) :
    Altering aliases (exitStatement kind name) := by
  refine altering_bind (altering_target kind name) fun place => ?_
  cases place with
  | none => exact altering_pure _
  | some i =>
    refine altering_bind altering_frames fun _ => altering_bind (altering_require _ _) fun f => ?_
    exact altering_ite (altering_bind (altering_truncate _) fun _ => altering_pure _)
      (altering_bind (altering_truncate _) fun _ => altering_pure _)

theorem altering_continue (kind : BlockKind) (name : Option Name) :
    Altering aliases (continueStatement kind name) := by
  refine altering_bind (altering_target kind name) fun place => ?_
  cases place with
  | none => exact altering_pure _
  | some i =>
    exact altering_bind (altering_truncate _) fun _ => altering_bind altering_frames fun _ =>
      altering_bind (altering_require _ _) fun _ => altering_pure _

/-! ## Jumps and TRY -/

theorem altering_labelLine (label : Name) : Altering aliases (labelLine label) :=
  altering_bind altering_read fun _ => altering_require _ _

theorem altering_gosub (label : Name) : Altering [] (gosubStatement label) :=
  altering_bind (altering_labelLine label) fun _ => altering_bind altering_enterCall fun _ =>
    altering_pure _

theorem altering_sub : Altering aliases subStatement :=
  altering_bind altering_line fun _ => altering_bind (altering_endOf _ _ _) fun _ => altering_pure _

theorem altering_try : Altering aliases tryStatement :=
  altering_bind altering_line fun _ => altering_bind (altering_endOf _ _ _) fun _ =>
    altering_bind (altering_closer _ _) fun _ => altering_bind (altering_closer _ _) fun _ =>
      altering_bind (altering_enter _ _ _) fun _ => altering_pure _

theorem altering_catch : Altering aliases catchStatement := by
  refine altering_bind altering_line fun _ => altering_bind (altering_opener _ _) fun _ => ?_
  refine altering_bind (altering_require _ _) fun first => ?_
  refine altering_bind (altering_framePlace first) fun place => altering_bind altering_frames fun fs => ?_
  split
  · split <;> exact altering_pure _
  · exact altering_bind (altering_endOf _ _ _) fun _ => altering_pure _

theorem altering_tryFrame : Altering aliases tryFrame? := by
  refine altering_bind altering_line fun _ => altering_bind (altering_opener _ _) fun found => ?_
  cases found with
  | none => exact altering_pure _
  | some first =>
    refine altering_bind (altering_framePlace first) fun place => ?_
    cases place with
    | none => exact altering_pure _
    | some i => exact altering_bind altering_frames fun _ => altering_pure _

theorem altering_finally : Altering aliases finallyStatement := by
  refine altering_bind altering_tryFrame fun found => ?_
  dsimp only
  split
  · exact altering_bind (altering_setFrameState _ _) fun _ => altering_pure _
  · exact altering_pure _

theorem altering_endTry : Altering aliases endTryStatement := by
  refine altering_bind altering_tryFrame fun found => ?_
  split
  · refine altering_bind (altering_leave _) fun _ => ?_
    split
    · exact altering_throw _
    · exact altering_pure _
  · exact altering_pure _

/-! ## Devices -/

theorem altering_print (items : List PrintItem) : Altering aliases (printStatement items) :=
  altering_bind (altering_forM altering_printItem items) fun _ =>
    altering_ite (altering_pure _) (altering_bind (altering_onScreen _) fun _ => altering_pure _)

theorem altering_color (e : Expression) : Altering aliases (color e) :=
  altering_bind (altering_integer e) fun _ => altering_ite (altering_throw _) (altering_pure _)

theorem altering_colors (foreground : Expression) (background : Option Expression) :
    Altering aliases (colorStatement foreground background) := by
  refine altering_bind (altering_color foreground) fun _ => altering_bind (altering_onScreen _) fun _ => ?_
  cases background with
  | some e =>
    exact altering_bind (altering_color e) fun _ => altering_bind (altering_onScreen _) fun _ =>
      altering_pure _
  | none => exact altering_pure _

theorem altering_draw (shape : Shape) (args : List Expression) (filled : Bool) :
    Altering aliases (drawStatement shape args filled) := by
  have hlast : ∀ points, Altering aliases (do onScreen (·.paint points); return Flow.next) :=
    fun points => altering_bind (altering_onScreen _) fun _ => altering_pure _
  refine altering_ite (altering_throw _) ?_
  dsimp only
  split
  · exact altering_bind (altering_integer _) fun _ => altering_bind (altering_integer _) fun _ =>
      altering_bind (altering_integer _) fun _ => altering_bind (altering_real _) fun _ =>
        altering_bind (altering_real _) fun _ => altering_bind (altering_pure _) hlast
  · exact altering_bind (altering_mapM altering_integer _) fun _ =>
      altering_bind (altering_pure _) hlast

theorem altering_record (request : SoundRequest) :
    Altering aliases (do onHost (·.record request); return Flow.next) :=
  altering_bind (altering_onHost _) fun _ => altering_pure _

theorem altering_sleep (e : Expression) : Altering aliases (sleepStatement e) :=
  altering_bind (altering_real e) fun _ => altering_ite (altering_throw _)
    (altering_ite (altering_pure _) (altering_pure _))

theorem altering_randomize (seed : Option Expression) :
    Altering aliases (randomizeStatement seed) := by
  cases seed with
  | some e =>
    exact altering_bind (altering_integer e) fun _ => altering_bind (altering_pure _) altering_reseed
  | none => exact altering_bind altering_host fun _ => altering_bind (altering_pure _) altering_reseed

theorem altering_onFiles (act : Action Files α) : Altering aliases (onFiles act) :=
  altering_bind altering_host fun _ => altering_bind (altering_setFiles _) fun _ =>
    altering_ofExcept _

theorem altering_open (path : Expression) (mode : FileMode) (handle : Location) :
    Altering aliases (openStatement path mode handle) :=
  altering_bind (altering_text path) fun _ => altering_bind (altering_onFiles _) fun _ =>
    altering_bind (altering_assign _ _) fun _ => altering_pure _

theorem altering_readBytes (handle amount : Expression) (target : Location) :
    Altering aliases (readStatement handle amount target) :=
  altering_bind (altering_integer handle) fun _ => altering_bind (altering_count amount) fun _ =>
    altering_bind (altering_onFiles _) fun _ => altering_bind (altering_assign _ _) fun _ =>
      altering_pure _

theorem altering_load (path : Expression) (target : Location) :
    Altering aliases (loadStatement path target) :=
  altering_bind (altering_text path) fun _ => altering_bind altering_host fun _ =>
    altering_bind (altering_ofExcept _) fun _ => altering_bind (altering_assign _ _) fun _ =>
      altering_pure _

/-- Every statement but CALL. -/
theorem altering_execute : (st : Statement) → (∀ name args, st ≠ .call name args) →
    Altering [] (execute st)
  | .remark _, _ | .label _, _ | .return, _ | .endSub, _ | .stop, _ => altering_pure _
  | .assign target e, _ =>
    altering_bind (altering_value e) fun v => altering_bind (altering_assign target v) fun _ =>
      altering_pure _
  | .localVariable name initial, _ => altering_local name initial
  | .dim name axes, _ => altering_dim name axes
  | .swap a b, _ => altering_swap a b
  | .push name e, _ => altering_push name e
  | .pop name target, _ => altering_pop name target
  | .shift name target, _ => altering_shift name target
  | .unshift name e, _ => altering_unshift name e
  | .print items, _ => altering_print items
  | .if e, _ => altering_if e false
  | .unless e, _ => altering_if e true
  | .elseIf e, _ => altering_elseIf e
  | .else, _ => altering_else
  | .endIf, _ | .endUnless, _ => altering_leaveBlock _
  | .while e, _ => altering_while e false
  | .until e, _ => altering_while e true
  | .wend, _ => altering_wend false
  | .uend, _ => altering_wend true
  | .do c, _ => altering_do c
  | .loop c, _ => altering_loop c
  | .for name start limit step, _ => altering_for name start limit step
  | .next name, _ => altering_next name
  | .select e, _ => altering_select e
  | .case tests, _ => altering_case tests
  | .endSelect, _ => altering_leaveBlock _
  | .try, _ => altering_try
  | .catch _, _ => altering_catch
  | .finally, _ => altering_finally
  | .endTry, _ => altering_endTry
  | .throw e, _ => altering_bind (altering_value e) fun _ => altering_throw _
  | .exit kind name, _ => altering_exit kind name
  | .continue kind name, _ => altering_continue kind name
  | .goto label, _ => altering_bind (altering_labelLine label) fun _ => altering_pure _
  | .gosub label, _ => altering_gosub label
  | .sub _ _, _ => altering_sub
  | .call name args, h => absurd rfl (h name args)
  | .randomize seed, _ => altering_randomize seed
  | .sleep e, _ => altering_sleep e
  | .view e, _ =>
    altering_bind (altering_text e) fun _ => altering_bind (altering_onHost _) fun _ =>
      altering_pure _
  | .color foreground background, _ => altering_colors foreground background
  | .locate row column, _ =>
    altering_bind (altering_count row) fun _ => altering_bind (altering_count column) fun _ =>
      altering_bind (altering_onScreen _) fun _ => altering_pure _
  | .cls, _ => altering_bind (altering_onScreen fun screen => screen.clear) fun _ => altering_pure _
  | .draw shape args filled, _ => altering_draw shape args filled
  | .tempo e, _ =>
    altering_bind (altering_real e) fun _ => altering_ite (altering_record _) (altering_throw _)
  | .volume e, _ =>
    altering_bind (altering_integer e) fun _ => altering_ite (altering_throw _) (altering_record _)
  | .voice e, _ => altering_bind (altering_count e) fun _ => altering_record _
  | .play voice notes, _ =>
    altering_bind (altering_count voice) fun _ => altering_bind (altering_text notes) fun _ =>
      altering_record _
  | .playStop, _ => altering_record _
  | .openFile path mode handle, _ => altering_open path mode handle
  | .closeFile handle, _ =>
    altering_bind (altering_integer handle) fun h =>
      altering_bind (altering_onFiles (Files.closing h)) fun _ => altering_pure _
  | .readBytes handle amount target, _ => altering_readBytes handle amount target
  | .writeBytes handle data, _ =>
    altering_bind (altering_integer handle) fun h => altering_bind (altering_value data) fun _ =>
      altering_bind (altering_ofExcept _) fun bytes =>
        altering_bind (altering_onFiles (Files.writing h bytes)) fun _ => altering_pure _
  | .seek handle position, _ =>
    altering_bind (altering_integer handle) fun h => altering_bind (altering_count position) fun n =>
      altering_bind (altering_onFiles (Files.seeking h n)) fun _ => altering_pure _
  | .loadFile path target, _ => altering_load path target
  | .saveFile path data, _ =>
    altering_bind (altering_text path) fun path => altering_bind (altering_value data) fun _ =>
      altering_bind (altering_ofExcept _) fun bytes =>
        altering_bind (altering_onFiles (Files.saving path bytes)) fun _ => altering_pure _

/-! ## CALL -/

theorem lentTo_cons (param : Parameter) (params : List Parameter) (e : Expression)
    (args : List Expression) :
    lentTo (param :: params) (e :: args) = lentTo [param] [e] ++ lentTo params args := by
  cases e with
  | «variable» target =>
    by_cases hr : param.byReference = true <;> simp [lentTo, hr]
  | _ => rfl

theorem after_value (p : Program) (s : State) (e : Expression) :
    After (value e) p s (fun _ t => t.memory.variables = s.memory.variables)
      fun _ t => t.memory.variables = s.memory.variables := by
  unfold After value observe State.observe
  cases evaluate e s.view s.memory.trail <;> rfl

/-- Whether an argument becomes an alias can be told from the text. -/
theorem after_passArgument (p : Program) (s : State) (param : Parameter) (e : Expression) :
    After (passArgument param e) p s
      (fun a t => a.alias?.toList = lentTo [param] [e] ∧ t.memory.variables = s.memory.variables)
      fun _ t => t.memory.variables = s.memory.variables := by
  have hvalue : lentTo [param] [e] = [] →
      After (do return Passed.value param.name (← value e)) p s
        (fun a t => a.alias?.toList = lentTo [param] [e] ∧ t.memory.variables = s.memory.variables)
        fun _ t => t.memory.variables = s.memory.variables := by
    intro hnone
    simp only [after_bind, after_pure]
    exact (after_value p s e).mono (fun _ _ ht => ⟨hnone.symm, ht⟩) fun _ _ ht => ht
  cases e with
  | «variable» target =>
    rw [passArgument]
    by_cases hr : param.byReference = true
    · rw [if_pos hr]
      exact ⟨by simp [lentTo, hr, Passed.alias?], rfl⟩
    · rw [if_neg hr]
      exact hvalue (by simp [lentTo, hr])
  | _ => exact hvalue rfl

theorem after_passArguments (p : Program) (params : List Parameter) (args : List Expression)
    (s : State) : After (passArguments params args) p s
      (fun passed t => passed.filterMap Passed.alias? = lentTo params args ∧
        t.memory.variables = s.memory.variables)
      fun _ t => t.memory.variables = s.memory.variables := by
  induction params generalizing args s with
  | nil => exact ⟨rfl, rfl⟩
  | cons param params ih =>
    cases args with
    | nil => exact ⟨rfl, rfl⟩
    | cons e args =>
      rw [passArguments]
      simp only [after_bind, after_pure]
      refine (after_passArgument p s param e).mono (fun a t hpassed => ?_) fun _ _ ht => ht
      obtain ⟨ha, ht⟩ := hpassed
      refine (ih args t).mono (fun rest u hothers => ?_) fun _ _ hu => hu.trans ht
      obtain ⟨hrest, hu⟩ := hothers
      refine ⟨?_, hu.trans ht⟩
      rw [lentTo_cons, ← ha, ← hrest, List.filterMap_cons]
      cases a.alias? <;> rfl

theorem altering_bindValues (passed : List Passed) : Altering aliases (bindValues passed) := by
  induction passed with
  | nil => exact altering_pure _
  | cons a rest ih =>
    cases a with
    | «alias» parameter target => exact ih
    | value parameter v => exact altering_bind (altering_storeLocal parameter v) fun _ => ih

/-- A call opens a scope with its aliases and stores the other arguments there. -/
theorem alters_call (p : Program) (s : State) (name : Name) (args : List Expression) :
    After (callStatement name args) p s
      (fun _ t => Variables.Alters (p.lends (.call name args)) s.memory.variables t.memory.variables)
      fun _ t => Variables.Alters (p.lends (.call name args)) s.memory.variables t.memory.variables := by
  unfold callStatement
  simp only [after_bind, after_read, after_require, after_statement]
  refine ⟨fun first hfirst => ⟨fun opening hopening => ?_, fun _ => .none _⟩, fun _ => .none _⟩
  cases opening with
  | sub other params =>
    have hlends : p.lends (.call name args) = lentTo params args := by
      simp [Program.lends, hfirst, hopening]
    dsimp only
    rw [after_ite]
    refine ⟨fun _ => .none _, fun _ => ?_⟩
    rw [after_bind]
    refine (altering_endOf first _ _ p s).mono (fun last t ht => ?_) fun _ _ ht => ht
    rw [after_bind]
    refine (after_passArguments p params args t).mono (fun passed u hpassing => ?_)
      fun _ u hu => hu ▸ ht
    obtain ⟨hpassed, hu⟩ := hpassing
    have hrest : Altering (p.lends (.call name args)) (do
        enterCall (passed.filterMap Passed.alias?)
        bindValues passed
        enter first last .sub
        return Flow.jump (first + 1)) := by
      rw [hpassed, hlends]
      exact altering_bind altering_enterCall fun _ => altering_bind (altering_bindValues passed)
        fun _ => altering_bind (altering_enter _ _ _) fun _ => altering_pure _
    exact (hrest p u).mono (fun _ _ hv => (hu ▸ ht).trans hv) fun _ _ hv => (hu ▸ ht).trans hv
  | _ => exact .none _

theorem alters_execute (p : Program) (s : State) (st : Statement) :
    After (execute st) p s
      (fun _ t => Variables.Alters (p.lends st) s.memory.variables t.memory.variables)
      fun _ t => Variables.Alters (p.lends st) s.memory.variables t.memory.variables := by
  cases st with
  | call name args => exact alters_call p s name args
  | _ => exact altering_execute _ (by simp) p s

end Run

/-! ## One step -/

namespace Variables

theorem leaveCall_eq_cutTo (vars : Variables) : vars.leaveCall.2 = vars.cutTo (vars.depth - 1) := by
  simp [leaveCall, cutTo, Stack.pop, Stack.truncate, depth, Stack.size, List.dropLast_eq_take]

end Variables

namespace Session

variable {aliases : List (Name × Name)}

theorem alters_follow (s : Session) (flow : Flow) :
    Variables.Alters aliases s.memory.variables (s.follow flow).2.memory.variables := by
  cases flow with
  | «return» =>
    rw [follow, returnFromCall]
    split
    · exact .none _
    · have hcut := s.memory.variables.leaveCall_eq_cutTo
      generalize s.memory.variables.leaveCall = r at hcut
      obtain ⟨target, vars⟩ := r
      dsimp only at hcut ⊢
      subst hcut
      cases target <;> exact .cut _ _
  | next | jump _ | stop | rest _ => exact .none _

theorem alters_resume (s : Session) (place : Nat) (f : Frame) (line : Nat) (t : TryBlock) (e : Error) :
    Variables.Alters aliases s.memory.variables (s.resume place f line t e).2.memory.variables := by
  unfold resume
  refine Variables.Alters.trans (.cut _ f.depth) ?_
  dsimp only
  split
  · rename_i u hu
    split at hu
    · unfold bindError at hu
      split at hu
      · obtain ⟨m, hm, hu⟩ := exists_of_bind_eq_ok hu
        obtain ⟨w, hw, hm⟩ := exists_of_bind_eq_ok hm
        cases hm
        cases hu
        exact .put _ _ hw
      · cases hu
        exact .none _
    · cases hu
      exact .none _
  · exact .none _

theorem alters_recoverFrom (s : Session) (e : Error) (n : Nat) :
    Variables.Alters aliases s.memory.variables (s.recoverFrom e n).2.memory.variables := by
  induction n generalizing s with
  | zero => exact .none _
  | succ place ih =>
    rw [recoverFrom]
    split
    · split
      · split
        · exact ih s
        · split
          · split
            · exact s.alters_resume _ _ _ _ _
            · exact ih s
          · exact ih { s with frames := s.frames.erase place }
      · exact ih s
    · exact ih s

theorem alters_recover (s : Session) (e : Error) :
    Variables.Alters aliases s.memory.variables (s.recover e).2.memory.variables := by
  unfold recover
  split
  · exact .none _
  · exact s.alters_recoverFrom e _

/-- A step alters the variables as its statement does, and then as a return or
an error does. -/
theorem alters_step (s : Session) : s.step.2.memory.variables = s.memory.variables ∨
    ∃ st, s.program.statement? s.line = some st ∧
      Variables.Alters (s.program.lends st) s.memory.variables s.step.2.memory.variables := by
  unfold step
  split
  · exact Or.inl rfl
  · split
    · exact Or.inl rfl
    · rename_i st hst
      refine Or.inr ⟨st, hst, ?_⟩
      have hx := Run.alters_execute s.program s.toState st
      unfold Run.After at hx
      split
      · rename_i flow t ht
        rw [ht] at hx
        exact Variables.Alters.trans hx (alters_follow (s.withState t) flow)
      · rename_i e t ht
        rw [ht] at hx
        exact Variables.Alters.trans hx (alters_recover (s.withState t) _)

end Session

end LineBasic
