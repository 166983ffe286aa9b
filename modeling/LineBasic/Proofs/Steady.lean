-- Statements that do not steer the program. A steady computation neither sees
-- nor changes the line, the blocks and the calls that the program is in, so it
-- does the same wherever it stands. Every plain statement that is no jump is
-- steady, and so is the evaluation of every expression.
import LineBasic.Proofs.Calculus
import LineBasic.Proofs.Mild

namespace LineBasic

/-! ## Where a program is -/

/-- The lines to return to, one for each active call. -/
def Variables.calls (vars : Variables) : Stack (Option Nat) :=
  { note := vars.scopes.note, limit := vars.scopes.limit,
    items := vars.scopes.items.map (·.returnLine) }

/-- What steers a program: its line, the blocks it is in, and the calls it is in. -/
structure Control where
  line : Nat
  frames : Frames
  calls : Stack (Option Nat)

/-- The number of active calls. -/
def Control.depth (c : Control) : Nat := c.calls.size

namespace State

def control (s : State) : Control := ⟨s.memory.line, s.frames, s.memory.variables.calls⟩

/-- The same state at another line and in other blocks. -/
def place (s : State) (line : Nat) (fs : Frames) : State :=
  { s with memory := { s.memory with line }, frames := fs }

theorem place_self (s : State) : s.place s.memory.line s.frames = s := rfl

end State

theorem Variables.depth_eq_size_calls (vars : Variables) : vars.depth = vars.calls.size := by
  simp [depth, calls, Stack.size]

@[simp] theorem Variables.calls_store (vars : Variables) (v : Value) (c : Cell) :
    (vars.store v c).calls = vars.calls := by
  cases c with
  | global key => rfl
  | «local» level key =>
    simp only [store, calls, Stack.modify, Stack.mk.injEq, true_and]
    apply List.ext_getElem?
    intro i
    simp only [List.getElem?_map, List.getElem?_modify]
    by_cases hi : level = i
    · cases vars.scopes.items[i]? <;> simp [hi]
    · cases vars.scopes.items[i]? <;> simp [hi]

theorem Variables.depth_store (vars : Variables) (v : Value) (c : Cell) :
    (vars.store v c).depth = vars.depth := by
  rw [depth_eq_size_calls, calls_store, ← depth_eq_size_calls]

theorem Variables.depth_put (vars : Variables) (name : Name) (v : Value) (here : Bool) :
    (vars.put name v here).depth = vars.depth :=
  vars.depth_store v _

namespace Variables

/-- Following aliases down the scopes ends at a global cell or at a scope that is there. -/
theorem locate_local {scopes : List Scope} {depth : Nat} {key : Name} {here : Bool} {level : Nat}
    {k : Name} (h : locate scopes depth key here = .local level k) : level < depth := by
  induction depth generalizing key here with
  | zero => cases h
  | succ n ih =>
    rw [locate] at h
    split at h
    · cases h
    · split at h
      · exact Nat.lt_succ_of_lt (ih h)
      · split at h
        · cases h
          exact Nat.lt_succ_self _
        · cases h

theorem isLive_cell (vars : Variables) (name : Name) (here : Bool) :
    vars.isLive (vars.cell name here) = true := by
  cases hc : vars.cell name here with
  | global key => rfl
  | «local» level key => exact decide_eq_true (locate_local hc)

theorem isLive_store (vars : Variables) (v : Value) (c d : Cell) :
    (vars.store v c).isLive d = vars.isLive d := by
  cases d with
  | global key => rfl
  | «local» level key =>
    simp only [isLive, depth_eq_size_calls, calls_store]

/-- The cell that `slot` picks, and what it leaves of the variables. -/
theorem slot_cell (vars : Variables) (name : Name) :
    (vars.slot name).1 = vars.cell name false ∧
      ((vars.slot name).2.2 = vars ∨
        ∃ v, (vars.slot name).2.2 = vars.store v (vars.cell name false)) := by
  unfold slot
  dsimp only
  split
  · exact ⟨rfl, Or.inl rfl⟩
  · exact ⟨rfl, Or.inr ⟨_, rfl⟩⟩

theorem calls_slot (vars : Variables) (name : Name) : (vars.slot name).2.2.calls = vars.calls := by
  rcases (slot_cell vars name).2 with h | ⟨v, h⟩
  · rw [h]
  · rw [h, calls_store]

/-- The cell of a slot is in a scope that is there, so it can be changed. -/
theorem isLive_slot (vars : Variables) (name : Name) :
    (vars.slot name).2.2.isLive (vars.slot name).1 = true := by
  obtain ⟨hc, hv⟩ := slot_cell vars name
  rw [hc]
  rcases hv with h | ⟨v, h⟩
  · rw [h, isLive_cell]
  · rw [h, isLive_store, isLive_cell]

end Variables

/-! ## Paths to members -/

/-- A member is named by at least one field. -/
def Location.hasPath : Location → Bool
  | .member _ [] => false
  | _ => true

namespace Statement

/-- The locations that a statement stores into. -/
def targets : Statement → List Location
  | .assign target _ => [target]
  | .swap a b => [a, b]
  | .pop _ target | .shift _ target => [target]
  | .openFile _ _ handle => [handle]
  | .readBytes _ _ target | .loadFile _ target => [target]
  | _ => []

/-- No member that a statement stores into has an empty path. -/
def hasPaths (st : Statement) : Bool := st.targets.all Location.hasPath

/-- A plain statement that is no jump: it runs on to the next line. -/
def isSteady : Statement → Bool
  | .goto _ | .gosub _ | .return | .call .. | .exit .. | .continue .. | .stop => false
  | st => st.role = .plain

end Statement

/-- On to the next line, at once or after a rest. -/
def Flow.isOnward : Flow → Bool
  | .next | .rest _ => true
  | _ => false

namespace Run

variable {α β : Type}

/-- A result with its state put at another line and in other blocks. -/
def placed (line : Nat) (fs : Frames) :
    EStateM.Result Error State α → EStateM.Result Error State α
  | .ok a t => .ok a (t.place line fs)
  | .error e t => .error e (t.place line fs)

/-- `x` does the same at every line, in all blocks and in every program, stays in
its calls, and fails only with errors that are `ok`. -/
structure Steady (ok : Error → Prop) (x : Run α) : Prop where
  blind : ∀ p q s line fs, x p (s.place line fs) = placed line fs (x q s)
  kept : ∀ p s, After x p s (fun _ t => t.memory.variables.calls = s.memory.variables.calls)
    fun e t => ok e ∧ t.memory.variables.calls = s.memory.variables.calls

/-- A steady computation leaves the program where it is. -/
theorem Steady.control {ok : Error → Prop} {x : Run α} (h : Steady ok x) (p : Program) (s : State) :
    After x p s (fun _ t => t.control = s.control) fun e t => ok e ∧ t.control = s.control := by
  have hb := h.blind p p s s.memory.line s.frames
  have hk := h.kept p s
  -- A state that is put where it was and kept its calls has the same control.
  have back : ∀ t : State, t = t.place s.memory.line s.frames →
      t.memory.variables.calls = s.memory.variables.calls → t.control = s.control := by
    intro t ht hc
    rw [congrArg State.control ht]
    simp only [State.control, State.place, hc]
  unfold After at *
  rw [s.place_self] at hb
  cases hx : x p s with
  | ok a t =>
    rw [hx] at hb hk
    injection hb with _ ht
    exact back t ht hk
  | error e t =>
    rw [hx] at hb hk
    injection hb with _ ht
    exact ⟨hk.1, back t ht hk.2⟩

section Rules

variable {ok : Error → Prop}

theorem Steady.mono {ok' : Error → Prop} {x : Run α} (h : Steady ok x) (hok : ∀ e, ok e → ok' e) :
    Steady ok' x :=
  ⟨h.blind, fun p s => (h.kept p s).mono (fun _ _ ht => ht) fun e _ ⟨he, ht⟩ => ⟨hok e he, ht⟩⟩

theorem steady_pure (a : α) : Steady ok (pure a : Run α) :=
  ⟨fun _ _ _ _ _ => rfl, fun _ _ => rfl⟩

theorem steady_throw {e : Error} (he : ok e) : Steady ok (throw e : Run α) :=
  ⟨fun _ _ _ _ _ => rfl, fun _ _ => ⟨he, rfl⟩⟩

theorem steady_bind {x : Run α} {f : α → Run β} (hx : Steady ok x) (hf : ∀ a, Steady ok (f a)) :
    Steady ok (x >>= f) := by
  constructor
  · intro p q s line fs
    have hb : ∀ r u, (x >>= f) r u = EStateM.bind (x r) (fun a => f a r) u := fun _ _ => rfl
    rw [hb, hb]
    unfold EStateM.bind
    rw [hx.blind p q s line fs]
    cases x q s with
    | ok a t => exact (hf a).blind p q t line fs
    | error e t => rfl
  · intro p s
    rw [after_bind]
    refine (hx.kept p s).mono (fun a t ht => ?_) fun e t h => h
    exact ((hf a).kept p t).mono (fun _ u hu => hu.trans ht) fun e u ⟨he, hu⟩ => ⟨he, hu.trans ht⟩

theorem steady_ite {c : Prop} [Decidable c] {x y : Run α} (hx : c → Steady ok x)
    (hy : ¬ c → Steady ok y) : Steady ok (if c then x else y) := by
  by_cases hc : c
  · rw [if_pos hc]; exact hx hc
  · rw [if_neg hc]; exact hy hc

theorem steady_ofExcept {x : Except Error α} (hx : ∀ e, x = .error e → ok e) :
    Steady ok (ofExcept x) := by
  cases x with
  | ok a => exact steady_pure a
  | error e => exact steady_throw (hx e rfl)

theorem steady_require {o : Option α} {e : Error} (he : ok e) : Steady ok (require o e) := by
  cases o with
  | some a => exact steady_pure a
  | none => exact steady_throw he

theorem steady_mapM {f : β → Run α} (hf : ∀ b, Steady ok (f b)) (l : List β) :
    Steady ok (l.mapM f) := by
  induction l with
  | nil => exact steady_pure []
  | cons b rest ih =>
    rw [List.mapM_cons]
    exact steady_bind (hf b) fun _ => steady_bind ih fun _ => steady_pure _

theorem steady_forM {f : β → Run PUnit} (hf : ∀ b, Steady ok (f b)) (l : List β) :
    Steady ok (l.forM f) := by
  induction l with
  | nil => exact steady_pure _
  | cons b rest ih => exact steady_bind (hf b) fun _ => ih

end Rules

/-! ## What statements are made of -/

section Parts

variable {ok : Error → Prop}

theorem steady_observe {x : Eval α} (hx : x.IsMild) : Steady Error.Fresh (observe x) := by
  constructor
  · intro p q s line fs
    have hv : (s.place line fs).view = s.view := rfl
    simp only [observe, State.observe, hv]
    have ht : (s.place line fs).memory.trail = s.memory.trail := rfl
    rw [ht]
    cases x s.view s.memory.trail <;> rfl
  · intro p s
    unfold After observe State.observe
    cases hr : x s.view s.memory.trail with
    | ok a t => rfl
    | error e t => exact ⟨hx _ _ _ _ hr, rfl⟩

theorem steady_value (e : Expression) : Steady Error.Fresh (value e) :=
  steady_observe (isMild_evaluate e)

theorem steady_mild {x : Except Error α} (hx : MildExcept x) : Steady Error.Fresh (ofExcept x) :=
  steady_ofExcept hx

theorem steady_integer (e : Expression) : Steady Error.Fresh (integer e) :=
  steady_bind (steady_value e) fun v => steady_mild v.mild_toInteger

theorem steady_real (e : Expression) : Steady Error.Fresh (real e) :=
  steady_bind (steady_value e) fun v => steady_mild v.mild_toReal

theorem steady_count (e : Expression) : Steady Error.Fresh (count e) :=
  steady_bind (steady_value e) fun v => steady_mild v.mild_toCount

theorem steady_text (e : Expression) : Steady Error.Fresh (text e) :=
  steady_bind (steady_value e) fun v => steady_mild v.mild_toText

theorem steady_condition (e : Expression) : Steady Error.Fresh (condition e) := by
  refine steady_bind (steady_value e) fun v => ?_
  cases v with
  | integer n => exact steady_pure _
  | real | string | complex | array | record => exact steady_throw rfl

theorem steady_host : Steady ok host := ⟨fun _ _ _ _ _ => rfl, fun _ _ => rfl⟩

theorem steady_onHost (f : Host → Host) : Steady ok (onHost f) :=
  ⟨fun _ _ _ _ _ => rfl, fun _ _ => rfl⟩

theorem steady_onScreen (f : Screen → Screen) : Steady ok (onScreen f) := steady_onHost _

theorem steady_setFiles (files : Files) : Steady ok (setFiles files) := steady_onHost _

theorem mild_fitTo (name : Name) (v : Value) : MildExcept (fitTo name v) := by
  unfold fitTo
  split
  · split
    · exact mildExcept_bind (Grid.mild_retype _ _) fun _ => mildExcept_pure _
    · exact (mildExcept_error _).2 rfl
  · exact Value.mild_coerce _ _

/-- Storing under a name is steady, in whichever scope the name leads to. -/
theorem steady_put (name : Name) (v : Value) (here : Variables → Bool) :
    Steady Error.Fresh (do
      let m ← memory
      setMemory (← ofExcept (m.set name v (here m.variables)))) := by
  have hm := mild_fitTo name v
  constructor
  · intro p q s line fs
    cases hf : fitTo name v with
    | ok w => simp only [Memory.set, hf]; rfl
    | error e => simp only [Memory.set, hf]; rfl
  · intro p s
    cases hf : fitTo name v with
    | ok w =>
      simp only [Memory.set, hf]
      exact Variables.calls_store _ _ _
    | error e =>
      simp only [Memory.set, hf]
      exact ⟨hm e hf, rfl⟩

theorem steady_store (name : Name) (v : Value) : Steady Error.Fresh (store name v) :=
  steady_put name v fun vars => vars.hasLocal name

theorem steady_storeLocal (name : Name) (v : Value) : Steady Error.Fresh (storeLocal name v) :=
  steady_put name v fun _ => true

/-- What `update` does once the cell is known to be live. -/
theorem update_eq (name : Name) (change : Value → Except Error (α × Value)) :
    update name change = (do
      let (cell, v, m) := (← memory).slot name
      setMemory m
      let (a, w) ← ofExcept (change v)
      setMemory (m.store cell w)
      return a) := by
  funext p s
  unfold update
  have hl : (s.memory.slot name).2.2.variables.isLive (s.memory.slot name).1 = true :=
    s.memory.variables.isLive_slot name
  have hm : ∀ f : Memory → Run α, (memory >>= f) p s = f s.memory p s := fun _ => rfl
  rw [hm, hm]
  dsimp only
  rw [if_pos hl]

theorem steady_update {name : Name} {change : Value → Except Error (α × Value)}
    (hc : ∀ v e, change v = .error e → ok e) : Steady ok (update name change) := by
  rw [update_eq]
  constructor
  · intro p q s line fs
    have hs : (s.place line fs).memory.slot name =
        ((s.memory.slot name).1, (s.memory.slot name).2.1,
          { (s.memory.slot name).2.2 with line }) := rfl
    have hm : ∀ r u (f : Memory → Run α), (memory >>= f) r u = f u.memory r u := fun _ _ _ => rfl
    rw [hm, hm, hs]
    cases hr : change (s.memory.slot name).2.1 with
    | ok r => simp only [hr]; rfl
    | error e => simp only [hr]; rfl
  · intro p s
    have hk : (s.memory.slot name).2.2.variables.calls = s.memory.variables.calls :=
      s.memory.variables.calls_slot name
    simp only [after_bind, after_memory, after_setMemory, after_ofExcept, after_pure]
    refine ⟨fun r hr => ?_, fun e he => ⟨hc _ e he, hk⟩⟩
    exact (Variables.calls_store _ _ _).trans hk

theorem mild_withMember {new : Value} {path : List Name} {v : Value} (h : path ≠ []) :
    MildExcept (Value.withMember new path v) := by
  induction path generalizing v with
  | nil => exact absurd rfl h
  | cons field rest ih =>
    cases v with
    | record members =>
      cases rest with
      | nil => exact mildExcept_ok _
      | cons next rest =>
        rw [Value.withMember]
        exact mildExcept_bind (ih (by simp)) fun _ => mildExcept_pure _
    | integer | real | string | complex | array =>
      cases rest <;> exact (mildExcept_error _).2 rfl

theorem steady_updateArray {name : Name} {change : Grid Value → Except Error (α × Grid Value)}
    (hc : ∀ a, MildExcept (change a)) : Steady Error.Fresh (updateArray name change) := by
  refine steady_update fun v => ?_
  cases v with
  | array a => exact mildExcept_bind (hc a) fun _ => mildExcept_pure _
  | integer | real | string | complex | record => exact (mildExcept_error _).2 rfl

/-- An error that a statement may raise although it only stores into `targets`. -/
def Expected (targets : List Location) (e : Error) : Prop :=
  e.Fresh ∨ e.line = none ∧ targets.all Location.hasPath = false

theorem Steady.expected {targets : List Location} {x : Run α} (h : Steady Error.Fresh x) :
    Steady (Expected targets) x :=
  h.mono fun _ he => Or.inl he

theorem steady_assign {targets : List Location} {target : Location} (v : Value)
    (ht : target ∈ targets) : Steady (Expected targets) (assign target v) := by
  unfold assign
  split
  · exact (steady_store _ v).expected
  · refine (steady_bind (steady_observe (isMild_evaluateIndexes _)) fun is => ?_).expected
    exact steady_updateArray fun a => mildExcept_bind (Grid.mild_set a is v) fun _ => mildExcept_pure _
  · rename_i name path
    refine steady_update fun r e he => ?_
    cases path with
    | nil =>
      refine Or.inr ⟨?_, ?_⟩
      · cases he
        rfl
      · rw [List.all_eq_false]
        exact ⟨_, ht, by simp [Location.hasPath]⟩
    | cons field rest =>
      refine Or.inl ?_
      exact mildExcept_bind (mild_withMember (by simp)) (fun _ => mildExcept_pure _) e he

end Parts

/-! ## Plain statements -/

section Statements

variable {targets : List Location}

theorem steady_axisBounds (a : AxisRange) : Steady Error.Fresh (axisBounds a) := by
  have hlast : ∀ r : Int64 × Int, Steady Error.Fresh
      (if r.2 < 0 then throw Error.negativeArraySize else return (r.1, r.2.toNat)) :=
    fun r => steady_ite (fun _ => steady_throw rfl) fun _ => steady_pure _
  refine steady_bind (steady_integer a.upper) fun upper => ?_
  dsimp only
  split
  · refine steady_bind (steady_integer _) fun lower => steady_ite (fun _ => ?_) fun _ => ?_
    · exact steady_bind (steady_pure _) hlast
    · exact steady_bind (steady_throw rfl) hlast
  · exact steady_bind (steady_pure _) hlast

theorem steady_dim (name : Name) (axes : List AxisRange) :
    Steady Error.Fresh (dimStatement name axes) := by
  refine steady_bind (steady_mapM steady_axisBounds axes) fun bounds => ?_
  refine steady_bind (steady_mild (Grid.mild_dimensioned _ bounds)) fun a => ?_
  exact steady_bind (steady_store _ _) fun _ => steady_pure _

theorem steady_local (name : Name) (initial : Option Expression) :
    Steady Error.Fresh (localStatement name initial) := by
  have hlast : ∀ v, Steady Error.Fresh (do storeLocal name v; return Flow.next) :=
    fun v => steady_bind (steady_storeLocal name v) fun _ => steady_pure _
  unfold localStatement
  dsimp only
  split
  · exact steady_bind (steady_value _) hlast
  · exact steady_bind (steady_pure _) hlast

theorem steady_swap {a b : Location} (ha : a ∈ targets) (hb : b ∈ targets) :
    Steady (Expected targets) (swapStatement a b) := by
  refine steady_bind (steady_observe (isMild_readLocation a)).expected fun v => ?_
  refine steady_bind (steady_observe (isMild_readLocation b)).expected fun w => ?_
  refine steady_ite (fun _ => steady_throw (Or.inl rfl)) fun _ => ?_
  refine steady_bind (steady_assign w ha) fun _ => ?_
  exact steady_bind (steady_assign v hb) fun _ => steady_pure _

/-- The four statements that work on an end of a list. -/
theorem steady_take {target : Location} (ht : target ∈ targets) (name : Name)
    {change : Grid Value → Except Error (Value × Grid Value)} (hc : ∀ a, MildExcept (change a)) :
    Steady (Expected targets) (do
      assign target (← updateArray name change)
      return Flow.next) := by
  refine steady_bind (steady_updateArray hc).expected fun v => ?_
  exact steady_bind (steady_assign v ht) fun _ => steady_pure _

theorem steady_add (name : Name) (e : Expression)
    {change : Value → Grid Value → Except Error (Unit × Grid Value)}
    (hc : ∀ v a, MildExcept (change v a)) :
    Steady Error.Fresh (do
      let v ← value e
      updateArray name (change v)
      return Flow.next) := by
  refine steady_bind (steady_value e) fun v => ?_
  exact steady_bind (steady_updateArray (hc v)) fun _ => steady_pure _

theorem steady_printItem (i : PrintItem) : Steady Error.Fresh (printItem i) := by
  unfold printItem
  split
  · exact steady_bind (steady_value _) fun _ => steady_onScreen _
  · exact steady_onScreen _
  · exact steady_pure _

theorem steady_print (items : List PrintItem) : Steady Error.Fresh (printStatement items) := by
  refine steady_bind (steady_forM steady_printItem items) fun _ => ?_
  refine steady_ite (fun _ => steady_pure _) fun _ => ?_
  exact steady_bind (steady_onScreen _) fun _ => steady_pure _

theorem steady_color (e : Expression) : Steady Error.Fresh (color e) :=
  steady_bind (steady_integer e) fun _ =>
    steady_ite (fun _ => steady_throw rfl) fun _ => steady_pure _

theorem steady_colors (foreground : Expression) (background : Option Expression) :
    Steady Error.Fresh (colorStatement foreground background) := by
  refine steady_bind (steady_color foreground) fun c => ?_
  refine steady_bind (steady_onScreen _) fun _ => ?_
  dsimp only
  split
  · exact steady_bind (steady_color _) fun _ =>
      steady_bind (steady_onScreen _) fun _ => steady_pure _
  · exact steady_pure _

theorem steady_locate (row column : Expression) : Steady Error.Fresh (locateStatement row column) :=
  steady_bind (steady_count row) fun _ => steady_bind (steady_count column) fun _ =>
    steady_bind (steady_onScreen _) fun _ => steady_pure _

theorem steady_draw (shape : Shape) (args : List Expression) (filled : Bool) :
    Steady Error.Fresh (drawStatement shape args filled) := by
  have hlast : ∀ points, Steady Error.Fresh (do onScreen (·.paint points); return Flow.next) :=
    fun points => steady_bind (steady_onScreen _) fun _ => steady_pure _
  refine steady_ite (fun _ => steady_throw rfl) fun _ => ?_
  dsimp only
  split
  · exact steady_bind (steady_integer _) fun _ => steady_bind (steady_integer _) fun _ =>
      steady_bind (steady_integer _) fun _ => steady_bind (steady_real _) fun _ =>
        steady_bind (steady_real _) fun _ => steady_bind (steady_pure _) hlast
  · exact steady_bind (steady_mapM steady_integer _) fun _ => steady_bind (steady_pure _) hlast

theorem steady_record (request : SoundRequest) :
    Steady Error.Fresh (do onHost (·.record request); return Flow.next) :=
  steady_bind (steady_onHost _) fun _ => steady_pure _

theorem steady_tempo (e : Expression) : Steady Error.Fresh (tempoStatement e) :=
  steady_bind (steady_real e) fun _ =>
    steady_ite (fun _ => steady_record _) fun _ => steady_throw rfl

theorem steady_volume (e : Expression) : Steady Error.Fresh (volumeStatement e) :=
  steady_bind (steady_integer e) fun _ =>
    steady_ite (fun _ => steady_throw rfl) fun _ => steady_record _

theorem steady_sleep (e : Expression) : Steady Error.Fresh (sleepStatement e) :=
  steady_bind (steady_real e) fun _ => steady_ite (fun _ => steady_throw rfl) fun _ =>
    steady_ite (fun _ => steady_pure _) fun _ => steady_pure _

theorem steady_reseed (seed : UInt64) :
    Steady Error.Fresh (do setMemory ((← memory).randomize seed); return Flow.next) :=
  ⟨fun _ _ _ _ _ => rfl, fun _ _ => rfl⟩

theorem steady_randomize (seed : Option Expression) :
    Steady Error.Fresh (randomizeStatement seed) := by
  unfold randomizeStatement
  dsimp only
  split
  · exact steady_bind (steady_integer _) fun _ => steady_bind (steady_pure _) steady_reseed
  · exact steady_bind steady_host fun _ => steady_bind (steady_pure _) steady_reseed

/-! ## Files -/

theorem mild_byteOf (v : Value) : MildExcept (byteOf v) := by
  refine mildExcept_bind v.mild_toInteger fun n => ?_
  split
  · exact (mildExcept_error _).2 rfl
  · exact mildExcept_pure _

theorem mild_bytesOfValue (v : Value) : MildExcept (bytesOfValue v) := by
  cases v with
  | array a => exact mildExcept_bind (mildExcept_mapM mild_byteOf _) fun _ => mildExcept_pure _
  | integer | real | string | complex | record => exact mildExcept_ok _

/-- An action fails with the error that it is refused with. -/
theorem mild_result {act : Action Files α} {f : Files} (h : MildExcept (act.granted f)) :
    MildExcept (act.result f).1 := by
  unfold Action.granted at h
  unfold Action.result
  cases hrun : act f with
  | ok a g => exact mildExcept_ok _
  | error e g =>
    rw [hrun] at h
    exact (mildExcept_error _).2 ((mildExcept_error _).1 h)

theorem mild_result_of_changed {act : Action Files Unit} {f : Files}
    (h : MildExcept (act.changed f)) : MildExcept (act.result f).1 := by
  refine mild_result fun e he => h e ?_
  unfold Action.changed
  rw [he]
  rfl

theorem mild_opening (f : Files) (path : String) (mode : FileMode) :
    MildExcept ((Files.opening path mode).result f).1 := by
  apply mild_result
  change MildExcept (f.openAs path mode)
  rw [Files.openAs_def]
  cases mode with
  | read =>
    dsimp only
    split
    · exact mildExcept_ok _
    · exact (mildExcept_error _).2 rfl
  | write | append | readWrite => exact mildExcept_ok _

theorem mild_closing (f : Files) (h : Int64) : MildExcept ((Files.closing h).result f).1 := by
  apply mild_result_of_changed
  change MildExcept (f.close h)
  rw [Files.close_def]
  exact mildExcept_bind (mild_handle f h) fun _ => mildExcept_pure _

theorem mild_reading (f : Files) (h : Int64) (n : Nat) :
    MildExcept ((Files.reading h n).result f).1 := by
  apply mild_result
  change MildExcept (f.read h n)
  rw [Files.read_def]
  refine mildExcept_bind (mild_handle f h) fun file => ?_
  split
  · exact (mildExcept_error _).2 rfl
  · exact mildExcept_pure _

theorem mild_writing (f : Files) (h : Int64) (data : ByteArray) :
    MildExcept ((Files.writing h data).result f).1 := by
  apply mild_result_of_changed
  change MildExcept (f.write h data)
  rw [Files.write_def]
  refine mildExcept_bind (mild_handle f h) fun file => ?_
  split
  · exact (mildExcept_error _).2 rfl
  · split
    · exact (mildExcept_error _).2 rfl
    · exact mildExcept_pure _

theorem mild_seeking (f : Files) (h : Int64) (n : Nat) :
    MildExcept ((Files.seeking h n).result f).1 := by
  apply mild_result_of_changed
  change MildExcept (f.seek h n)
  rw [Files.seek_def]
  refine mildExcept_bind (mild_handle f h) fun file => ?_
  split
  · exact (mildExcept_error _).2 rfl
  · exact mildExcept_pure _

theorem mild_readAll (f : Files) (path : String) : MildExcept (f.readAll path) := by
  unfold Files.readAll
  split
  · exact mildExcept_ok _
  · exact (mildExcept_error _).2 rfl

theorem mild_saving (f : Files) (path : String) (data : ByteArray) :
    MildExcept ((Files.saving path data).result f).1 := by
  apply mild_result_of_changed
  change MildExcept (f.writeAll path data)
  rw [Files.writeAll_def]
  split
  · exact (mildExcept_error _).2 rfl
  · exact mildExcept_ok _

theorem steady_onFiles {act : Action Files α} (hact : ∀ f, MildExcept (act.result f).1) :
    Steady Error.Fresh (onFiles act) :=
  steady_bind steady_host fun h => steady_bind (steady_setFiles _) fun _ =>
    steady_mild (hact h.files)

theorem steady_open {handle : Location} (ht : handle ∈ targets) (path : Expression)
    (mode : FileMode) : Steady (Expected targets) (openStatement path mode handle) := by
  refine steady_bind (steady_text path).expected fun path => ?_
  refine steady_bind (steady_onFiles fun f => mild_opening f path mode).expected fun h => ?_
  exact steady_bind (steady_assign _ ht) fun _ => steady_pure _

theorem steady_read {target : Location} (ht : target ∈ targets) (handle amount : Expression) :
    Steady (Expected targets) (readStatement handle amount target) := by
  refine steady_bind (steady_integer handle).expected fun h => ?_
  refine steady_bind (steady_count amount).expected fun n => ?_
  refine steady_bind (steady_onFiles fun f => mild_reading f h n).expected fun bytes => ?_
  exact steady_bind (steady_assign _ ht) fun _ => steady_pure _

theorem steady_load {target : Location} (ht : target ∈ targets) (path : Expression) :
    Steady (Expected targets) (loadStatement path target) := by
  refine steady_bind (steady_text path).expected fun path => ?_
  refine steady_bind steady_host fun host => ?_
  refine steady_bind (steady_mild (mild_readAll host.files path)).expected fun bytes => ?_
  exact steady_bind (steady_assign _ ht) fun _ => steady_pure _

end Statements

/-- A plain statement that is no jump is steady. It fails with a mild error,
unless it stores into a member with an empty path. -/
theorem steady_execute : (st : Statement) → st.isSteady = true →
    Steady (Expected st.targets) (execute st)
  | .remark _, _ | .label _, _ => steady_pure _
  | .assign _ e, _ =>
    steady_bind (steady_value e).expected fun v =>
      steady_bind (steady_assign v (by simp [Statement.targets])) fun _ => steady_pure _
  | .localVariable name initial, _ => (steady_local name initial).expected
  | .dim name axes, _ => (steady_dim name axes).expected
  | .swap a b, _ => steady_swap (by simp [Statement.targets]) (by simp [Statement.targets])
  | .push name e, _ =>
    (steady_add name e fun v a =>
      mildExcept_bind (Grid.mild_push a v) fun _ => mildExcept_pure _).expected
  | .unshift name e, _ =>
    (steady_add name e fun v a =>
      mildExcept_bind (Grid.mild_unshift a v) fun _ => mildExcept_pure _).expected
  | .pop name _, _ => steady_take (by simp [Statement.targets]) name Grid.mild_pop
  | .shift name _, _ => steady_take (by simp [Statement.targets]) name Grid.mild_shift
  | .print items, _ => (steady_print items).expected
  | .throw e, _ =>
    (steady_bind (steady_value e) fun v => steady_throw (e := Error.thrown v.render) rfl).expected
  | .randomize seed, _ => (steady_randomize seed).expected
  | .sleep e, _ => (steady_sleep e).expected
  | .view e, _ =>
    (steady_bind (steady_text e) fun _ => steady_bind (steady_onHost _) fun _ =>
      steady_pure _).expected
  | .color foreground background, _ => (steady_colors foreground background).expected
  | .locate row column, _ => (steady_locate row column).expected
  | .cls, _ => steady_bind (steady_onScreen _) fun _ => steady_pure _
  | .draw shape args filled, _ => (steady_draw shape args filled).expected
  | .tempo e, _ => (steady_tempo e).expected
  | .volume e, _ => (steady_volume e).expected
  | .voice e, _ => (steady_bind (steady_count e) fun _ => steady_record _).expected
  | .play voice notes, _ =>
    (steady_bind (steady_count voice) fun _ => steady_bind (steady_text notes) fun _ =>
      steady_record _).expected
  | .playStop, _ => (steady_record _).expected
  | .openFile path mode _, _ => steady_open (by simp [Statement.targets]) path mode
  | .closeFile handle, _ =>
    (steady_bind (steady_integer handle) fun h =>
      steady_bind (steady_onFiles fun f => mild_closing f h) fun _ => steady_pure _).expected
  | .readBytes handle amount _, _ => steady_read (by simp [Statement.targets]) handle amount
  | .writeBytes handle data, _ =>
    (steady_bind (steady_integer handle) fun h => steady_bind (steady_value data) fun v =>
      steady_bind (steady_mild (mild_bytesOfValue v)) fun bytes =>
        steady_bind (steady_onFiles fun f => mild_writing f h bytes) fun _ =>
          steady_pure _).expected
  | .seek handle position, _ =>
    (steady_bind (steady_integer handle) fun h => steady_bind (steady_count position) fun n =>
      steady_bind (steady_onFiles fun f => mild_seeking f h n) fun _ => steady_pure _).expected
  | .loadFile path _, _ => steady_load (by simp [Statement.targets]) path
  | .saveFile path data, _ =>
    (steady_bind (steady_text path) fun path => steady_bind (steady_value data) fun v =>
      steady_bind (steady_mild (mild_bytesOfValue v)) fun bytes =>
        steady_bind (steady_onFiles fun f => mild_saving f path bytes) fun _ =>
          steady_pure _).expected

/-! ## Where a plain statement goes on -/

/-- A computation that can only end by going on to the next line. -/
def Onward (x : Run Flow) : Prop :=
  ∀ p s, After x p s (fun flow _ => flow.isOnward = true) fun _ _ => True

theorem onward_next : Onward (pure Flow.next) := fun _ _ => rfl

theorem onward_throw (e : Error) : Onward (throw e) := fun _ _ => trivial

theorem onward_bind {x : Run α} {f : α → Run Flow} (hf : ∀ a, Onward (f a)) : Onward (x >>= f) := by
  intro p s
  rw [after_bind]
  unfold After
  cases x p s with
  | ok a t => exact hf a p t
  | error e t => trivial

theorem onward_ite {c : Prop} [Decidable c] {x y : Run Flow} (hx : Onward x) (hy : Onward y) :
    Onward (if c then x else y) := by
  by_cases hc : c
  · rw [if_pos hc]; exact hx
  · rw [if_neg hc]; exact hy

theorem onward_rest (delay : Nat) : Onward (pure (Flow.rest delay)) := fun _ _ => rfl

/-- Whatever a plain statement does, its last act is to go on or to fail. -/
theorem onward_execute (st : Statement) (h : st.isSteady = true) : Onward (execute st) := by
  cases st
  all_goals first
    | exact onward_next
    | (cases h; done)
    | (dsimp only [execute, letStatement, localStatement, dimStatement, swapStatement,
        pushStatement, unshiftStatement, popStatement, shiftStatement, printStatement,
        throwStatement, randomizeStatement, sleepStatement, viewStatement, colorStatement,
        locateStatement, clsStatement, drawStatement, tempoStatement, volumeStatement,
        voiceStatement, playStatement, playStopStatement, openStatement, closeStatement,
        readStatement, writeStatement, seekStatement, loadStatement, saveStatement]
       -- Only what the text of a statement shows is matched, and nothing is unfolded for it.
       repeat' with_reducible first
        | exact onward_next
        | exact onward_rest _
        | exact onward_throw _
        | refine onward_ite ?_ ?_
        | refine onward_bind fun _ => ?_
        | split)

end Run

end LineBasic
