-- Arrays keep to their limit. DIM, a write to an element, PUSH and UNSHIFT refuse to
-- make an array longer than it may be, and every other statement only copies arrays
-- or makes them shorter. What is left are the two ways that an array comes in whole:
-- a literal in the text, and the bytes of a file. Neither is looked at, so the limit
-- holds as long as they keep to it.
import LineBasic.Proofs.Carriage
import LineBasic.Proofs.Isolation
import LineBasic.Proofs.Sizes

namespace LineBasic

namespace Run

variable {α β : Type} {R : α → Prop} {Q : β → Prop}

/-! ## Rules -/

/-- If the variables keep to the limit, they do so after `x` whatever becomes of it,
and what `x` yields has `R`. -/
def Yields (R : α → Prop) (x : Run α) : Prop :=
  ∀ p s, s.memory.variables.Within →
    After x p s (fun a t => R a ∧ t.memory.variables.Within) fun _ t => t.memory.variables.Within

/-- Nothing is said about the value. -/
abbrev Keeps (x : Run α) : Prop := Yields (fun _ => True) x

theorem yields_pure {a : α} (h : R a) : Yields R (pure a : Run α) := fun _ _ hs => ⟨h, hs⟩

theorem keeps_pure (a : α) : Keeps (pure a : Run α) := yields_pure trivial

theorem yields_throw (e : Error) : Yields R (throw e : Run α) := fun _ _ hs => hs

theorem yields_bind {x : Run α} {f : α → Run β} (hx : Yields R x)
    (hf : ∀ a, R a → Yields Q (f a)) : Yields Q (x >>= f) := by
  intro p s hs
  rw [after_bind]
  refine (hx p s hs).mono (fun a t ht => ?_) fun _ _ ht => ht
  exact hf a ht.1 p t ht.2

/-- The common case: nothing is known about what the first part yields. -/
theorem yields_then {x : Run α} {f : α → Run β} (hx : Keeps x) (hf : ∀ a, Yields Q (f a)) :
    Yields Q (x >>= f) :=
  yields_bind hx fun a _ => hf a

theorem yields_ite {c : Prop} [Decidable c] {x y : Run α} (hx : Yields R x) (hy : Yields R y) :
    Yields R (if c then x else y) := by
  by_cases hc : c
  · rw [if_pos hc]; exact hx
  · rw [if_neg hc]; exact hy

theorem yields_ofExcept {x : Except Error α} (h : Gives R x) : Yields R (ofExcept x) := by
  cases x with
  | ok a => exact yields_pure (h a rfl)
  | error e => exact yields_throw e

theorem keeps_ofExcept (x : Except Error α) : Keeps (ofExcept x) :=
  yields_ofExcept fun _ _ => trivial

theorem keeps_require (o : Option α) (e : Error) : Keeps (require o e) := by
  cases o with
  | some a => exact keeps_pure a
  | none => exact yields_throw e

theorem keeps_mapM {f : β → Run α} (hf : ∀ b, Keeps (f b)) (l : List β) : Keeps (l.mapM f) := by
  induction l with
  | nil => exact keeps_pure []
  | cons b rest ih =>
    rw [List.mapM_cons]
    exact yields_then (hf b) fun _ => yields_then ih fun _ => keeps_pure _

/-! ## Parts that read -/

/-- An evaluation sees variables that keep to the limit and leaves them alone. -/
theorem yields_observe {x : Eval α}
    (h : ∀ view : View, view.variables.Within → Eval.Yields view R x) : Yields R (observe x) := by
  intro p s hs
  unfold After observe State.observe
  cases hx : x s.view s.memory.trail with
  | ok a t => exact ⟨h s.view hs _ a t hx, hs⟩
  | error e t => exact hs

theorem keeps_observe (x : Eval α) : Keeps (observe x) :=
  yields_observe fun _ _ _ _ _ _ => trivial

theorem yields_value {e : Expression} (h : e.listsFit = true) : Yields Value.Within (value e) :=
  yields_observe fun _ hview => Eval.yields_evaluate hview e h

theorem keeps_integer (e : Expression) : Keeps (integer e) :=
  yields_then (keeps_observe _) fun _ => keeps_ofExcept _

theorem keeps_count (e : Expression) : Keeps (count e) :=
  yields_then (keeps_observe _) fun _ => keeps_ofExcept _

theorem keeps_text (e : Expression) : Keeps (text e) :=
  yields_then (keeps_observe _) fun _ => keeps_ofExcept _

/-- What is worked out from the state alone. -/
theorem keeps_get (f : State → α) : Keeps (do return f (← get) : Run α) :=
  fun _ _ hs => ⟨trivial, hs⟩

theorem keeps_read : Keeps (read : Run Program) := fun _ _ hs => ⟨trivial, hs⟩

theorem keeps_line : Keeps line := keeps_get _

theorem keeps_frames : Keeps frames := keeps_get _

theorem keeps_depth : Keeps depth := keeps_get _

theorem keeps_setFrames (fs : Frames) : Keeps (setFrames fs) := fun _ _ hs => ⟨trivial, hs⟩

theorem keeps_onFiles (act : Action Files α) : Keeps (onFiles act) := fun _ _ hs =>
  after_onFiles (fun _ _ _ => ⟨trivial, hs⟩) fun _ _ => hs

theorem keeps_enter (first last : Nat) (state : FrameState) : Keeps (enter first last state) :=
  yields_then keeps_frames fun _ => yields_then keeps_depth fun _ =>
    yields_then (keeps_ofExcept _) fun _ => keeps_setFrames _

theorem keeps_leave (first : Nat) : Keeps (leave first) :=
  yields_then keeps_frames fun _ => yields_then keeps_depth fun _ => keeps_setFrames _

theorem keeps_framePlace (first : Nat) : Keeps (framePlace? first) :=
  yields_then keeps_frames fun _ => yields_then keeps_depth fun _ => keeps_pure _

theorem keeps_truncate (size : Nat) : Keeps (truncate size) :=
  yields_then keeps_frames fun _ => keeps_setFrames _

theorem keeps_setFrameState (place : Nat) (state : FrameState) :
    Keeps (setFrameState place state) :=
  yields_then keeps_frames fun _ => keeps_setFrames _

theorem keeps_statement (l : Nat) : Keeps (statement l) :=
  yields_then keeps_read fun _ => keeps_require _ _

theorem keeps_closer (start : Nat) (wanted : Statement → Bool) : Keeps (closer start wanted) :=
  yields_then keeps_read fun _ => keeps_pure _

theorem keeps_opener (place : Nat) (wanted : Statement → Bool) : Keeps (opener place wanted) :=
  yields_then keeps_read fun _ => keeps_pure _

theorem keeps_repeatOrLeave (first : Nat) (again : Bool) : Keeps (repeatOrLeave first again) :=
  yields_ite (keeps_pure _) (yields_then (keeps_leave first) fun _ => keeps_pure _)

theorem keeps_axisBounds (a : AxisRange) : Keeps (axisBounds a) := by
  have hlast : ∀ r : Int64 × Int, Keeps (do
      if r.2 < 0 then throw Error.negativeArraySize else return (r.1, r.2.toNat) : Run _) :=
    fun r => yields_ite (yields_throw _) (keeps_pure _)
  refine yields_then (keeps_integer a.upper) fun upper => ?_
  dsimp only
  split
  · refine yields_then (keeps_integer _) fun lower => ?_
    split
    · exact yields_then (keeps_pure _) hlast
    · exact yields_then (yields_throw _) hlast
  · exact yields_then (keeps_pure _) hlast

/-! ## Parts that store -/

/-- A value that keeps to the limit still does when it is made to fit a name. -/
theorem within_set {mem mem' : Memory} {name : Name} {v : Value} {here : Bool}
    (h : mem.variables.Within) (hv : v.Within) (hset : mem.set name v here = .ok mem') :
    mem'.variables.Within := by
  obtain ⟨w, hw, hmem⟩ := exists_of_bind_eq_ok hset
  cases hmem
  exact h.store (gives_fitTo name hv w hw) _

theorem keeps_put (name : Name) {v : Value} (hv : v.Within) (here : Variables → Bool) :
    Keeps (do
      let m ← memory
      setMemory (← ofExcept (m.set name v (here m.variables)))) := by
  intro p s hs
  simp only [after_bind, after_memory, after_ofExcept, after_setMemory]
  exact ⟨fun mem hmem => ⟨trivial, within_set hs hv hmem⟩, fun _ _ => hs⟩

theorem keeps_store (name : Name) {v : Value} (hv : v.Within) : Keeps (store name v) :=
  keeps_put name hv fun vars => vars.hasLocal name

theorem keeps_storeLocal (name : Name) {v : Value} (hv : v.Within) : Keeps (storeLocal name v) :=
  keeps_put name hv fun _ => true

/-- A change in place is told by what it makes of a value that keeps to the limit. -/
theorem yields_update (name : Name) {change : Value → Except Error (α × Value)}
    (hc : ∀ v, v.Within → Gives (fun r => R r.1 ∧ r.2.Within) (change v)) :
    Yields R (update name change) := by
  intro p s hs
  obtain ⟨hslot, hv⟩ := hs.slot name
  rw [update_eq]
  simp only [after_bind, after_memory, after_setMemory, after_ofExcept, after_pure]
  refine ⟨fun r hr => ?_, fun _ _ => hslot⟩
  obtain ⟨hr, hw⟩ := hc _ hv r hr
  exact ⟨hr, hslot.store hw _⟩

theorem yields_updateArray (name : Name) {change : Grid Value → Except Error (α × Grid Value)}
    (hc : ∀ a, a.Within → Gives (fun r => R r.1 ∧ r.2.Within) (change a)) :
    Yields R (updateArray name change) := by
  refine yields_update _ fun v hv => ?_
  cases v with
  | array a => exact gives_bind (hc a hv) fun r hr => gives_pure hr
  | integer | real | string | complex | record => exact gives_error _

theorem keeps_assign (target : Location) {v : Value} (hv : v.Within) : Keeps (assign target v) := by
  cases target with
  | «variable» name => exact keeps_store name hv
  | element name indexes =>
    refine yields_then (keeps_observe _) fun is => yields_updateArray _ fun a ha => ?_
    exact gives_bind (Grid.gives_set ha is hv) fun b hb => gives_pure ⟨trivial, hb⟩
  | member name path =>
    rw [assign]
    refine yields_update name fun r hr => ?_
    exact gives_bind (Value.gives_withMember hv path hr) fun w hw => gives_pure ⟨trivial, hw⟩

theorem keeps_enterCall (aliases : List (Name × Name)) : Keeps (enterCall aliases) := by
  intro p s hs
  simp only [enterCall, after_bind, after_memory, after_ofExcept, after_setMemory]
  exact ⟨fun vars hvars => ⟨trivial, hs.enterCall hvars⟩, fun _ _ => hs⟩

/-! ## Statements that store -/

theorem keeps_let (target : Location) {e : Expression} (he : e.listsFit = true) :
    Keeps (letStatement target e) :=
  yields_bind (yields_value he) fun _ hv =>
    yields_then (keeps_assign target hv) fun _ => keeps_pure _

theorem keeps_local (name : Name) {initial : Option Expression}
    (h : ∀ e ∈ initial.toList, e.listsFit = true) : Keeps (localStatement name initial) := by
  have hlast : ∀ v : Value, v.Within → Keeps (do storeLocal name v; return Flow.next) :=
    fun v hv => yields_then (keeps_storeLocal name hv) fun _ => keeps_pure _
  cases initial with
  | some e => exact yields_bind (yields_value (h e (by simp))) hlast
  | none => exact yields_bind (yields_pure (Value.within_defaultFor name)) hlast

theorem keeps_dim (name : Name) (axes : List AxisRange) : Keeps (dimStatement name axes) :=
  yields_then (keeps_mapM keeps_axisBounds axes) fun bounds =>
    yields_bind (yields_ofExcept (Grid.gives_dimensioned _ bounds)) fun _ ha =>
      yields_then (keeps_store _ ha) fun _ => keeps_pure _

theorem keeps_swap (a b : Location) : Keeps (swapStatement a b) := by
  refine yields_bind (yields_observe fun _ hview => Eval.yields_read hview a) fun v hv => ?_
  refine yields_bind (yields_observe fun _ hview => Eval.yields_read hview b) fun w hw => ?_
  refine yields_ite (yields_throw _) ?_
  exact yields_then (keeps_assign a hw) fun _ =>
    yields_then (keeps_assign b hv) fun _ => keeps_pure _

/-- PUSH and UNSHIFT: an item is added at one end. -/
theorem keeps_add (name : Name) {e : Expression} (he : e.listsFit = true)
    {add : Grid Value → Value → Except Error (Grid Value)}
    (h : ∀ a v, a.Within → v.Within → Gives Grid.Within (add a v)) :
    Keeps (do
      let v ← value e
      updateArray name fun a => do return ((), ← add a v)
      return Flow.next) := by
  refine yields_bind (yields_value he) fun v hv => ?_
  refine yields_then (yields_updateArray name fun a ha => ?_) fun _ => keeps_pure _
  exact gives_bind (h a v ha hv) fun b hb => gives_pure ⟨trivial, hb⟩

/-- POP and SHIFT: an item comes out and goes elsewhere. -/
theorem keeps_take (name : Name) (target : Location)
    {take : Grid Value → Except Error (Value × Grid Value)}
    (h : ∀ a, a.Within → Gives (fun r => r.1.Within ∧ r.2.Within) (take a)) :
    Keeps (do assign target (← updateArray name take); return Flow.next) :=
  yields_bind (yields_updateArray name h) fun _ hv =>
    yields_then (keeps_assign target hv) fun _ => keeps_pure _

theorem within_ofNumber (n : Number) : (Value.ofNumber n).Within := by
  cases n <;> exact .scalar rfl

theorem keeps_number (v : Value) : Keeps (number v) := keeps_require _ _

theorem keeps_for (name : Name) (start limit : Expression) (step : Option Expression) :
    Keeps (forStatement name start limit step) := by
  refine yields_then keeps_line fun here => ?_
  refine yields_then (keeps_closer _ _) fun _ => yields_then (keeps_require _ _) fun stop => ?_
  refine yields_then (keeps_observe _) fun _ => yields_then (keeps_number _) fun start => ?_
  refine yields_then (keeps_observe _) fun _ => yields_then (keeps_number _) fun limit => ?_
  have hlast : ∀ step : Number, Keeps (do
      if start.within limit step then
        store name (.ofNumber start)
        let assigned := (← memory).variables.peek name
        enter here stop (.for { name, start, limit, step, counter := start, assigned })
        return Flow.next
      else
        leave here
        return Flow.jump (stop + 1) : Run Flow) := by
    intro step
    refine yields_ite ?_ (yields_then (keeps_leave _) fun _ => keeps_pure _)
    exact yields_then (keeps_store _ (within_ofNumber _)) fun _ =>
      yields_then (keeps_get _) fun _ => yields_then (keeps_enter _ _ _) fun _ => keeps_pure _
  cases step with
  | some e => exact yields_then (keeps_observe _) fun _ => yields_then (keeps_number _) hlast
  | none => exact yields_then (keeps_pure _) hlast

theorem keeps_checkNext (name : Option Name) (opening : Statement) :
    Keeps (checkNext name opening) := by
  unfold checkNext
  split
  · exact yields_ite (keeps_pure _) (yields_throw _)
  · exact keeps_pure _

theorem keeps_next (name : Option Name) : Keeps (nextStatement name) := by
  refine yields_then keeps_line fun _ => yields_then (keeps_opener _ _) fun _ => ?_
  refine yields_then (keeps_require _ _) fun first => ?_
  refine yields_then (keeps_statement first) fun opening => ?_
  refine yields_then (keeps_checkNext name opening) fun _ => ?_
  refine yields_then (keeps_framePlace first) fun _ => yields_then (keeps_require _ _) fun i => ?_
  refine yields_then (keeps_truncate _) fun _ => yields_then keeps_frames fun fs => ?_
  split
  · refine yields_then (keeps_observe _) fun current => ?_
    refine yields_then (yields_ite (keeps_pure _) (keeps_number _)) fun counter => ?_
    refine yields_then (keeps_store _ (within_ofNumber _)) fun _ => ?_
    exact yields_then (keeps_get _) fun _ =>
      yields_then (keeps_setFrameState _ _) fun _ => keeps_repeatOrLeave _ _
  · exact yields_throw _

theorem keeps_gosub (label : Name) : Keeps (gosubStatement label) :=
  yields_then (yields_then keeps_read fun _ => keeps_require _ _) fun _ =>
    yields_then (keeps_enterCall []) fun _ => keeps_pure _

/-- An argument that is passed as a value keeps to the limit. -/
def Passed.Within : Passed → Prop
  | .alias _ _ => True
  | .value _ v => v.Within

theorem yields_passArgument (p : Parameter) {e : Expression} (he : e.listsFit = true) :
    Yields Passed.Within (passArgument p e) := by
  have hvalue : Yields Passed.Within (do return Passed.value p.name (← value e)) :=
    yields_bind (yields_value he) fun _ hv => yields_pure hv
  cases e with
  | «variable» target => exact yields_ite (yields_pure trivial) hvalue
  | _ => exact hvalue

theorem yields_passArguments (params : List Parameter) {args : List Expression}
    (h : ∀ e ∈ args, e.listsFit = true) :
    Yields (fun passed => ∀ a ∈ passed, a.Within) (passArguments params args) := by
  induction params generalizing args with
  | nil => exact yields_pure (by simp)
  | cons p params ih =>
    cases args with
    | nil => exact yields_pure (by simp)
    | cons e args =>
      obtain ⟨he, hargs⟩ := List.forall_mem_cons.1 h
      refine yields_bind (yields_passArgument p he) fun a ha => ?_
      refine yields_bind (ih hargs) fun rest hrest => ?_
      exact yields_pure (List.forall_mem_cons.2 ⟨ha, hrest⟩)

theorem keeps_bindValues {passed : List Passed} (h : ∀ a ∈ passed, a.Within) :
    Keeps (bindValues passed) := by
  induction passed with
  | nil => exact keeps_pure _
  | cons a rest ih =>
    obtain ⟨ha, hrest⟩ := List.forall_mem_cons.1 h
    cases a with
    | «alias» parameter target => exact ih hrest
    | value parameter v => exact yields_then (keeps_storeLocal parameter ha) fun _ => ih hrest

theorem keeps_call (name : Name) {args : List Expression} (h : ∀ e ∈ args, e.listsFit = true) :
    Keeps (callStatement name args) := by
  refine yields_then keeps_read fun _ => yields_then (keeps_require _ _) fun first => ?_
  refine yields_then (keeps_statement first) fun opening => ?_
  split
  · refine yields_ite (yields_throw _) ?_
    refine yields_then (yields_then (keeps_closer _ _) fun _ => keeps_require _ _) fun last => ?_
    refine yields_bind (yields_passArguments _ h) fun passed hpassed => ?_
    exact yields_then (keeps_enterCall _) fun _ => yields_then (keeps_bindValues hpassed) fun _ =>
      yields_then (keeps_enter _ _ _) fun _ => keeps_pure _
  · exact yields_throw _

theorem keeps_open (path : Expression) (mode : FileMode) (handle : Location) :
    Keeps (openStatement path mode handle) :=
  yields_then (keeps_text path) fun _ => yields_then (keeps_onFiles _) fun _ =>
    yields_then (keeps_assign handle (.scalar rfl)) fun _ => keeps_pure _

/-! ## Bytes from files -/

/-- The value that a statement takes from a file for its target. -/
def intake : Statement → Run Value
  | .readBytes handle amount target => do
    let h ← integer handle
    let n ← count amount
    let (bytes, _) ← ofExcept ((← host).files.read h n)
    return valueOfBytes target.name bytes
  | .loadFile path target => do
    let path ← text path
    let bytes ← ofExcept ((← host).files.readAll path)
    return valueOfBytes target.name bytes
  | _ => return .integer 0

/-- What the statement takes from a file, if it takes anything, keeps to the limit. -/
def Spares (st : Statement) (p : Program) (s : State) : Prop :=
  After (intake st) p s (fun v _ => v.Within) fun _ _ => True

theorem after_host {p : Program} {s : State} {A : Host → State → Prop} {E : Error → State → Prop} :
    After host p s A E ↔ A s.host s := Iff.rfl

/-- The variables keep to the limit, whatever becomes of the computation. -/
abbrev AfterWithin (x : Run α) (p : Program) (s : State) : Prop :=
  After x p s (fun _ t => t.memory.variables.Within) fun _ t => t.memory.variables.Within

theorem Yields.after {x : Run α} (h : Yields R x) {p : Program} {s : State}
    (hs : s.memory.variables.Within) : AfterWithin x p s :=
  (h p s hs).mono (fun _ _ ht => ht.2) fun _ _ ht => ht

theorem within_readBytes {handle amount : Expression} {target : Location} {p : Program} {s : State}
    (hs : s.memory.variables.Within) (h : Spares (.readBytes handle amount target) p s) :
    AfterWithin (readStatement handle amount target) p s := by
  unfold Spares intake at h
  unfold AfterWithin readStatement
  rw [after_bind] at h ⊢
  refine (h.and (keeps_integer handle p s hs)).mono ?_ fun _ _ he => he.2
  rintro n t ⟨h, -, ht⟩
  rw [after_bind] at h ⊢
  refine (h.and (keeps_count amount p t ht)).mono ?_ fun _ _ he => he.2
  rintro k u ⟨h, -, hu⟩
  simp only [after_bind, after_host, after_ofExcept, after_pure] at h ⊢
  refine after_onFiles (fun bytes files hread => ?_) fun _ _ => hu
  have hv : (valueOfBytes target.name bytes).Within := h.1 (bytes, files) hread
  exact (keeps_assign target hv).after hu

theorem within_load {path : Expression} {target : Location} {p : Program} {s : State}
    (hs : s.memory.variables.Within) (h : Spares (.loadFile path target) p s) :
    AfterWithin (loadStatement path target) p s := by
  unfold Spares intake at h
  unfold AfterWithin loadStatement
  rw [after_bind] at h ⊢
  refine (h.and (keeps_text path p s hs)).mono ?_ fun _ _ he => he.2
  rintro name t ⟨h, -, ht⟩
  simp only [after_bind, after_host, after_ofExcept, after_pure] at h ⊢
  refine ⟨fun bytes hbytes => ?_, fun _ _ => ht⟩
  have hv : (valueOfBytes target.name bytes).Within := h.1 bytes hbytes
  exact (keeps_assign target hv).after ht

end Run

/-! ## One statement -/

namespace Run

/-- A computation that is carried along keeps what is kept. -/
theorem Meets.fits {α γ : Type} {m : Relocation} {I : Variables → Prop} {here : Nat}
    {R : α → γ → Prop} {x : EStateM.Result Error State α} {y : EStateM.Result Error State γ}
    (h : Meets m I here R x y) : Holds (fun _ t => I t.memory.variables)
      (fun _ t => I t.memory.variables) x := by
  cases x <;> cases y <;> first | exact h.2.2.2 | exact h.elim

theorem within_execute {st : Statement} {p : Program} {s : State}
    (hst : p.statement? s.memory.line = some st) (hfit : ∀ e ∈ st.expressions, e.listsFit = true)
    (hspares : Spares st p s) (hs : s.memory.variables.Within) : AfterWithin (execute st) p s := by
  by_cases hstores : st.stores = true
  · cases st with
    | assign target e => exact (keeps_let target (hfit e List.mem_cons_self)).after hs
    | localVariable name initial => exact (keeps_local name hfit).after hs
    | dim name axes => exact (keeps_dim name axes).after hs
    | swap a b => exact (keeps_swap a b).after hs
    | push name e =>
      have he := hfit e List.mem_cons_self
      exact (keeps_add name he fun _ _ => Grid.gives_push).after hs
    | unshift name e =>
      have he := hfit e List.mem_cons_self
      exact (keeps_add name he fun _ _ => Grid.gives_unshift).after hs
    | pop name target => exact (keeps_take name target fun _ => Grid.gives_pop).after hs
    | shift name target => exact (keeps_take name target fun _ => Grid.gives_shift).after hs
    | «for» name start limit step => exact (keeps_for name start limit step).after hs
    | next name => exact (keeps_next name).after hs
    | gosub label => exact (keeps_gosub label).after hs
    | call name args => exact (keeps_call name hfit).after hs
    | openFile path mode handle => exact (keeps_open path mode handle).after hs
    | readBytes handle amount target => exact within_readBytes hs hspares
    | loadFile path target => exact within_load hs hspares
    | _ => cases hstores
  · -- The other statements leave the variables as they are.
    have hmeets := directs_execute (m := .still p id fun _ _ => rfl) (I := Variables.Within) hst
      (fun h => absurd h hstores) s ⟨rfl, hs⟩
    exact hmeets.fits

end Run

/-! ## Refusals -/

namespace Grid

variable {a : Grid Value} {v w : Value}

theorem push_full (hlist : a.isDynamic = true) (hfull : maxItems ≤ a.size) (v : Value) :
    a.push v = .error Error.arrayTooLarge := by
  rw [push_def]
  unfold requireDynamic requireRoom
  rw [if_pos hlist, if_neg (Nat.not_lt.2 hfull)]
  rfl

theorem unshift_full (hlist : a.isDynamic = true) (hfull : maxItems ≤ a.size) (v : Value) :
    a.unshift v = .error Error.arrayTooLarge := by
  rw [unshift_def]
  unfold requireDynamic requireRoom
  rw [if_pos hlist, if_neg (Nat.not_lt.2 hfull)]
  rfl

theorem set_beyond {is : List Int64} {i : Nat} (ha : a.Within) (hlist : a.isDynamic = true)
    (hv : v.coerce a.element = .ok w) (hi : a.place is = .ok i) (hbeyond : maxItems ≤ i) :
    a.set is v = .error Error.arrayTooLarge := by
  have hnew : ¬ i < a.size := Nat.not_lt.2 (Nat.le_trans ha.size_le hbeyond)
  rw [set_def, hv, hi]
  change (if i < a.size then _ else if (!a.isDynamic) = true then _ else
    if maxItems ≤ i then _ else _) = _
  rw [if_neg hnew, hlist, if_neg (by simp), if_pos hbeyond]

/-- The number of tuples of indexes on axes of such lengths. -/
def itemCount : List (Int64 × Nat) → Nat
  | [] => 1
  | (_, length) :: rest => itemCount rest * length

/-- The axes have one item for each tuple of indexes, or there are too many of them. -/
theorem layOut_cases (bounds : List (Int64 × Nat)) :
    layOut bounds = .error Error.arrayTooLarge ∨
      ∃ axes, layOut bounds = .ok (axes, itemCount bounds) := by
  induction bounds with
  | nil => exact Or.inr ⟨[], rfl⟩
  | cons b rest ih =>
    obtain ⟨lower, length⟩ := b
    rw [layOut, itemCount]
    rcases ih with hrest | ⟨axes, hrest⟩
    · rw [hrest]
      exact Or.inl rfl
    · rw [hrest]
      by_cases hfits : itemCount rest * length < 0x10000000000000000
      · exact Or.inr ⟨_, if_pos hfits⟩
      · exact Or.inl (if_neg hfits)

theorem dimensioned_beyond (k : Kind) {bounds : List (Int64 × Nat)}
    (hbeyond : maxItems < itemCount bounds) :
    dimensioned k bounds = .error Error.arrayTooLarge := by
  unfold dimensioned
  rcases layOut_cases bounds with h | ⟨axes, h⟩
  · rw [h]
    rfl
  · rw [h]
    exact if_pos hbeyond

end Grid

theorem Variables.slot_value (vars : Variables) (name : Name) :
    (vars.slot name).2.1 = vars.peek name := by
  unfold slot peek lookup
  dsimp only
  split
  · rename_i v hv
    rw [hv]
    rfl
  · rename_i hv
    rw [hv]
    rfl

namespace Run

variable {α β : Type} {p : Program} {s : State}

/-- The statement comes to store `v` in `target`, from the last state on. SWAP does so twice. -/
inductive Assigns (p : Program) (s : State) :
    Statement → (target : Location) → (v : Value) → State → Prop where
  | assign {target : Location} {e : Expression} {v : Value} {t : State}
      (hvalue : value e p s = .ok v t) : Assigns p s (.assign target e) target v t
  | swapFirst {a b : Location} {v w : Value} {t u : State} (hfirst : observe a.read p s = .ok v t)
      (hsecond : observe b.read p t = .ok w u) (hkind : v.kind = w.kind) :
      Assigns p s (.swap a b) a w u
  | swapSecond {a b : Location} {v w : Value} {t u x : State}
      (hfirst : observe a.read p s = .ok v t) (hsecond : observe b.read p t = .ok w u)
      (hkind : v.kind = w.kind) (hstored : LineBasic.Run.assign a w p u = .ok () x) :
      Assigns p s (.swap a b) b v x
  | pop {name : Name} {target : Location} {v : Value} {t : State}
      (htaken : updateArray name Grid.pop p s = .ok v t) : Assigns p s (.pop name target) target v t
  | shift {name : Name} {target : Location} {v : Value} {t : State}
      (htaken : updateArray name Grid.shift p s = .ok v t) :
      Assigns p s (.shift name target) target v t
  | openFile {path : Expression} {mode : FileMode} {target : Location} {file : String} {t : State}
      {h : Int64} {files : Files} (hpath : text path p s = .ok file t)
      (hopen : t.host.files.openAs file mode = .ok (h, files)) :
      Assigns p s (.openFile path mode target) target (.integer h)
        { t with host := { t.host with files } }
  | readBytes {handle amount : Expression} {target : Location} {h : Int64} {n : Nat}
      {t u : State} {bytes : ByteArray} {files : Files} (hhandle : integer handle p s = .ok h t)
      (hamount : count amount p t = .ok n u) (hread : u.host.files.read h n = .ok (bytes, files)) :
      Assigns p s (.readBytes handle amount target) target (valueOfBytes target.name bytes)
        { u with host := { u.host with files } }
  | loadFile {path : Expression} {target : Location} {file : String} {t : State}
      {bytes : ByteArray} (hpath : text path p s = .ok file t)
      (hread : t.host.files.readAll file = .ok bytes) :
      Assigns p s (.loadFile path target) target (valueOfBytes target.name bytes) t

/-- The statement asks for an array with more items than there may be: by DIM, by a
write to an element, or by one more item at either end. -/
inductive Outgrows (p : Program) (s : State) : Statement → Prop where
  | dim {name : Name} {axes : List AxisRange} {bounds : List (Int64 × Nat)} {t : State}
      (hbounds : axes.mapM axisBounds p s = .ok bounds t)
      (hbeyond : maxItems < Grid.itemCount bounds) : Outgrows p s (.dim name axes)
  | write {st : Statement} {name : Name} {indexes : List Expression} {v w : Value} {t u : State}
      {is : List Int64} {a : Grid Value} {i : Nat}
      (hassigns : Assigns p s st (.element name indexes) v t)
      (hindexes : observe (evaluateIndexes indexes) p t = .ok is u)
      (harray : u.memory.variables.peek ((name.ofArray is.length).ofArray 1) = .array a)
      (hlist : a.isDynamic = true) (hv : v.coerce a.element = .ok w) (hi : a.place is = .ok i)
      (hbeyond : maxItems ≤ i) : Outgrows p s st
  | push {name : Name} {e : Expression} {v : Value} {t : State} {a : Grid Value}
      (hvalue : value e p s = .ok v t)
      (harray : t.memory.variables.peek (name.ofArray 1) = .array a) (hlist : a.isDynamic = true)
      (hfull : maxItems ≤ a.size) : Outgrows p s (.push name e)
  | unshift {name : Name} {e : Expression} {v : Value} {t : State} {a : Grid Value}
      (hvalue : value e p s = .ok v t)
      (harray : t.memory.variables.peek (name.ofArray 1) = .array a) (hlist : a.isDynamic = true)
      (hfull : maxItems ≤ a.size) : Outgrows p s (.unshift name e)

/-- The computation fails for want of room. -/
abbrev Refuses (x : Run α) (p : Program) (s : State) : Prop :=
  After x p s (fun _ _ => False) fun e _ => e = Error.arrayTooLarge

/-- What comes after a part that succeeds decides. -/
theorem refuses_of_ok {x : Run α} {f : α → Run β} {a : α} {t : State} (hx : x p s = .ok a t)
    (h : Refuses (f a) p t) : Refuses (x >>= f) p s := by
  unfold Refuses After at *
  rwa [bind_of_ok hx]

theorem refuses_bind {x : Run α} (h : Refuses x p s) (f : α → Run β) : Refuses (x >>= f) p s := by
  unfold Refuses
  rw [after_bind]
  exact h.mono (fun _ _ hf => hf.elim) fun _ _ he => he

theorem Yields.of_ok {R : α → Prop} {x : Run α} (hx : Yields R x) (hs : s.memory.variables.Within)
    {a : α} {t : State} (h : x p s = .ok a t) : R a ∧ t.memory.variables.Within := by
  have hafter := hx p s hs
  unfold After at hafter
  rwa [h] at hafter

theorem refuses_update {name : Name} {change : Value → Except Error (α × Value)} {v : Value}
    (hv : s.memory.variables.peek name = v) (hc : change v = .error Error.arrayTooLarge) :
    Refuses (update name change) p s := by
  have hslot : (s.memory.slot name).2.1 = v := (Variables.slot_value _ _).trans hv
  unfold Refuses
  rw [update_eq]
  simp only [after_bind, after_memory, after_setMemory, after_ofExcept]
  rw [hslot, hc]
  refine ⟨fun a ha => ?_, fun e he => ?_⟩
  · cases ha
  · cases he
    rfl

theorem refuses_updateArray {name : Name} {change : Grid Value → Except Error (α × Grid Value)}
    {a : Grid Value} (ha : s.memory.variables.peek (name.ofArray 1) = .array a)
    (hc : change a = .error Error.arrayTooLarge) : Refuses (updateArray name change) p s := by
  apply refuses_update ha
  dsimp only
  rw [hc]
  rfl

/-- A statement fails for want of room if what it stores does. -/
theorem Assigns.refuses {st : Statement} {target : Location} {v : Value} {u : State}
    (h : Assigns p s st target v u) (hr : Refuses (LineBasic.Run.assign target v) p u) :
    Refuses (execute st) p s := by
  cases h with
  | assign hvalue => exact refuses_of_ok hvalue (refuses_bind hr _)
  | swapFirst hfirst hsecond hkind =>
    refine refuses_of_ok hfirst (refuses_of_ok hsecond ?_)
    rw [if_neg (not_not_intro hkind)]
    exact refuses_bind hr _
  | swapSecond hfirst hsecond hkind hstored =>
    refine refuses_of_ok hfirst (refuses_of_ok hsecond ?_)
    rw [if_neg (not_not_intro hkind)]
    exact refuses_of_ok hstored (refuses_bind hr _)
  | pop htaken | shift htaken => exact refuses_of_ok htaken (refuses_bind hr _)
  | openFile hpath hopen =>
    exact refuses_of_ok hpath (refuses_of_ok (onFiles_of_granted hopen) (refuses_bind hr _))
  | readBytes hhandle hamount hread =>
    exact refuses_of_ok hhandle (refuses_of_ok hamount
      (refuses_of_ok (onFiles_of_granted hread) (refuses_bind hr _)))
  | loadFile hpath hread =>
    refine refuses_of_ok hpath (refuses_of_ok (x := host) rfl ?_)
    rw [hread]
    exact refuses_bind hr _

/-- What a statement does before it stores anything keeps to the limit. -/
theorem Assigns.within {st : Statement} {target : Location} {v : Value} {u : State}
    (h : Assigns p s st target v u) (hs : s.memory.variables.Within) :
    u.memory.variables.Within := by
  have hread : ∀ l : Location, Yields Value.Within (observe l.read) := fun l =>
    yields_observe fun _ hview => Eval.yields_read hview l
  cases h with
  | assign hvalue => exact ((keeps_observe _).of_ok hs hvalue).2
  | swapFirst hfirst hsecond _ =>
    exact ((hread _).of_ok ((hread _).of_ok hs hfirst).2 hsecond).2
  | swapSecond hfirst hsecond _ hstored =>
    obtain ⟨hw, hu⟩ := (hread _).of_ok ((hread _).of_ok hs hfirst).2 hsecond
    exact ((keeps_assign _ hw).of_ok hu hstored).2
  | pop htaken => exact ((yields_updateArray _ fun _ => Grid.gives_pop).of_ok hs htaken).2
  | shift htaken => exact ((yields_updateArray _ fun _ => Grid.gives_shift).of_ok hs htaken).2
  | openFile hpath _ =>
    have ht := ((keeps_text _).of_ok hs hpath).2
    exact ht
  | readBytes hhandle hamount _ =>
    have hu := ((keeps_count _).of_ok ((keeps_integer _).of_ok hs hhandle).2 hamount).2
    exact hu
  | loadFile hpath _ => exact ((keeps_text _).of_ok hs hpath).2

theorem Outgrows.refuses {st : Statement} (h : Outgrows p s st)
    (hs : s.memory.variables.Within) : Refuses (execute st) p s := by
  cases h with
  | dim hbounds hbeyond =>
    refine refuses_of_ok hbounds (refuses_bind ?_ _)
    rw [Grid.dimensioned_beyond _ hbeyond]
    rfl
  | write hassigns hindexes harray hlist hv hi hbeyond =>
    refine hassigns.refuses (refuses_of_ok hindexes (refuses_updateArray harray ?_))
    have hu := ((keeps_observe _).of_ok (hassigns.within hs) hindexes).2
    have ha : Grid.Within _ := harray ▸ hu.peek _
    rw [Grid.set_beyond ha hlist hv hi hbeyond]
    rfl
  | push hvalue harray hlist hfull =>
    refine refuses_of_ok hvalue (refuses_bind (refuses_updateArray harray ?_) _)
    rw [Grid.push_full hlist hfull]
    rfl
  | unshift hvalue harray hlist hfull =>
    refine refuses_of_ok hvalue (refuses_bind (refuses_updateArray harray ?_) _)
    rw [Grid.unshift_full hlist hfull]
    rfl

end Run

/-! ## One step -/

/-- No array literal of the program is longer than an array may be. -/
def Program.listsFit (p : Program) : Bool :=
  p.lines.all fun l => l.statement.expressions.all Expression.listsFit

theorem Program.listsFit_of_statement? {p : Program} (h : p.listsFit = true) {line : Nat}
    {st : Statement} (hst : p.statement? line = some st) :
    ∀ e ∈ st.expressions, e.listsFit = true := by
  obtain ⟨l, hl, rfl⟩ := Option.map_eq_some_iff.1 hst
  unfold listsFit at h
  rw [List.all_eq_true] at h
  exact List.all_eq_true.1 (h l (List.mem_of_getElem? hl))

namespace Session

variable {s : Session}

theorem within_follow (h : s.memory.variables.Within) (flow : Flow) :
    (s.follow flow).2.memory.variables.Within := by
  cases flow with
  | «return» =>
    rw [follow, returnFromCall]
    split
    · exact h
    · have hcut := s.memory.variables.leaveCall_eq_cutTo
      generalize s.memory.variables.leaveCall = r at hcut
      obtain ⟨target, vars⟩ := r
      dsimp only at hcut ⊢
      subst hcut
      cases target <;> exact h.cutTo _
  | next | jump _ | stop | rest _ => exact h

/-- The variable of a CATCH line holds a text. -/
theorem within_bindError {t : Session} {line : Nat} {e : Error} (h : s.memory.variables.Within)
    (ht : s.bindError line e = .ok t) : t.memory.variables.Within := by
  unfold bindError at ht
  split at ht
  · obtain ⟨mem, hmem, ht⟩ := exists_of_bind_eq_ok ht
    cases ht
    exact Run.within_set h (.scalar rfl) hmem
  · cases ht
    exact h

theorem within_resume (h : s.memory.variables.Within) (place : Nat) (f : Frame) (line : Nat)
    (t : TryBlock) (e : Error) : (s.resume place f line t e).2.memory.variables.Within := by
  have hcut : (s.memory.variables.cutTo f.depth).Within := h.cutTo _
  unfold resume
  dsimp only
  split
  · rename_i u hu
    by_cases hphase : t.phase = .catch
    · rw [if_pos hphase] at hu
      apply within_bindError _ hu
      exact hcut
    · rw [if_neg hphase] at hu
      cases hu
      exact hcut
  · exact hcut

theorem within_recoverFrom (h : s.memory.variables.Within) (e : Error) (n : Nat) :
    (s.recoverFrom e n).2.memory.variables.Within := by
  induction n generalizing s with
  | zero => exact h
  | succ place ih =>
    have hskip := ih h
    rw [recoverFrom]
    split
    · split
      · split
        · exact hskip
        · split
          · split
            · exact within_resume h _ _ _ _ _
            · exact hskip
          · apply ih
            exact h
      · exact hskip
    · exact hskip

theorem within_recover (h : s.memory.variables.Within) (e : Error) :
    (s.recover e).2.memory.variables.Within := by
  unfold recover
  split
  · exact h
  · exact within_recoverFrom h e _

/-- What the next statement takes from a file, if it takes anything, keeps to the limit. -/
def Modest (s : Session) : Prop :=
  ∀ st, s.program.statement? s.line = some st → Run.Spares st s.program s.toState

theorem within_step (hp : s.program.listsFit = true) (hm : s.Modest)
    (h : s.memory.variables.Within) : s.step.2.memory.variables.Within := by
  unfold step
  split
  · exact h
  · split
    · exact h
    · rename_i st hst
      have hexecute := Run.within_execute hst (Program.listsFit_of_statement? hp hst) (hm st hst) h
      unfold Run.AfterWithin Run.After at hexecute
      split
      · rename_i flow t ht
        have hafter : (s.withState t).memory.variables.Within := by rwa [ht] at hexecute
        exact within_follow hafter flow
      · rename_i e t ht
        have hafter : (s.withState t).memory.variables.Within := by rwa [ht] at hexecute
        exact within_recover hafter _

/-! ## Runs -/

theorem Through.last {P : Session → Prop} {t : Session} (h : Through P s t) : P t := by
  cases h with
  | start hp => exact hp
  | next _ _ hp => exact hp

theorem within_of_through {p : Program} {seed : UInt64} {host : Host} (hp : p.listsFit = true)
    (h : Through Modest (start p seed host) s) :
    s.program = p ∧ s.memory.variables.Within := by
  induction h with
  | start _ => exact ⟨rfl, Variables.within_empty⟩
  | next hrun hn _ ih =>
    obtain ⟨rfl, hwithin⟩ := ih
    cases hn with
    | step => exact ⟨program_step _, within_step hp hrun.last hwithin⟩
    | reset => exact ⟨rfl, Variables.within_empty⟩
    | halt | outside _ _ _ => exact ⟨rfl, hwithin⟩

/-- Arrays keep to their limit. Let a program have no array literal that is too long,
and let it run through states where no statement takes too many bytes from a file at
once. Then every array in its variables has at most `maxItems` items, and a statement
that asks for a longer one fails for want of room instead. -/
theorem arrays_keep_to_their_limit {p : Program} {seed : UInt64} {host : Host}
    (hp : p.listsFit = true) (h : Through Modest (start p seed host) s) :
    s.memory.variables.Within ∧
      ∀ st, s.stopped = false → p.statement? s.line = some st → Run.Outgrows p s.toState st →
        ∃ u, s.FailsWith st (Error.arrayTooLarge.inLine s.line) u ∧ u.memory.variables.Within := by
  obtain ⟨rfl, hwithin⟩ := within_of_through hp h
  refine ⟨hwithin, fun st hrun hst hout => ?_⟩
  have hrefuses := hout.refuses hwithin
  have hfit := Program.listsFit_of_statement? hp hst
  have hafter := Run.within_execute hst hfit (h.last st hst) hwithin
  unfold Run.Refuses Run.After at hrefuses
  unfold Run.AfterWithin Run.After at hafter
  cases hx : Run.execute st s.program s.toState with
  | ok flow t =>
    rw [hx] at hrefuses
    exact hrefuses.elim
  | error e t =>
    rw [hx] at hrefuses hafter
    have he : e = Error.arrayTooLarge := hrefuses
    exact ⟨s.withState t, ⟨hrun, hst, e, t, hx, by rw [he], rfl⟩, hafter⟩

/-- A list of one item is not written past the limit. -/
theorem arrays_keep_to_their_limit_on_a_write :
    let a : Name := ⟨['a', '%']⟩
    let p := Program.ofStatements [.assign (.element a [.integer 0]) (.integer 1),
      .assign (.element a [.integer 1048576]) (.integer 2)]
    let s := (start p 7 {}).step.2
    p.listsFit = true ∧ Through Modest (start p 7 {}) s ∧ s.memory.variables.Within ∧
      ∃ st u, s.FailsWith st (Error.arrayTooLarge.inLine 1) u ∧ u.memory.variables.Within := by
  intro a p s
  have hp : p.listsFit = true := by decide +kernel
  have hmodest : ∀ line target e, p.statement? line = some (.assign target e) → ∀ st,
      p.statement? line = some st → ∀ state, Run.Spares st p state := by
    intro line target e h st hst state
    rw [h] at hst
    cases hst
    exact .scalar rfl
  have hrun : Through Modest (start p 7 {}) s :=
    .next (.start fun st hst => hmodest 0 _ _ rfl st hst _) .step
      fun st hst => hmodest 1 _ _ rfl st hst _
  obtain ⟨hwithin, hfails⟩ := arrays_keep_to_their_limit hp hrun
  obtain ⟨u, hu⟩ := hfails _ rfl rfl (.write (.assign rfl) rfl rfl rfl rfl rfl (by decide))
  exact ⟨hp, hrun, hwithin, _, u, hu⟩

/-- A file that is read into an array becomes an array of its length. -/
theorem step_loadFile (bytes : ByteArray) :
    let b : Name := ⟨['b', '%', '[', ']']⟩
    let s := start (.ofStatements [.loadFile (.string "f") (.variable b)]) 7
      { files := Files.withFile {} "f" bytes }
    s.step.1 = .onward ∧
      s.step.2.memory.variables.globals.entries = [(b.key, .array (Grid.ofBytes bytes))] :=
  ⟨rfl, rfl⟩

/-- A file of one byte too many fills an array past the limit, and no error arises. -/
theorem a_file_fills_an_array_past_its_limit :
    let b : Name := ⟨['b', '%', '[', ']']⟩
    let p := Program.ofStatements [.loadFile (.string "f") (.variable b)]
    let s := start p 7 { files := Files.withFile {} "f" ⟨Array.replicate (maxItems + 1) 0⟩ }
    Reachable p s.step.2 ∧ s.step.1 = .onward ∧
      ∃ a, (b.key, .array a) ∈ s.step.2.memory.variables.globals.entries ∧ maxItems < a.size := by
  intro b p s
  obtain ⟨honward, hentries⟩ := step_loadFile ⟨Array.replicate (maxItems + 1) 0⟩
  refine ⟨.step (.start 7 _), honward, Grid.ofBytes ⟨Array.replicate (maxItems + 1) 0⟩, ?_, ?_⟩
  · exact hentries ▸ List.mem_singleton_self _
  · simp [Grid.ofBytes, Grid.size]

end Session

end LineBasic
