-- Every statement is carried along when the lines of a program are moved: at the
-- new place of its line it does what it did, yields what it yielded, and goes on
-- at the new place of the line it went on at.
import LineBasic.Proofs.Relocation
import LineBasic.Proofs.StepLaws

namespace LineBasic

/-- The statement may change the variables: it stores a value or makes a call. -/
def Statement.stores : Statement → Bool
  | .assign .. | .localVariable .. | .dim .. | .swap .. | .push .. | .pop .. | .shift ..
  | .unshift .. | .for .. | .next _ | .gosub _ | .call .. | .openFile .. | .readBytes ..
  | .loadFile .. => true
  | _ => false

/-- What holds of the variables whatever is stored and whichever call is made. -/
structure Variables.Stable (I : Variables → Prop) : Prop where
  store : ∀ {vars : Variables} (v : Value) (c : Cell), I vars → I (vars.store v c)
  enterCall : ∀ {vars vars' : Variables} {line : Nat} {aliases : List (Name × Name)}, I vars →
    vars.enterCall (some (line + 1)) aliases = .ok vars' → I vars'

theorem Variables.Stable.slot {I : Variables → Prop} (hI : Stable I) {vars : Variables}
    (h : I vars) (name : Name) : I (vars.slot name).2.2 := by
  rcases (slot_cell vars name).2 with hs | ⟨v, hs⟩
  · rw [hs]; exact h
  · rw [hs]; exact hI.store v _ h

namespace Relocation

variable (m : Relocation) (mem : Memory)

theorem set_memory (name : Name) (v : Value) (here : Bool) :
    (m.memory mem).set name v here = (mem.set name v here).map m.memory := by
  unfold Memory.set
  cases fitTo name v with
  | error e => rfl
  | ok w =>
    have hput : (m.memory mem).variables.put name w here =
        (mem.variables.put name w here).moved m.place := (Variables.put_moved _ _ _ _ _).symm
    exact congrArg (fun vars => Except.ok { (m.memory mem).remember name with «variables» := vars })
      hput

theorem slot_memory (name : Name) : (m.memory mem).slot name =
    ((mem.slot name).1, (mem.slot name).2.1, m.memory (mem.slot name).2.2) := by
  unfold Memory.slot memory
  dsimp only
  rw [Variables.slot_moved]
  rfl

theorem store_memory (c : Cell) (v : Value) :
    (m.memory mem).store c v = m.memory (mem.store c v) := by
  unfold Memory.store memory
  dsimp only
  rw [Variables.store_moved]

end Relocation

theorem Memory.line_of_set {mem : Memory} {name : Name} {v : Value} {here : Bool} {e : Error}
    (h : mem.set name v here = .error e) : e.line = none := by
  have hmild : MildExcept (mem.set name v here) :=
    mildExcept_bind (Run.mild_fitTo name v) fun _ => mildExcept_pure _
  exact (hmild e h).line

/-- What is set was made to fit and put where the name leads to. -/
theorem Memory.set_eq_ok {mem mem' : Memory} {name : Name} {v : Value} {here : Bool}
    (h : mem.set name v here = .ok mem') : ∃ w, fitTo name v = .ok w ∧
      mem' = { mem.remember name with «variables» := mem.variables.put name w here } := by
  unfold Memory.set at h
  cases hf : fitTo name v with
  | error e => rw [hf] at h; cases h
  | ok w =>
    rw [hf] at h
    cases h
    exact ⟨w, rfl, rfl⟩

namespace Run

variable {α β : Type} {m : Relocation} {I : Variables → Prop} {here : Nat}

/-! ## Parts that store -/

section Storing

variable (hI : Variables.Stable I)

include hI

/-- Storing under a name, in the innermost scope or where the name leads to. -/
theorem carried_set {mem : Memory} (hline : mem.line = here) (hkept : I mem.variables)
    (name : Name) (v : Value) (inner : Bool) :
    Carried m I here Eq (do setMemory (← ofExcept (mem.set name v inner)))
      (do setMemory (← ofExcept ((m.memory mem).set name v inner))) := by
  rw [m.set_memory]
  refine carried_bind (carried_ofExcept m.memory fun _ => Memory.line_of_set) ?_
  rintro mem' _ ⟨rfl, hset⟩
  obtain ⟨w, _, rfl⟩ := Memory.set_eq_ok hset
  exact carried_setMemory hline (hI.store w _ hkept)

theorem same_store (name : Name) (v : Value) : Same m I here (store name v) := by
  refine carried_bind carried_memory ?_
  rintro mem _ ⟨rfl, hline, hkept⟩
  have hlocal : (m.memory mem).variables.hasLocal name = mem.variables.hasLocal name :=
    Variables.hasLocal_moved _ _ _
  rw [hlocal]
  exact carried_set hI hline hkept name v _

theorem same_storeLocal (name : Name) (v : Value) : Same m I here (storeLocal name v) := by
  refine carried_bind carried_memory ?_
  rintro mem _ ⟨rfl, hline, hkept⟩
  exact carried_set hI hline hkept name v true

theorem same_update (name : Name) {change : Value → Except Error (α × Value)}
    (hc : ∀ v e, change v = .error e → e.line = none) : Same m I here (update name change) := by
  rw [update_eq]
  refine carried_bind carried_memory ?_
  rintro mem _ ⟨rfl, hline, hkept⟩
  rw [m.slot_memory]
  have hslot : I (mem.slot name).2.2.variables := hI.slot hkept name
  refine carried_seq (carried_setMemory hline hslot) fun _ => ?_
  refine carried_seq (same_ofExcept (hc _)) fun r => ?_
  have hlast : Carried m I here Eq (setMemory ((mem.slot name).2.2.store (mem.slot name).1 r.2))
      (setMemory (m.memory ((mem.slot name).2.2.store (mem.slot name).1 r.2))) :=
    carried_setMemory hline (hI.store r.2 _ hslot)
  rw [← m.store_memory] at hlast
  exact carried_seq hlast fun _ => carried_pure rfl

theorem same_updateArray (name : Name) {change : Grid Value → Except Error (α × Grid Value)}
    (hc : ∀ a, MildExcept (change a)) : Same m I here (updateArray name change) := by
  refine same_update hI _ fun v e he => ?_
  cases v with
  | array a => exact (mildExcept_bind (hc a) (fun _ => mildExcept_pure _) e he).line
  | integer | real | string | complex | record => cases he; rfl

theorem same_assign (target : Location) (v : Value) (h : ∀ e ∈ target.indexes, Timely m.timed e) :
    Same m I here (assign target v) := by
  cases target with
  | «variable» name => exact same_store hI name v
  | element name indexes =>
    refine carried_seq (same_indexes h) fun is => ?_
    exact same_updateArray hI _ fun a =>
      mildExcept_bind (Grid.mild_set a is v) fun _ => mildExcept_pure _
  | member name path =>
    have hmild : ∀ r e, (do return ((), ← Value.withMember v path r) :
        Except Error (Unit × Value)) = .error e → e.line = none := by
      intro r e he
      cases path with
      | nil => cases he; rfl
      | cons field rest =>
        exact (mildExcept_bind (mild_withMember (by simp)) (fun _ => mildExcept_pure _) e he).line
    exact same_update hI name hmild

/-! ## Statements that store -/

/-- A value is stored, and the program goes on. -/
theorem directs_assign (target : Location) {x : Run Value} (hx : Same m I here x)
    (h : ∀ e ∈ target.indexes, Timely m.timed e) :
    Directs m I here (do assign target (← x); return .next) :=
  carried_seq hx fun v => carried_seq (same_assign hI target v h) fun _ => carried_pure .next

theorem directs_local (name : Name) (initial : Option Expression)
    (h : ∀ e ∈ initial.toList, Timely m.timed e) :
    Directs m I here (localStatement name initial) := by
  have hlast : ∀ v, Directs m I here (do storeLocal name v; return Flow.next) :=
    fun v => carried_seq (same_storeLocal hI name v) fun _ => carried_pure .next
  cases initial with
  | some e => exact carried_seq (same_value (h e (by simp))) hlast
  | none => exact carried_seq (carried_pure rfl) hlast

omit hI in
theorem same_axisBounds (a : AxisRange) (h : ∀ e ∈ a.expressions, Timely m.timed e) :
    Same m I here (axisBounds a) := by
  have hlast : ∀ r : Int64 × Int, Same m I here (do
      if r.2 < 0 then throw Error.negativeArraySize else return (r.1, r.2.toNat) : Run _) :=
    fun r => carried_ite (carried_raise rfl) (carried_pure rfl)
  obtain ⟨lower, upper⟩ := a
  refine carried_seq (same_integer (h upper List.mem_cons_self)) fun n => ?_
  cases lower with
  | some e =>
    refine carried_seq (same_integer (h e (by simp [AxisRange.expressions]))) fun k => ?_
    exact carried_ite (carried_seq (carried_pure rfl) hlast) (carried_seq (carried_raise rfl) hlast)
  | none => exact carried_seq (carried_pure rfl) hlast

theorem directs_dim (name : Name) (axes : List AxisRange)
    (h : ∀ e ∈ axes.flatMap AxisRange.expressions, Timely m.timed e) :
    Directs m I here (dimStatement name axes) := by
  have haxes : ∀ a ∈ axes, Same m I here (axisBounds a) := fun a ha =>
    same_axisBounds a fun e he => h e (List.mem_flatMap.2 ⟨a, ha, he⟩)
  refine carried_seq (same_mapM haxes) fun bounds => ?_
  refine carried_seq (same_mild (Grid.mild_dimensioned _ bounds)) fun a => ?_
  exact carried_seq (same_store hI _ _) fun _ => carried_pure .next

omit hI in
theorem same_read (l : Location) (h : ∀ e ∈ l.indexes, Timely m.timed e) :
    Same m I here (observe l.read) := by
  refine same_observe ?_ (isMild_readLocation l)
  cases l with
  | «variable» name => exact Eval.agrees_get Trail.abreast_eq name
  | element name indexes =>
    exact Eval.agrees_bind (agrees_indexes h) fun is => Eval.agrees_element Trail.abreast_eq _ is
  | member name path =>
    exact Eval.agrees_bind (Eval.agrees_get Trail.abreast_eq name) fun _ => Eval.agrees_ofExcept _

theorem directs_swap (a b : Location) (h : ∀ e ∈ a.indexes ++ b.indexes, Timely m.timed e) :
    Directs m I here (swapStatement a b) := by
  obtain ⟨ha, hb⟩ := List.forall_mem_append.1 h
  refine carried_seq (same_read a ha) fun v => ?_
  refine carried_seq (same_read b hb) fun w => carried_ite (carried_raise rfl) ?_
  exact carried_seq (same_assign hI a w ha) fun _ =>
    carried_seq (same_assign hI b v hb) fun _ => carried_pure .next

/-- PUSH and UNSHIFT. -/
theorem directs_add (name : Name) {e : Expression} (h : Timely m.timed e)
    {change : Value → Grid Value → Except Error (Unit × Grid Value)}
    (hc : ∀ v a, MildExcept (change v a)) :
    Directs m I here (do updateArray name (change (← value e)); return Flow.next) :=
  carried_seq (same_value h) fun v =>
    carried_seq (same_updateArray hI name (hc v)) fun _ => carried_pure .next

end Storing

/-! ## Branches -/

variable {st : Statement} {e : Expression}

theorem directs_if (hst : m.old.statement? here = some st) (hrole : st.role = .opener)
    (h : Timely m.timed e) (negated : Bool) : Directs m I here (ifStatement e negated) := by
  have hheads : m.Heads here := m.closer hst hrole
  refine carried_bind carried_line ?_
  rintro _ _ ⟨rfl, rfl⟩
  refine carried_bind (carried_endOf hheads _ rfl) ?_
  rintro stop _ rfl
  refine carried_seq (same_condition h) fun taken => ?_
  refine carried_seq (carried_enter _ stop (.if _)) fun _ => ?_
  exact carried_ite (carried_pure .next) (carried_clauseOr hheads stop _)

def IfBlock.moved (place : Nat → Nat) : IfBlock → IfBlock
  | .active i f => .active i (f.moved place)
  | .skipped last => .skipped (place last)

theorem carried_ifBlock {first : Nat} (h : m.Heads first) :
    Carried m I here (fun a b => b = a.moved m.place) (ifBlock first)
      (ifBlock (m.place first)) := by
  refine carried_seq (carried_framePlace first) fun place => ?_
  cases place with
  | some i =>
    refine carried_bind carried_frames ?_
    rintro fs _ rfl
    refine carried_bind (carried_frame fs i rfl) ?_
    rintro f _ rfl
    exact carried_pure rfl
  | none =>
    refine carried_bind (carried_endOf h _ rfl) ?_
    rintro last _ rfl
    exact carried_pure rfl

theorem branchTaken_moved (place : Nat → Nat) (f : Frame) :
    branchTaken (f.moved place).state = branchTaken f.state := by
  obtain ⟨first, last, depth, state⟩ := f
  cases state <;> rfl

theorem directs_elseIf (hst : m.old.statement? here = some st) (hrole : st.role = .clause)
    (h : Timely m.timed e) : Directs m I here (elseIfStatement e) := by
  refine carried_atOpener hst (Or.inl hrole) picks_opensIf rfl fun first hfirst => ?_
  refine carried_bind (carried_ifBlock (heads_of_opener picks_opensIf hfirst)) ?_
  rintro block _ rfl
  cases block with
  | skipped last => exact carried_pure (.jump (lands_place _ _))
  | active i f =>
    have hheads : m.Heads _ := m.clause hst hrole picks_opensIf hfirst
    dsimp only [IfBlock.moved]
    rw [branchTaken_moved]
    refine carried_ite (carried_pure (.jump (lands_place _ _))) ?_
    refine carried_seq (same_condition h) fun holds => carried_ite ?_ ?_
    · exact carried_seq (carried_setFrameState i (.if true)) fun _ => carried_pure .next
    · exact carried_clauseOr hheads _ _

theorem directs_else (hst : m.old.statement? here = some st) (hrole : st.role = .clause) :
    Directs m I here elseStatement := by
  refine carried_atOpener hst (Or.inl hrole) picks_opensIfOrUnless rfl fun first hfirst => ?_
  refine carried_bind (carried_ifBlock (heads_of_opener picks_opensIfOrUnless hfirst)) ?_
  rintro block _ rfl
  cases block with
  | skipped last => exact carried_pure (.jump (lands_place _ _))
  | active i f =>
    dsimp only [IfBlock.moved]
    rw [branchTaken_moved]
    refine carried_ite (carried_pure (.jump (lands_place _ _))) ?_
    exact carried_seq (carried_setFrameState i (.if true)) fun _ => carried_pure .next

/-- END IF and END SELECT. -/
theorem directs_leaveBlock (hst : m.old.statement? here = some st) (hrole : st.role = .closer)
    {wanted : Statement → Bool} (hw : Statement.PicksOpeners wanted) :
    Directs m I here (do
      match ← opener (← line) wanted with
      | some first => leave first
      | none => pure ()
      return Flow.next) := by
  refine carried_bind carried_line ?_
  rintro _ _ ⟨rfl, rfl⟩
  refine carried_bind (carried_opener hst (Or.inr hrole) hw) ?_
  rintro found _ ⟨rfl, _⟩
  cases found with
  | some first => exact carried_seq (carried_leave first) fun _ => carried_pure .next
  | none => exact carried_pure .next

theorem directs_select (hst : m.old.statement? here = some st) (hrole : st.role = .opener)
    (h : Timely m.timed e) : Directs m I here (selectStatement e) := by
  have hheads : m.Heads here := m.closer hst hrole
  refine carried_bind carried_line ?_
  rintro _ _ ⟨rfl, rfl⟩
  refine carried_bind (carried_endOf hheads _ rfl) ?_
  rintro stop _ rfl
  refine carried_seq (same_value h) fun v => ?_
  refine carried_seq (carried_enter _ stop (.select v false)) fun _ => ?_
  exact carried_clauseOr hheads stop _

theorem same_matchesOne (selector : Value) {es : List Expression}
    (h : ∀ e ∈ es, Timely m.timed e) : Same m I here (matchesOne selector es) := by
  induction es with
  | nil => exact carried_pure rfl
  | cons e rest ih =>
    obtain ⟨he, hrest⟩ := List.forall_mem_cons.1 h
    refine carried_seq (same_value he) fun v => ?_
    refine carried_seq (same_mild (selector.mild_compare v)) fun order => ?_
    exact carried_ite (carried_pure rfl) (ih hrest)

theorem same_caseMatches (selector : Value) (t : CaseTest)
    (h : ∀ e ∈ t.expressions, Timely m.timed e) : Same m I here (caseMatches selector t) := by
  cases t with
  | otherwise => exact carried_pure rfl
  | values es => exact same_matchesOne selector h
  | range low high =>
    refine carried_seq (same_value (h low (by simp [CaseTest.expressions]))) fun v => ?_
    refine carried_seq (same_value (h high (by simp [CaseTest.expressions]))) fun w => ?_
    exact carried_seq (same_mild (selector.mild_compare v)) fun _ =>
      carried_seq (same_mild (selector.mild_compare w)) fun _ => carried_pure rfl
  | relation operator e =>
    refine carried_seq (same_value (h e List.mem_cons_self)) fun v => ?_
    exact carried_seq (same_mild (selector.mild_compare v)) fun order =>
      same_mild (mild_relationHolds order operator)

theorem same_anyMatches (selector : Value) {tests : List CaseTest}
    (h : ∀ e ∈ tests.flatMap CaseTest.expressions, Timely m.timed e) :
    Same m I here (anyMatches selector tests) := by
  induction tests with
  | nil => exact carried_pure rfl
  | cons t rest ih =>
    rw [List.flatMap_cons] at h
    obtain ⟨ht, hrest⟩ := List.forall_mem_append.1 h
    exact carried_seq (same_caseMatches selector t ht) fun _ =>
      carried_ite (carried_pure rfl) (ih hrest)

theorem directs_case (hst : m.old.statement? here = some st) (hrole : st.role = .clause)
    (tests : List CaseTest) (h : ∀ e ∈ tests.flatMap CaseTest.expressions, Timely m.timed e) :
    Directs m I here (caseStatement tests) := by
  refine carried_atOpener hst (Or.inl hrole) picks_opensSelect rfl fun first hfirst => ?_
  refine carried_seq (carried_framePlace first) fun place => ?_
  cases place with
  | none =>
    refine carried_bind (carried_endOf (heads_of_opener picks_opensSelect hfirst) _ rfl) ?_
    rintro last _ rfl
    exact carried_pure (.jump (lands_place _ _))
  | some i =>
    refine carried_bind carried_frames ?_
    rintro fs _ rfl
    refine carried_bind (carried_frame fs i rfl) ?_
    rintro ⟨first, last, depth, state⟩ _ rfl
    have hheads : m.Heads _ := m.clause hst hrole picks_opensSelect hfirst
    cases state with
    | select selector matched =>
      refine carried_ite (carried_pure (.jump (lands_place _ _))) ?_
      refine carried_seq (same_anyMatches selector h) fun holds => carried_ite ?_ ?_
      · exact carried_seq (carried_setFrameState i (.select selector true)) fun _ =>
          carried_pure .next
      · exact carried_clauseOr hheads last _
    | «if» | «while» | «do» | «for» | sub | «try» => exact carried_raise rfl

/-! ## Loops -/

theorem carried_loopStart (hst : m.old.statement? here = some st) (hrole : st.role = .closer)
    {wanted : Statement → Bool} (hw : Statement.PicksOpeners wanted) (code : ErrorCode) :
    Carried m I here (fun a b => b = m.place a) (loopStart wanted code)
      (loopStart wanted code) := by
  refine carried_atOpener hst (Or.inr hrole) hw rfl fun first _ => ?_
  refine carried_seq (carried_framePlace first) fun place => ?_
  refine carried_seq (same_require place rfl) fun i => ?_
  exact carried_seq (same_truncate (i + 1)) fun _ => carried_pure rfl

theorem carried_repeatOrLeave (first : Nat) (again : Bool) :
    Carried m I here (Flow.Moved m.place) (repeatOrLeave first again)
      (repeatOrLeave (m.place first) again) :=
  carried_ite (carried_pure (.jump (lands_after _ _)))
    (carried_seq (carried_leave first) fun _ => carried_pure .next)

/-- The first line of a loop. What its frame notes is moved with it. -/
theorem directs_loopHead (hst : m.old.statement? here = some st) (hrole : st.role = .opener)
    (wanted : Statement → Bool) (code : ErrorCode) {x : Run α} {entry : α → Option FrameState}
    (hx : Same m I here x) (hentry : ∀ a, (entry a).map (FrameState.moved m.place) = entry a) :
    Directs m I here (loopHead wanted code x entry) := by
  refine carried_atCloser (m.closer hst hrole) wanted rfl fun stop => ?_
  refine carried_seq hx fun a => ?_
  have hstate := hentry a
  cases ha : entry a with
  | some state =>
    rw [ha] at hstate
    have henter : Carried m I here Eq _ _ := carried_enter here stop state
    rw [Option.some.inj hstate] at henter
    exact carried_seq henter fun _ => carried_pure .next
  | none => exact carried_seq (carried_leave here) fun _ => carried_pure (.jump (lands_after _ _))

theorem moved_onlyIf {state : FrameState} {place : Nat → Nat} (h : state.moved place = state)
    (more : Bool) : (state.onlyIf more).map (FrameState.moved place) = state.onlyIf more := by
  cases more with
  | true => exact congrArg some h
  | false => rfl

/-- The condition is the one of the opening line. -/
theorem directs_wend (hst : m.old.statement? here = some st) (hrole : st.role = .closer)
    (negated : Bool) : Directs m I here (wendStatement negated) := by
  refine carried_bind (carried_loopStart hst hrole picks_opensWhile _) ?_
  rintro first _ rfl
  refine carried_bind (carried_statement first) ?_
  rintro opening _ ⟨rfl, hopening⟩
  have htimely := timely_expressions (m.timely hopening)
  have hlast : ∀ again, Carried m I here (Flow.Moved m.place) _ _ := carried_repeatOrLeave first
  cases opening with
  | «while» e => exact carried_seq (same_condition (htimely e List.mem_cons_self)) hlast
  | «until» e =>
    exact carried_seq (same_condition (htimely e List.mem_cons_self)) fun _ =>
      carried_seq (carried_pure rfl) hlast
  | _ => exact carried_seq (carried_pure rfl) hlast

theorem directs_loop (hst : m.old.statement? here = some st) (hrole : st.role = .closer)
    (c : Condition) (h : ∀ e ∈ c.expressions, Timely m.timed e) :
    Directs m I here (loopStatement c) := by
  refine carried_bind (carried_loopStart hst hrole picks_opensDo _) ?_
  rintro first _ rfl
  refine carried_seq (same_test c h) fun again => carried_ite ?_ (carried_repeatOrLeave first _)
  refine carried_bind (carried_statement first) ?_
  rintro opening _ ⟨rfl, hopening⟩
  cases opening with
  | «do» head =>
    exact carried_seq (same_test head (timely_expressions (m.timely hopening))) fun _ =>
      carried_repeatOrLeave first _
  | _ => exact carried_repeatOrLeave first _

theorem same_number (v : Value) : Same m I here (number v) := same_require _ rfl

section Counting

variable (hI : Variables.Stable I)

include hI

/-- A store, and what the variable reads as right after it. -/
theorem same_storePeek (name : Name) (v : Value) {f : Value → α} :
    Same m I here (do store name v; return f ((← memory).variables.peek name)) := by
  refine carried_seq (same_store hI name v) fun _ => carried_bind carried_memory ?_
  rintro mem _ ⟨rfl, _, _⟩
  exact carried_pure (congrArg f (Variables.peek_moved _ _ _).symm)

theorem same_forEntry (name : Name) {start limit : Expression} {step : Option Expression}
    (h : ∀ e ∈ start :: limit :: step.toList, Timely m.timed e) :
    Same m I here (forEntry name start limit step) := by
  refine carried_seq (same_value (h start (by simp))) fun v => ?_
  refine carried_seq (same_number v) fun low => ?_
  refine carried_seq (same_value (h limit (by simp))) fun v => ?_
  refine carried_seq (same_number v) fun high => ?_
  have hentry : ∀ stride : Number, Same m I here (do
      if low.within high stride then
        store name (.ofNumber low)
        let assigned := (← memory).variables.peek name
        return some (ForLoop.mk name low high stride low assigned)
      else return none) := fun stride =>
    carried_ite (same_storePeek hI name _ (f := fun assigned => some _)) (carried_pure rfl)
  cases step with
  | some e =>
    exact carried_seq (same_value (h e (by simp))) fun v => carried_seq (same_number v) hentry
  | none => exact carried_seq (carried_pure rfl) hentry

theorem same_counting (loop : ForLoop) : Same m I here (counting loop) := by
  rw [counting_eq]
  refine carried_seq (same_observe (Eval.agrees_get Trail.abreast_eq loop.name)
    (Eval.isMild_get _)) fun current => ?_
  refine carried_seq ?_ fun counter => same_storePeek hI loop.name _ (f := fun assigned => (_, _))
  unfold counterAfter
  exact carried_ite (carried_pure rfl) (same_number current)

theorem directs_next (hst : m.old.statement? here = some st) (hrole : st.role = .closer)
    (name : Option Name) : Directs m I here (nextStatement name) := by
  refine carried_atOpener hst (Or.inr hrole) picks_opensFor rfl fun first _ => ?_
  refine carried_bind (carried_statement first) ?_
  rintro opening _ ⟨rfl, _⟩
  have hcheck : Same m I here (checkNext name opening) := by
    unfold checkNext
    split
    · exact carried_ite (carried_pure rfl) (carried_raise rfl)
    · exact carried_pure rfl
  refine carried_seq hcheck fun _ => ?_
  refine carried_seq (carried_framePlace first) fun place => ?_
  refine carried_seq (same_require place rfl) fun i => ?_
  refine carried_seq (same_truncate (i + 1)) fun _ => ?_
  refine carried_bind carried_frames ?_
  rintro fs _ rfl
  rw [Frames.get?_moved]
  cases fs.get? i with
  | none => exact carried_raise rfl
  | some f =>
    obtain ⟨start, last, depth, state⟩ := f
    cases state with
    | «for» loop =>
      have hturn : Carried m I here (Flow.Moved m.place) (do
          let r ← counting loop
          setFrameState i (.for r.2)
          repeatOrLeave first r.1)
          (do
          let r ← counting loop
          setFrameState i (.for r.2)
          repeatOrLeave (m.place first) r.1) :=
        carried_seq (same_counting hI loop) fun r =>
          carried_seq (carried_setFrameState i (.for r.2)) fun _ => carried_repeatOrLeave first r.1
      simpa only [counting_eq, bind_assoc, pure_bind, Option.map_some, Frame.moved,
        FrameState.moved] using hturn
    | «if» | «while» | «do» | select | sub | «try» => exact carried_raise rfl

end Counting

/-! ## EXIT and CONTINUE -/

theorem same_target (kind : BlockKind) (name : Option Name) :
    Same m I here (target? kind name) := by
  refine carried_bind carried_frames ?_
  rintro fs _ rfl
  refine carried_seq same_depth fun depth => carried_pure ?_
  refine (fs.lastPlace?_mapItems fun f => ?_).symm
  obtain ⟨first, last, depth', state⟩ := f
  cases name <;> cases state <;> rfl

theorem directs_exit (kind : BlockKind) (name : Option Name) :
    Directs m I here (exitStatement kind name) := by
  refine carried_seq (same_target kind name) fun place => ?_
  cases place with
  | none => exact carried_pure .next
  | some i =>
    refine carried_bind carried_frames ?_
    rintro fs _ rfl
    refine carried_bind (carried_frame fs i rfl) ?_
    rintro f _ rfl
    refine carried_ite ?_ ?_
    · exact carried_seq (same_truncate (i + 1)) fun _ => carried_pure (.jump (lands_place _ _))
    · exact carried_seq (same_truncate i) fun _ => carried_pure (.jump (lands_after _ _))

theorem directs_continue (kind : BlockKind) (name : Option Name) :
    Directs m I here (continueStatement kind name) := by
  refine carried_seq (same_target kind name) fun place => ?_
  cases place with
  | none => exact carried_pure .next
  | some i =>
    refine carried_seq (same_truncate (i + 1)) fun _ => carried_bind carried_frames ?_
    rintro fs _ rfl
    refine carried_bind (carried_frame fs i rfl) ?_
    rintro f _ rfl
    exact carried_pure (.jump (lands_place _ _))

/-! ## Jumps and calls -/

theorem carried_labelLine (label : Name) :
    Carried m I here (fun a b => b = m.place a) (labelLine label) (labelLine label) := by
  refine carried_bind carried_read ?_
  rintro _ _ ⟨rfl, rfl⟩
  rw [m.label]
  cases m.old.labelPlace? label with
  | some l => exact carried_pure rfl
  | none => exact carried_raise rfl

theorem directs_goto (label : Name) : Directs m I here (gotoStatement label) := by
  refine carried_bind (carried_labelLine label) ?_
  rintro l _ rfl
  exact carried_pure (.jump (lands_place _ _))

/-- A call notes the line after its own, wherever that is. -/
theorem same_enterCall (hI : Variables.Stable I) (aliases : List (Name × Name)) :
    Same m I here (enterCall aliases) := by
  refine carried_bind carried_memory ?_
  rintro mem _ ⟨rfl, hline, hkept⟩
  have hcall := mem.variables.enterCall_moved m.place mem.line aliases
  have hmild : MildExcept (mem.variables.enterCall (some (mem.line + 1)) aliases) :=
    mildExcept_bind (Stack.mild_push _ _) fun _ => mildExcept_pure _
  change Carried m I here Eq _ (ofExcept ((mem.variables.moved m.place).enterCall
    (some (m.place mem.line + 1)) aliases) >>= _)
  rw [hcall]
  refine carried_bind (carried_ofExcept _ fun e he => (hmild e he).line) ?_
  rintro vars _ ⟨rfl, hvars⟩
  exact carried_setMemory hline (hI.enterCall hkept hvars)

theorem directs_gosub (hI : Variables.Stable I) (label : Name) :
    Directs m I here (gosubStatement label) := by
  refine carried_bind (carried_labelLine label) ?_
  rintro l _ rfl
  exact carried_seq (same_enterCall hI []) fun _ => carried_pure (.jump (lands_place _ _))

theorem directs_sub (hst : m.old.statement? here = some st) (hrole : st.role = .opener) :
    Directs m I here subStatement := by
  refine carried_bind carried_line ?_
  rintro _ _ ⟨rfl, rfl⟩
  refine carried_bind (carried_endOf (m.closer hst hrole) _ rfl) ?_
  rintro last _ rfl
  exact carried_pure (.jump (lands_after _ _))

theorem same_passArgument (param : Parameter) (h : Timely m.timed e) :
    Same m I here (passArgument param e) := by
  have hvalue : Same m I here (do return Passed.value param.name (← value e)) :=
    carried_seq (same_value h) fun _ => carried_pure rfl
  cases e with
  | «variable» target => exact carried_ite (carried_pure rfl) hvalue
  | _ => exact hvalue

theorem same_passArguments (params : List Parameter) {args : List Expression}
    (h : ∀ e ∈ args, Timely m.timed e) : Same m I here (passArguments params args) := by
  induction params generalizing args with
  | nil => exact carried_pure rfl
  | cons param params ih =>
    cases args with
    | nil => exact carried_pure rfl
    | cons e es =>
      obtain ⟨he, hes⟩ := List.forall_mem_cons.1 h
      exact carried_seq (same_passArgument param he) fun _ =>
        carried_seq (ih hes) fun _ => carried_pure rfl

theorem same_bindValues (hI : Variables.Stable I) (passed : List Passed) :
    Same m I here (bindValues passed) := by
  induction passed with
  | nil => exact carried_pure rfl
  | cons a rest ih =>
    cases a with
    | «alias» parameter target => exact ih
    | value parameter v => exact carried_seq (same_storeLocal hI parameter v) fun _ => ih

theorem directs_call (hI : Variables.Stable I) (name : Name) {args : List Expression}
    (h : ∀ e ∈ args, Timely m.timed e) : Directs m I here (callStatement name args) := by
  refine carried_bind carried_read ?_
  rintro _ _ ⟨rfl, rfl⟩
  rw [m.sub]
  refine carried_bind (carried_require m.place rfl) ?_
  rintro first _ ⟨rfl, _⟩
  refine carried_bind (carried_statement first) ?_
  rintro opening _ ⟨rfl, hopening⟩
  cases opening with
  | sub other params =>
    refine carried_ite (carried_raise rfl) ?_
    refine carried_bind (carried_endOf (m.closer hopening rfl) _ rfl) ?_
    rintro last _ rfl
    refine carried_seq (same_passArguments params h) fun passed => ?_
    refine carried_seq (same_enterCall hI _) fun _ => ?_
    refine carried_seq (same_bindValues hI passed) fun _ => ?_
    refine carried_seq (carried_enter first last .sub) fun _ => ?_
    exact carried_pure (.jump (lands_after _ _))
  | _ => exact carried_raise rfl

/-! ## TRY -/

theorem directs_try (hst : m.old.statement? here = some st) (hrole : st.role = .opener) :
    Directs m I here tryStatement := by
  have hheads : m.Heads here := m.closer hst hrole
  refine carried_bind carried_line ?_
  rintro _ _ ⟨rfl, rfl⟩
  refine carried_bind (carried_endOf hheads _ rfl) ?_
  rintro last _ rfl
  refine carried_bind (carried_closer hheads _) ?_
  rintro catchLine _ rfl
  refine carried_bind (carried_closer hheads _) ?_
  rintro finallyLine _ rfl
  refine carried_seq (carried_enter _ last (.try ⟨.body, catchLine, finallyLine, none⟩)) fun _ => ?_
  exact carried_pure .next

theorem directs_catch (hst : m.old.statement? here = some st) (hrole : st.role = .clause) :
    Directs m I here catchStatement := by
  refine carried_atOpener hst (Or.inl hrole) picks_opensTry rfl fun first hfirst => ?_
  refine carried_seq (carried_framePlace first) fun place => ?_
  refine carried_bind carried_frames ?_
  rintro fs _ rfl
  have hget : place.bind (Stack.get? (fs.moved m.place)) =
      (place.bind fs.get?).map (Frame.moved m.place) := by
    cases place with
    | none => rfl
    | some i => exact fs.get?_moved m.place i
  rw [hget]
  cases place.bind fs.get? with
  | none =>
    refine carried_bind (carried_endOf (heads_of_opener picks_opensTry hfirst) _ rfl) ?_
    rintro last _ rfl
    exact carried_pure (.jump (lands_place _ _))
  | some f =>
    obtain ⟨start, last, depth, state⟩ := f
    have hlast : Carried m I here (Flow.Moved m.place) (return .jump last)
        (return .jump (m.place last)) := carried_pure (.jump (lands_place _ _))
    cases state with
    | «try» block =>
      obtain ⟨phase, catchLine, finallyLine, pending⟩ := block
      cases finallyLine with
      | some l => exact carried_pure (.jump (lands_place _ _))
      | none => exact hlast
    | «if» | «while» | «do» | «for» | select | sub => exact hlast

/-- The block that a line belongs to is the moved block. -/
theorem carried_tryFrame (hst : m.old.statement? here = some st)
    (hrole : st.role = .clause ∨ st.role = .closer) :
    Carried m I here (fun a b => b = a.map fun r => (m.place r.1, r.2.1, r.2.2.moved m.place))
      tryFrame? tryFrame? := by
  refine carried_bind carried_line ?_
  rintro _ _ ⟨rfl, rfl⟩
  refine carried_bind (carried_opener hst hrole picks_opensTry) ?_
  rintro found _ ⟨rfl, _⟩
  cases found with
  | none => exact carried_pure rfl
  | some first =>
    refine carried_seq (carried_framePlace first) fun place => ?_
    cases place with
    | none => exact carried_pure rfl
    | some i =>
      refine carried_bind carried_frames ?_
      rintro fs _ rfl
      rw [Frames.get?_moved]
      cases fs.get? i <;> exact carried_pure rfl

theorem directs_finally (hst : m.old.statement? here = some st) (hrole : st.role = .clause) :
    Directs m I here finallyStatement := by
  refine carried_bind (carried_tryFrame hst (Or.inl hrole)) ?_
  rintro found _ rfl
  cases found with
  | none => exact carried_pure .next
  | some r =>
    obtain ⟨first, i, start, last, depth, state⟩ := r
    cases state with
    | «try» block =>
      exact carried_seq (carried_setFrameState i (.try { block with phase := .finally })) fun _ =>
        carried_pure .next
    | «if» | «while» | «do» | «for» | select | sub => exact carried_pure .next

theorem directs_endTry (hst : m.old.statement? here = some st) (hrole : st.role = .closer) :
    Directs m I here endTryStatement := by
  refine carried_bind (carried_tryFrame hst (Or.inr hrole)) ?_
  rintro found _ rfl
  cases found with
  | none => exact carried_pure .next
  | some r =>
    obtain ⟨first, i, start, last, depth, state⟩ := r
    refine carried_seq (carried_leave first) fun _ => ?_
    cases state with
    | «try» block =>
      obtain ⟨phase, catchLine, finallyLine, pending⟩ := block
      cases pending with
      | some e => exact carried_throw e
      | none => exact carried_pure .next
    | «if» | «while» | «do» | «for» | select | sub => exact carried_pure .next

/-! ## Devices -/

theorem same_printItem (i : PrintItem) (h : ∀ e ∈ i.expressions, Timely m.timed e) :
    Same m I here (printItem i) := by
  cases i with
  | expression e =>
    exact carried_seq (same_value (h e List.mem_cons_self)) fun _ => same_onScreen _
  | comma => exact same_onScreen fun screen => screen.print "\t"
  | semicolon => exact carried_pure rfl

theorem directs_print (items : List PrintItem)
    (h : ∀ e ∈ items.flatMap PrintItem.expressions, Timely m.timed e) :
    Directs m I here (printStatement items) := by
  have hitems : ∀ i ∈ items, Same m I here (printItem i) := fun i hi =>
    same_printItem i fun e he => h e (List.mem_flatMap.2 ⟨i, hi, he⟩)
  refine carried_seq (same_forM hitems) fun _ => ?_
  exact carried_ite (carried_pure .next)
    (carried_seq (same_onScreen _) fun _ => carried_pure .next)

theorem same_color (h : Timely m.timed e) : Same m I here (color e) :=
  carried_seq (same_integer h) fun _ => carried_ite (carried_raise rfl) (carried_pure rfl)

theorem directs_colors {foreground : Expression} {background : Option Expression}
    (h : ∀ e ∈ foreground :: background.toList, Timely m.timed e) :
    Directs m I here (colorStatement foreground background) := by
  refine carried_seq (same_color (h foreground List.mem_cons_self)) fun c => ?_
  refine carried_seq (same_onScreen _) fun _ => ?_
  cases background with
  | some e =>
    exact carried_seq (same_color (h e (by simp))) fun _ =>
      carried_seq (same_onScreen _) fun _ => carried_pure .next
  | none => exact carried_pure .next

theorem directs_draw (shape : Shape) {args : List Expression} (filled : Bool)
    (h : ∀ e ∈ args, Timely m.timed e) : Directs m I here (drawStatement shape args filled) := by
  have hlast : ∀ points, Directs m I here (do onScreen (·.paint points); return Flow.next) :=
    fun points => carried_seq (same_onScreen _) fun _ => carried_pure .next
  refine carried_ite (carried_raise rfl) ?_
  dsimp only
  split
  · rename_i x y r start stop
    exact carried_seq (same_integer (h x (by simp))) fun _ =>
      carried_seq (same_integer (h y (by simp))) fun _ =>
        carried_seq (same_integer (h r (by simp))) fun _ =>
          carried_seq (same_real (h start (by simp))) fun _ =>
            carried_seq (same_real (h stop (by simp))) fun _ => carried_seq (carried_pure rfl) hlast
  · exact carried_seq (same_mapM fun e he => same_integer (h e he)) fun _ =>
      carried_seq (carried_pure rfl) hlast

theorem directs_request (request : SoundRequest) :
    Directs m I here (do onHost (·.record request); return Flow.next) :=
  carried_seq (same_record request) fun _ => carried_pure .next

theorem directs_sleep (h : Timely m.timed e) : Directs m I here (sleepStatement e) :=
  carried_seq (same_real h) fun _ => carried_ite (carried_raise rfl)
    (carried_ite (carried_pure (.rest _)) (carried_pure .next))

theorem directs_reseed (seed : UInt64) :
    Directs m I here (do setMemory ((← memory).randomize seed); return Flow.next) :=
  fun _ hs => ⟨.next, rfl, hs⟩

/-- RANDOMIZE without a seed reads the clock. -/
theorem directs_randomize (seed : Option Expression)
    (h : (Statement.randomize seed).readsClock = true → m.timed = true) :
    Directs m I here (randomizeStatement seed) := by
  cases seed with
  | some e =>
    have he : Timely m.timed e := timely_expressions h e List.mem_cons_self
    exact carried_seq (same_integer he) fun _ => carried_seq (carried_pure rfl) directs_reseed
  | none =>
    have hclock : Same m I here (do return (← host).clock.seed) := by
      intro s hs
      exact ⟨congrArg Clock.seed (m.clock_eq (h rfl) _).symm, rfl, hs⟩
    simpa only [randomizeStatement, bind_assoc, pure_bind] using carried_seq hclock directs_reseed

/-! ## Files -/

theorem same_onFiles {α : Type} {act : Action Files α}
    (hact : ∀ f, MildExcept (act.result f).1) : Same m I here (onFiles act) := by
  refine carried_bind carried_files fun h k hfiles => ?_
  rw [hfiles]
  exact carried_seq (same_setFiles _) fun _ => same_mild (hact _)

/-- A statement that only works on the files. -/
theorem directs_onFiles {act : Action Files Unit} (hact : ∀ f, MildExcept (act.result f).1) :
    Directs m I here (do onFiles act; return Flow.next) :=
  carried_seq (same_onFiles hact) fun _ => carried_pure .next

variable {path data amount : Expression} {target : Location}

theorem directs_open (hI : Variables.Stable I) (mode : FileMode)
    (h : ∀ e ∈ path :: target.indexes, Timely m.timed e) :
    Directs m I here (openStatement path mode target) := by
  obtain ⟨hpath, htarget⟩ := List.forall_mem_cons.1 h
  refine carried_seq (same_text hpath) fun path => ?_
  refine carried_seq (same_onFiles fun f => mild_opening f path mode) fun h => ?_
  exact carried_seq (same_assign hI target _ htarget) fun _ => carried_pure .next

theorem directs_readBytes (hI : Variables.Stable I)
    (h : ∀ a ∈ e :: amount :: target.indexes, Timely m.timed a) :
    Directs m I here (readStatement e amount target) := by
  obtain ⟨hhandle, hrest⟩ := List.forall_mem_cons.1 h
  obtain ⟨hamount, htarget⟩ := List.forall_mem_cons.1 hrest
  refine carried_seq (same_integer hhandle) fun handle => ?_
  refine carried_seq (same_count hamount) fun n => ?_
  refine carried_seq (same_onFiles fun f => mild_reading f handle n) fun bytes => ?_
  exact carried_seq (same_assign hI target _ htarget) fun _ => carried_pure .next

theorem directs_load (hI : Variables.Stable I)
    (h : ∀ e ∈ path :: target.indexes, Timely m.timed e) :
    Directs m I here (loadStatement path target) := by
  obtain ⟨hpath, htarget⟩ := List.forall_mem_cons.1 h
  refine carried_seq (same_text hpath) fun path => ?_
  refine carried_bind carried_files fun h k hfiles => ?_
  rw [hfiles]
  refine carried_seq (same_mild (mild_readAll _ path)) fun bytes => ?_
  exact carried_seq (same_assign hI target _ htarget) fun _ => carried_pure .next

theorem directs_write (h : ∀ a ∈ [e, data], Timely m.timed a) :
    Directs m I here (writeStatement e data) :=
  carried_seq (same_integer (h e (by simp))) fun handle =>
    carried_seq (same_value (h data (by simp))) fun v =>
      carried_seq (same_mild (mild_bytesOfValue v)) fun bytes =>
        directs_onFiles fun f => mild_writing f handle bytes

theorem directs_save (h : ∀ a ∈ [path, data], Timely m.timed a) :
    Directs m I here (saveStatement path data) :=
  carried_seq (same_text (h path (by simp))) fun path =>
    carried_seq (same_value (h data (by simp))) fun v =>
      carried_seq (same_mild (mild_bytesOfValue v)) fun bytes =>
        directs_onFiles fun f => mild_saving f path bytes

/-! ## Every statement -/

/-- A statement does at the new place of its line what it does at its line. If it
stores anything, what is kept has to be stable. -/
theorem directs_execute (hst : m.old.statement? here = some st)
    (hI : st.stores = true → Variables.Stable I) : Directs m I here (execute st) := by
  have hclock := m.timely hst
  have hall := timely_expressions hclock
  cases st with
  | remark | label => exact carried_pure .next
  | «return» | endSub => exact carried_pure .return
  | stop => exact carried_pure .stop
  | assign target e =>
    obtain ⟨he, htarget⟩ := List.forall_mem_cons.1 hall
    exact directs_assign (hI rfl) target (same_value he) htarget
  | localVariable name initial => exact directs_local (hI rfl) name initial hall
  | dim name axes => exact directs_dim (hI rfl) name axes hall
  | swap a b => exact directs_swap (hI rfl) a b hall
  | push name e =>
    exact directs_add (hI rfl) name (hall e List.mem_cons_self) fun v a =>
      mildExcept_bind (Grid.mild_push a v) fun _ => mildExcept_pure _
  | unshift name e =>
    exact directs_add (hI rfl) name (hall e List.mem_cons_self) fun v a =>
      mildExcept_bind (Grid.mild_unshift a v) fun _ => mildExcept_pure _
  | pop name target =>
    exact directs_assign (hI rfl) target (same_updateArray (hI rfl) name Grid.mild_pop) hall
  | shift name target =>
    exact directs_assign (hI rfl) target (same_updateArray (hI rfl) name Grid.mild_shift) hall
  | print items => exact directs_print items hall
  | «if» e => exact directs_if hst rfl (hall e List.mem_cons_self) false
  | «unless» e => exact directs_if hst rfl (hall e List.mem_cons_self) true
  | elseIf e => exact directs_elseIf hst rfl (hall e List.mem_cons_self)
  | «else» => exact directs_else hst rfl
  | endIf | endUnless => exact directs_leaveBlock hst rfl picks_opensIfOrUnless
  | «while» e =>
    rw [execute_while]
    exact directs_loopHead hst rfl _ _ (same_condition (hall e List.mem_cons_self))
      (moved_onlyIf rfl)
  | «until» e =>
    rw [execute_until]
    exact directs_loopHead hst rfl _ _ (carried_seq (same_condition (hall e List.mem_cons_self))
      fun _ => carried_pure rfl) (moved_onlyIf rfl)
  | wend => exact directs_wend hst rfl false
  | uend => exact directs_wend hst rfl true
  | «do» c =>
    rw [execute_do]
    exact directs_loopHead hst rfl _ _ (same_test c hall) (moved_onlyIf rfl)
  | loop c => exact directs_loop hst rfl c hall
  | «for» name start limit step =>
    rw [execute_for]
    refine directs_loopHead hst rfl _ _ (same_forEntry (hI rfl) name hall) fun entry => ?_
    cases entry <;> rfl
  | next name => exact directs_next (hI rfl) hst rfl name
  | select e => exact directs_select hst rfl (hall e List.mem_cons_self)
  | case tests => exact directs_case hst rfl tests hall
  | endSelect => exact directs_leaveBlock hst rfl picks_opensSelect
  | «try» => exact directs_try hst rfl
  | «catch» name => exact directs_catch hst rfl
  | «finally» => exact directs_finally hst rfl
  | endTry => exact directs_endTry hst rfl
  | throw e =>
    exact carried_seq (same_value (hall e List.mem_cons_self)) fun _ => carried_raise rfl
  | exit kind name => exact directs_exit kind name
  | «continue» kind name => exact directs_continue kind name
  | goto label => exact directs_goto label
  | gosub label => exact directs_gosub (hI rfl) label
  | sub name params => exact directs_sub hst rfl
  | call name args => exact directs_call (hI rfl) name hall
  | randomize seed => exact directs_randomize seed hclock
  | sleep e => exact directs_sleep (hall e List.mem_cons_self)
  | view e =>
    exact carried_seq (same_text (hall e List.mem_cons_self)) fun _ =>
      carried_seq (same_requestView _) fun _ => carried_pure .next
  | color foreground background => exact directs_colors hall
  | locate row column =>
    exact carried_seq (same_count (hall row (by simp [Statement.expressions]))) fun _ =>
      carried_seq (same_count (hall column (by simp [Statement.expressions]))) fun _ =>
        carried_seq (same_onScreen _) fun _ => carried_pure .next
  | cls => exact carried_seq (same_onScreen fun screen => screen.clear) fun _ => carried_pure .next
  | draw shape args filled => exact directs_draw shape filled hall
  | tempo e =>
    exact carried_seq (same_real (hall e List.mem_cons_self)) fun _ =>
      carried_ite (directs_request _) (carried_raise rfl)
  | volume e =>
    exact carried_seq (same_integer (hall e List.mem_cons_self)) fun _ =>
      carried_ite (carried_raise rfl) (directs_request _)
  | voice e => exact carried_seq (same_count (hall e List.mem_cons_self)) fun _ => directs_request _
  | play voice notes =>
    exact carried_seq (same_count (hall voice (by simp [Statement.expressions]))) fun _ =>
      carried_seq (same_text (hall notes (by simp [Statement.expressions]))) fun _ =>
        directs_request _
  | playStop => exact directs_request _
  | openFile path mode handle => exact directs_open (hI rfl) mode hall
  | closeFile handle =>
    exact carried_seq (same_integer (hall handle List.mem_cons_self)) fun n =>
      directs_onFiles fun f => mild_closing f n
  | readBytes handle amount target => exact directs_readBytes (hI rfl) hall
  | writeBytes handle data => exact directs_write hall
  | seek handle position =>
    exact carried_seq (same_integer (hall handle (by simp [Statement.expressions]))) fun h =>
      carried_seq (same_count (hall position (by simp [Statement.expressions]))) fun n =>
        directs_onFiles fun f => mild_seeking f h n
  | loadFile path target => exact directs_load (hI rfl) hall
  | saveFile path data => exact directs_save hall

end Run

end LineBasic
