-- What a CALL that fails leaves behind. It opens a scope before it stores the values of its
-- parameters and opens its block. A failure before that leaves everything as it was, and a
-- failure after it leaves the scope.
import LineBasic.Proofs.Control
import LineBasic.Proofs.Types
import Mathlib.Data.List.Nodup

namespace LineBasic

namespace Variables

variable {base now : Variables} {aliases : Table Name Name}

/-- `now` is `base` and one more call, which has the given aliases. -/
structure Above (base : Variables) (aliases : Table Name Name) (now : Variables) : Prop where
  callers : now.cutTo base.depth = base
  callee : ∃ scope, now.scopes.items = base.scopes.items ++ [scope] ∧ scope.aliases = aliases

theorem above_enterCall {returnLine : Option Nat} {lent : List (Name × Name)}
    (h : base.enterCall returnLine lent = .ok now) : base.Above (aliasTable lent) now := by
  obtain ⟨scopes, hpush, h⟩ := exists_of_bind_eq_ok h
  cases h
  obtain ⟨-, rfl⟩ := Stack.push_eq_ok _ hpush
  refine ⟨?_, _, rfl, rfl⟩
  simp [cutTo, depth, Stack.size, Stack.truncate]

theorem Above.depth_eq (h : base.Above aliases now) : now.depth = base.depth + 1 := by
  obtain ⟨scope, hitems, -⟩ := h.callee
  simp [depth, Stack.size, hitems]

/-- A parameter that is no alias is stored in the new call. -/
theorem Above.put (h : base.Above aliases now) {name : Name} (hname : aliases.get? name.key = none)
    (v : Value) : base.Above aliases (now.put name v true) := by
  obtain ⟨scope, hitems, haliases⟩ := h.callee
  have hlevel : now.scopes.items[base.depth]? = some scope := by
    rw [hitems]
    exact List.getElem?_concat_length
  have hcell : now.cell name true = .local base.depth name.key := by
    rw [cell, h.depth_eq, locate, hlevel]
    simp only [haliases, hname]
    rfl
  rw [Variables.put, hcell]
  refine ⟨?_, { scope with locals := scope.locals.insert name.key v }, ?_, haliases⟩
  · refine Eq.trans ?_ h.callers
    have htake : (now.scopes.items.take base.depth).length ≤ base.depth := List.length_take_le _ _
    simp only [store, cutTo, Stack.truncate, Stack.modify, List.take_modify,
      List.modify_eq_self htake]
  · have htake : (base.scopes.items ++ [scope]).take base.depth = base.scopes.items :=
      List.take_left
    have hdrop : (base.scopes.items ++ [scope]).drop base.depth = [scope] := List.drop_left
    change now.scopes.items.modify base.depth _ = _
    rw [hitems, List.modify_eq_take_drop, htake, hdrop]
    rfl

end Variables

namespace Run

variable {p : Program} {s t u : State} {passed : List Passed}

def Passed.parameter : Passed → Name
  | .alias parameter _ | .value parameter _ => parameter

/-- A value that is passed does not go to a parameter that is an alias. -/
def Unaliased (aliases : Table Name Name) (passed : List Passed) : Prop :=
  ∀ parameter v, .value parameter v ∈ passed → aliases.get? parameter.key = none

theorem after_passArgument_parameter (param : Parameter) (e : Expression) :
    After (passArgument param e) p s (fun a _ => a.parameter = param.name) fun _ _ => True := by
  have hvalue : After (do return Passed.value param.name (← value e)) p s
      (fun a _ => a.parameter = param.name) fun _ _ => True := by
    simp only [after_bind, after_pure]
    exact (after_value p s e).mono (fun _ _ _ => rfl) fun _ _ _ => trivial
  cases e with
  | «variable» target =>
    rw [passArgument, after_ite]
    exact ⟨fun _ => rfl, fun _ => hvalue⟩
  | _ => exact hvalue

/-- The arguments go to the parameters in their order. -/
theorem after_passArguments_parameters (params : List Parameter) (args : List Expression)
    (hlength : params.length = args.length) :
    After (passArguments params args) p s
      (fun passed _ => passed.map Passed.parameter = params.map (·.name)) fun _ _ => True := by
  induction params generalizing args s with
  | nil => exact rfl
  | cons param params ih =>
    cases args with
    | nil => cases hlength
    | cons e args =>
      rw [passArguments, after_bind]
      refine (after_passArgument_parameter param e).mono (fun a t ha => ?_) fun _ _ _ => trivial
      rw [after_bind]
      refine (ih args (Nat.succ.inj hlength)).mono (fun rest u hrest => ?_) fun _ _ _ => trivial
      rw [after_pure, List.map_cons, List.map_cons, ha, hrest]

/-- Parameters of different names are aliases or have values. -/
theorem unaliased_of_nodup (h : (passed.map fun a => a.parameter.key).Nodup) :
    Unaliased (aliasTable (passed.filterMap Passed.alias?)) passed := by
  intro parameter v hmem
  cases hget : (aliasTable (passed.filterMap Passed.alias?)).get? parameter.key with
  | none => rfl
  | some target =>
    obtain ⟨before, spelled, after, hsplit, hkey, -⟩ := get?_aliasTable.1 hget
    have hlent : (spelled, target) ∈ passed.filterMap Passed.alias? := by
      rw [hsplit]
      simp
    obtain ⟨a, ha, halias⟩ := List.mem_filterMap.1 hlent
    cases a with
    | value => cases halias
    | «alias» =>
      cases halias
      have hsame := List.inj_on_of_nodup_map h ha hmem hkey
      cases hsame

/-- What is left alone while values are stored in a new call. -/
structure Fills (passed : List Passed) (s t : State) : Prop where
  frames : t.frames = s.frames
  depth : t.memory.variables.depth = s.memory.variables.depth
  above : ∀ {base : Variables} {aliases}, Unaliased aliases passed →
    base.Above aliases s.memory.variables → base.Above aliases t.memory.variables

theorem Fills.refl (passed : List Passed) (s : State) : Fills passed s s :=
  ⟨rfl, rfl, fun _ h => h⟩

theorem Fills.cons {a : Passed} (h : Fills [a] s u) (h' : Fills passed u t) :
    Fills (a :: passed) s t where
  frames := h'.frames.trans h.frames
  depth := h'.depth.trans h.depth
  above hfree habove := by
    refine h'.above (fun parameter v hmem => hfree parameter v (List.mem_cons_of_mem _ hmem)) ?_
    refine h.above (fun parameter v hmem => hfree parameter v ?_) habove
    exact List.mem_singleton.1 hmem ▸ List.mem_cons_self

theorem after_storeValue (parameter : Name) (v : Value) :
    After (storeLocal parameter v) p s (fun _ t => Fills [.value parameter v] s t)
      fun e t => t = s ∧ fitTo parameter v = .error e := by
  unfold storeLocal Memory.set
  simp only [after_bind, after_memory, after_ofExcept, after_setMemory]
  cases hfit : fitTo parameter v with
  | error e =>
    refine ⟨fun m hm => (by cases hm), fun e' he => ?_⟩
    cases he
    exact ⟨trivial, rfl⟩
  | ok w =>
    refine ⟨fun m hm => ?_, fun e he => (by cases he)⟩
    cases hm
    exact ⟨rfl, s.memory.variables.depth_put parameter w true,
      fun hfree habove => habove.put (hfree parameter v List.mem_cons_self) w⟩

/-- Values are stored one by one, as far as the first that does not fit its parameter. -/
theorem after_bindValues (passed : List Passed) : After (bindValues passed) p s
    (fun _ t => Fills passed s t)
    fun e t => Fills passed s t ∧
      ∃ parameter v, .value parameter v ∈ passed ∧ fitTo parameter v = .error e := by
  induction passed generalizing s with
  | nil => exact .refl _ _
  | cons a rest ih =>
    have hrest : ∀ {u}, Fills [a] s u → After (bindValues rest) p u
        (fun _ t => Fills (a :: rest) s t)
        fun e t => Fills (a :: rest) s t ∧
          ∃ parameter v, .value parameter v ∈ a :: rest ∧ fitTo parameter v = .error e := by
      intro u hu
      refine ih.mono (fun _ t ht => hu.cons ht) ?_
      rintro e t ⟨ht, parameter, v, hmem, hfit⟩
      exact ⟨hu.cons ht, parameter, v, List.mem_cons_of_mem _ hmem, hfit⟩
    cases a with
    | «alias» parameter target => exact hrest (.refl _ _)
    | value parameter v =>
      rw [bindValues, after_bind]
      refine (after_storeValue parameter v).mono (fun _ u hu => hrest hu) ?_
      rintro e t ⟨rfl, hfit⟩
      exact ⟨.refl _ _, parameter, v, List.mem_cons_self, hfit⟩

end Run

/-! ## The call -/

/-- The scope of a call that failed is still open. Nothing else has changed if its parameters
have different keys. -/
structure State.Lingers (s : State) (keys : List Name) (t : State) : Prop where
  depth : t.memory.variables.depth = s.memory.variables.depth + 1
  callers : keys.Nodup → t.memory.variables.cutTo s.memory.variables.depth = s.memory.variables

/-- A value does not fit its parameter, or there is no room for the block of a call. -/
def State.RefusesCall (s : State) (passed : List Run.Passed) (first last : Nat) (e : Error) :
    Prop :=
  (∃ parameter v, .value parameter v ∈ passed ∧ fitTo parameter v = .error e) ∨
    s.frames.enter ⟨first, last, s.memory.variables.depth + 1, .sub⟩ = .error e

/-- Once the arguments are passed, a call fails without a trace or leaves its scope. -/
theorem Run.after_opening (p : Program) (s : State) (passed : List Passed) (first last : Nat) :
    After (do
      enterCall (passed.filterMap Passed.alias?)
      bindValues passed
      enter first last .sub
      return Flow.jump (first + 1)) p s (fun _ _ => True) fun e t =>
        t.frames = s.frames ∧ (t.memory.variables = s.memory.variables ∨
          s.RefusesCall passed first last e ∧
            s.Lingers (passed.map fun a => a.parameter.key) t) := by
  unfold enterCall
  simp only [after_bind, after_memory, after_ofExcept, after_setMemory, after_enter, after_pure]
  refine ⟨fun opened hopened => ?_, fun e _ => ⟨trivial, Or.inl trivial⟩⟩
  have habove := Variables.above_enterCall hopened
  -- Whatever fails from here on leaves the scope.
  have hlingers : ∀ {t},
      Fills passed { s with memory := { s.memory with «variables» := opened } } t →
      s.Lingers (passed.map fun a => a.parameter.key) t := by
    intro t ht
    exact ⟨ht.depth.trans habove.depth_eq,
      fun hkeys => (ht.above (unaliased_of_nodup hkeys) habove).callers⟩
  refine (after_bindValues passed).mono (fun _ t ht => ?_) ?_
  · refine ⟨fun _ _ => trivial, fun e he => ⟨ht.frames, Or.inr ⟨Or.inr ?_, hlingers ht⟩⟩⟩
    rwa [(hlingers ht).depth, ht.frames] at he
  · rintro e t ⟨ht, hunfit⟩
    exact ⟨ht.frames, Or.inr ⟨Or.inl hunfit, hlingers ht⟩⟩

/-- A CALL that fails leaves the open blocks alone. It leaves all calls and variables alone
too, unless its scope was open already: then the scope stays. -/
theorem a_failed_call_changes_nothing_or_leaves_its_scope (p : Program) (s : State) (name : Name)
    (args : List Expression) :
    Run.After (Run.execute (.call name args)) p s (fun _ _ => True) fun e t =>
      t.frames = s.frames ∧ (t.memory.variables = s.memory.variables ∨
        ∃ first other params last passed u, p.subPlace? name = some first ∧
          p.statement? first = some (.sub other params) ∧
          p.closer first Statement.closesSub = some last ∧
          Run.passArguments params args p s = .ok passed u ∧
          s.RefusesCall passed first last e ∧ s.Lingers (params.map fun q => q.name.key) t) := by
  change Run.After (Run.callStatement name args) p s _ _
  unfold Run.callStatement Run.endOfSub
  rw [Run.after_bind, Run.after_read, Run.after_bind, Run.after_require]
  refine ⟨fun first hfirst => ?_, fun _ => ⟨rfl, Or.inl rfl⟩⟩
  rw [Run.after_bind, Run.after_statement]
  refine ⟨fun st hst => ?_, fun _ => ⟨rfl, Or.inl rfl⟩⟩
  cases st with
  | sub other params =>
    dsimp only
    rw [Run.after_ite]
    refine ⟨fun _ => ⟨rfl, Or.inl rfl⟩, fun hlength => ?_⟩
    simp only [bind_assoc]
    rw [Run.after_bind, Run.after_closer, Run.after_bind, Run.after_require]
    refine ⟨fun last hlast => ?_, fun _ => ⟨rfl, Or.inl rfl⟩⟩
    have hpass := ((Run.after_passArguments p params args s).and
      (((Run.steady_passArguments params args).control p s).and
        (Run.after_passArguments_parameters params args (Decidable.not_not.1 hlength)))).traced
    rw [Run.after_bind]
    refine hpass.mono ?_ fun e t ht => ⟨congrArg Control.frames ht.2.2.1.2, Or.inl ht.2.1⟩
    rintro passed u ⟨hrun, ⟨-, hvars⟩, hcontrol, hnames⟩
    have hframes : u.frames = s.frames := congrArg Control.frames hcontrol
    have hkeys : (passed.map fun a => a.parameter.key) = params.map fun q => q.name.key := by
      have hmap := congrArg (List.map Name.key) hnames
      rwa [List.map_map, List.map_map] at hmap
    refine (Run.after_opening p u passed first last).mono (fun _ _ _ => trivial) ?_
    rintro e t ⟨ht, hopen⟩
    refine ⟨ht.trans hframes, hopen.imp (·.trans hvars) fun hleft => ?_⟩
    obtain ⟨hrefuses, hlingers⟩ := hleft
    refine ⟨first, other, params, last, passed, u, hfirst, hst, hlast, hrun, ?_, ?_⟩
    · rwa [State.RefusesCall, hframes, hvars] at hrefuses
    · rw [hkeys] at hlingers
      obtain ⟨hdepth, hcallers⟩ := hlingers
      rw [hvars] at hdepth hcallers
      exact ⟨hdepth, hcallers⟩
  | _ => exact ⟨rfl, Or.inl rfl⟩

/-- Two values are passed, and the second does not fit. The variables of the caller are left
as they were. -/
theorem a_call_of_two_values_leaves_its_caller :
    let n : Name := ⟨['n', '%']⟩
    let m : Name := ⟨['m', '%']⟩
    let p := Program.ofLines [⟨0, .call ⟨['F']⟩ [.integer 5, .string "x"]⟩, ⟨0, .stop⟩,
      ⟨0, .sub ⟨['F']⟩ [⟨n, false⟩, ⟨m, false⟩]⟩, ⟨0, .endSub⟩]
    let vars : Variables := { globals := Table.ofList [(⟨['N', '%']⟩, .integer 7)] }
    let s : State := { memory := { «variables» := vars, trail := { random := .ofSeed 7 } } }
    ∃ e t, Run.execute (.call ⟨['F']⟩ [.integer 5, .string "x"]) p s = .error e t ∧
      t.frames = s.frames ∧ t.memory.variables.depth = 1 ∧ t.memory.variables.cutTo 0 = vars := by
  intro n m p vars s
  have h := a_failed_call_changes_nothing_or_leaves_its_scope p s ⟨['F']⟩ [.integer 5, .string "x"]
  unfold Run.After at h
  cases hx : Run.execute (.call ⟨['F']⟩ [.integer 5, .string "x"]) p s with
  | ok flow t => cases hx
  | error e t =>
    rw [hx] at h
    obtain ⟨hframes, hsame | hleft⟩ := h
    · cases hx
      cases congrArg Variables.depth hsame
    · obtain ⟨first, other, params, last, passed, u, hfirst, hst, -, -, -, hlingers⟩ := hleft
      cases hfirst
      cases hst
      exact ⟨e, t, rfl, hframes, hlingers.depth, hlingers.callers (by decide)⟩

/-- A CALL whose value does not fit its parameter fails, and its scope stays open. -/
theorem a_call_that_fails_stays_open :
    let p := Program.ofLines [⟨0, .call ⟨['F']⟩ [.string "x"]⟩, ⟨0, .stop⟩,
      ⟨0, .sub ⟨['F']⟩ [⟨⟨['n', '%']⟩, false⟩]⟩, ⟨0, .endSub⟩]
    let s : State := { memory := .ofSeed 7 }
    ∃ e t, Run.execute (.call ⟨['F']⟩ [.string "x"]) p s = .error e t ∧
      s.memory.variables.depth = 0 ∧ t.memory.variables.depth = 1 :=
  ⟨_, _, rfl, rfl, rfl⟩

end LineBasic
