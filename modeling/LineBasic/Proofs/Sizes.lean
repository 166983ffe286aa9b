-- Values whose arrays keep to the limit, all the way down: the array itself, the
-- items of an array, and the members of a structure. Operators and functions make
-- no arrays at all, and what is done to an array in its place either keeps to the
-- limit or fails. So an expression can go beyond only by a literal that is too long.
import LineBasic.Proofs.Types
import LineBasic.Proofs.Reading

namespace LineBasic

/-! ## Results of computations that may fail -/

/-- Whatever the computation yields has `R`. -/
def Gives {α : Type} (R : α → Prop) (x : Except Error α) : Prop := ∀ a, x = .ok a → R a

section Gives

variable {α β : Type} {R : α → Prop} {Q : β → Prop}

theorem gives_ok {a : α} (h : R a) : Gives R (.ok a) := by
  intro b hb
  cases hb
  exact h

theorem gives_pure {a : α} (h : R a) : Gives R (pure a) := gives_ok h

theorem gives_error (e : Error) : Gives R (.error e) := nofun

theorem gives_bind {x : Except Error α} {f : α → Except Error β} (hx : Gives R x)
    (hf : ∀ a, R a → Gives Q (f a)) : Gives Q (x >>= f) := by
  intro b hb
  obtain ⟨a, ha, hb⟩ := exists_of_bind_eq_ok hb
  exact hf a (hx a ha) b hb

/-- The common case: nothing is known about what the first part yields. -/
theorem gives_then {x : Except Error α} {f : α → Except Error β} (hf : ∀ a, Gives Q (f a)) :
    Gives Q (x >>= f) := by
  intro b hb
  obtain ⟨a, _, hb⟩ := exists_of_bind_eq_ok hb
  exact hf a b hb

theorem gives_ite {c : Prop} [Decidable c] {x y : Except Error α} (hx : Gives R x)
    (hy : Gives R y) : Gives R (if c then x else y) := by
  by_cases hc : c
  · rw [if_pos hc]; exact hx
  · rw [if_neg hc]; exact hy

end Gives

/-! ## Values within the limit -/

namespace Value

/-- The value is neither an array nor a structure. -/
def isScalar : Value → Bool
  | .array _ | .record _ => false
  | _ => true

/-- Every array in the value has at most `maxItems` items. -/
inductive Within : Value → Prop where
  | scalar {v : Value} (h : v.isScalar = true) : Within v
  | array {a : Grid Value} (hsize : a.size ≤ maxItems) (hitems : ∀ v ∈ a.items, v.Within) :
      Within (.array a)
  | record {members : Table Name Value} (h : ∀ e ∈ members.entries, e.2.Within) :
      Within (.record members)

variable {v w : Value} {members : Table Name Value}

theorem within_record : (Value.record members).Within ↔ members.All fun _ v => v.Within := by
  constructor
  · intro h
    cases h with
    | scalar h => cases h
    | record h => exact h
  · exact fun h => .record h

theorem within_array {a : Grid Value} :
    (Value.array a).Within ↔ a.size ≤ maxItems ∧ ∀ v ∈ a.items, v.Within := by
  constructor
  · intro h
    cases h with
    | scalar h => cases h
    | array hsize hitems => exact ⟨hsize, hitems⟩
  · exact fun h => .array h.1 h.2

theorem within_zero (k : Kind) : (zero k).Within := by
  cases k with
  | array => exact .array (Nat.zero_le _) (by simp)
  | record => exact .record (by simp)
  | integer | real | string | complex => exact .scalar rfl

theorem within_defaultFor (name : Name) : (defaultFor name).Within := by
  unfold defaultFor
  split
  · exact .array (Nat.zero_le _) (by simp)
  · exact within_zero _

/-! ### Conversion -/

/-- A value that is converted to another type is a number. -/
theorem gives_coerce (k : Kind) (h : v.Within) : Gives Within (v.coerce k) := by
  unfold coerce
  refine gives_ite (gives_ok h) ?_
  split
  · exact gives_ok (.scalar rfl)
  · exact gives_ok (.scalar rfl)
  · exact gives_then fun _ => gives_pure (.scalar rfl)
  · exact gives_ok (.scalar rfl)
  · exact gives_ite (gives_ok (.scalar rfl)) (gives_error _)
  · exact gives_ite (gives_then fun _ => gives_pure (.scalar rfl)) (gives_error _)
  · exact gives_error _
  · exact gives_error _

theorem gives_coerceAll (k : Kind) {vs : List Value} (h : ∀ v ∈ vs, v.Within) :
    Gives (fun ws => ws.length = vs.length ∧ ∀ w ∈ ws, w.Within) (coerceAll k vs) := by
  unfold coerceAll
  induction vs with
  | nil => exact gives_pure ⟨rfl, h⟩
  | cons v vs ih =>
    obtain ⟨hv, hvs⟩ := List.forall_mem_cons.1 h
    rw [List.mapM_cons]
    refine gives_bind (gives_coerce k hv) fun w hw => ?_
    refine gives_bind (ih hvs) fun ws hws => gives_pure ⟨?_, ?_⟩
    · simp [hws.1]
    · exact List.forall_mem_cons.2 ⟨hw, hws.2⟩

/-! ### Parts -/

theorem gives_member (field : Name) (h : v.Within) : Gives Within (v.member field) := by
  cases v with
  | record members =>
    rw [member]
    split
    · rename_i w hw
      exact gives_ok ((within_record.1 h).get? hw)
    · exact gives_error _
  | integer | real | string | complex | array => exact gives_error _

theorem gives_memberAt (path : List Name) (h : v.Within) : Gives Within (v.memberAt path) := by
  induction path generalizing v with
  | nil => exact gives_ok h
  | cons field rest ih => exact gives_bind (gives_member field h) fun _ hw => ih hw

theorem gives_withMember {new : Value} (hnew : new.Within) (path : List Name) (h : v.Within) :
    Gives Within (Value.withMember new path v) := by
  induction path generalizing v with
  | nil => exact gives_error _
  | cons field rest ih =>
    cases v with
    | record members =>
      have hmembers := within_record.1 h
      cases rest with
      | nil => exact gives_ok (within_record.2 (hmembers.insert hnew))
      | cons next rest =>
        rw [withMember]
        have hinner : ((members.get? field.key).getD (.record {})).Within := by
          cases hget : members.get? field.key with
          | none => exact within_record.2 Table.all_empty
          | some w => exact hmembers.get? hget
        refine gives_bind (ih hinner) fun w hw => ?_
        exact gives_pure (within_record.2 (hmembers.insert hw))
    | integer | real | string | complex | array => cases rest <;> exact gives_error _

end Value

/-! ## Arrays -/

namespace Grid

variable {a : Grid Value} {v : Value}

/-- The array with all that is in it keeps to the limit. -/
def Within (a : Grid Value) : Prop := (Value.array a).Within

theorem Within.size_le (h : a.Within) : a.size ≤ maxItems := (Value.within_array.1 h).1

theorem Within.item (h : a.Within) : ∀ v ∈ a.items, v.Within := (Value.within_array.1 h).2

theorem within_dynamic (k : Kind) : (dynamic k).Within := .array (Nat.zero_le _) (by simp [dynamic])

theorem gives_ofItems (k : Kind) {vs : List Value} (hlength : vs.length ≤ maxItems)
    (h : ∀ v ∈ vs, v.Within) : Gives Within (ofItems k vs) := by
  refine gives_bind (Value.gives_coerceAll k h) fun ws hws => gives_pure ?_
  refine .array ?_ ?_
  · simp only [size, List.size_toArray, hws.1, hlength]
  · simpa using hws.2

theorem gives_dimensioned (k : Kind) (bounds : List (Int64 × Nat)) :
    Gives Within (dimensioned k bounds) := by
  refine gives_then fun r => ?_
  dsimp only
  split
  · exact gives_error _
  · rename_i hsize
    refine gives_pure (.array ?_ ?_)
    · simpa [size] using hsize
    · intro v hv
      rw [(Array.mem_replicate.1 hv).2]
      exact Value.within_zero k

theorem gives_get (h : a.Within) (is : List Int64) : Gives Value.Within (a.get is) := by
  refine gives_then fun i => ?_
  split
  · rename_i v hv
    exact gives_pure (h.item v (Array.mem_of_getElem? hv))
  · exact gives_error _

/-- A write stays within the array, or the array grows up to an index below the limit. -/
theorem gives_set (h : a.Within) (is : List Int64) (hv : v.Within) : Gives Within (a.set is v) := by
  rw [set_def]
  refine gives_bind (Value.gives_coerce _ hv) fun w hw => gives_then fun i => ?_
  by_cases hlt : i < a.size
  · rw [if_pos hlt]
    refine gives_pure (.array ?_ ?_)
    · simpa [size] using h.size_le
    · intro u hu
      rcases Array.mem_or_eq_of_mem_setIfInBounds hu with hu | rfl
      · exact h.item u hu
      · exact hw
  · rw [if_neg hlt]
    refine gives_ite (gives_error _) ?_
    by_cases hi : maxItems ≤ i
    · rw [if_pos hi]
      exact gives_error _
    · rw [if_neg hi]
      refine gives_pure (.array ?_ ?_)
      · simp only [size] at hlt ⊢
        simp only [Array.size_push, Array.size_append, Array.size_replicate]
        omega
      · intro u hu
        rcases Array.mem_push.1 hu with hu | rfl
        · rcases Array.mem_append.1 hu with hu | hu
          · exact h.item u hu
          · rw [(Array.mem_replicate.1 hu).2]
            exact Value.within_zero _
        · exact hw

theorem gives_retype (h : a.Within) (k : Kind) : Gives Within (a.retype k) := by
  refine gives_ite (gives_pure h) ?_
  have hitems : ∀ v ∈ a.items.toList, v.Within := fun v hv => h.item v (Array.mem_def.2 hv)
  refine gives_bind (Value.gives_coerceAll k hitems) fun ws hws => gives_pure (.array ?_ ?_)
  · have hsize := h.size_le
    simpa [size, hws.1] using hsize
  · simpa using hws.2

/-! ### Both ends -/

theorem gives_requireRoom : Gives (fun _ => a.size < maxItems) a.requireRoom := by
  unfold requireRoom
  by_cases h : a.size < maxItems
  · exact fun _ _ => h
  · rw [if_neg h]
    exact gives_error _

theorem gives_push (h : a.Within) (hv : v.Within) : Gives Within (a.push v) := by
  rw [push_def]
  refine gives_then fun _ => gives_bind gives_requireRoom fun _ hroom => ?_
  refine gives_bind (Value.gives_coerce _ hv) fun w hw => gives_pure (.array ?_ ?_)
  · simp only [size, Array.size_push]
    exact hroom
  · intro u hu
    rcases Array.mem_push.1 hu with hu | rfl
    · exact h.item u hu
    · exact hw

theorem gives_unshift (h : a.Within) (hv : v.Within) : Gives Within (a.unshift v) := by
  rw [unshift_def]
  refine gives_then fun _ => gives_bind gives_requireRoom fun _ hroom => ?_
  refine gives_bind (Value.gives_coerce _ hv) fun w hw => gives_pure (.array ?_ ?_)
  · simp only [size] at hroom ⊢
    simp only [Array.size_append, List.size_toArray, List.length_singleton]
    omega
  · intro u hu
    rcases Array.mem_append.1 hu with hu | hu
    · rw [List.mem_singleton.1 (List.mem_toArray.1 hu)]
      exact hw
    · exact h.item u hu

theorem gives_pop (h : a.Within) : Gives (fun r => r.1.Within ∧ r.2.Within) a.pop := by
  rw [pop_def]
  refine gives_then fun _ => gives_pure ⟨?_, .array ?_ ?_⟩
  · cases hback : a.items.back? with
    | none => exact Value.within_zero _
    | some v => exact h.item v (Array.mem_of_back? hback)
  · have hsize := h.size_le
    simp only [size, Array.size_pop] at hsize ⊢
    omega
  · intro v hv
    rw [Array.mem_def, Array.toList_pop] at hv
    exact h.item v (Array.mem_def.2 (List.dropLast_subset _ hv))

theorem gives_shift (h : a.Within) : Gives (fun r => r.1.Within ∧ r.2.Within) a.shift := by
  rw [shift_def]
  refine gives_then fun _ => gives_pure ⟨?_, .array ?_ ?_⟩
  · cases hfirst : a.items[0]? with
    | none => exact Value.within_zero _
    | some v => exact h.item v (Array.mem_of_getElem? hfirst)
  · have hsize := h.size_le
    simp only [size, Array.size_extract] at hsize ⊢
    omega
  · intro v hv
    obtain ⟨k, hk, rfl⟩ := Array.mem_extract_iff_getElem.1 hv
    exact h.item _ (Array.getElem_mem _)

end Grid

theorem gives_fitTo (name : Name) {v : Value} (h : v.Within) :
    Gives Value.Within (fitTo name v) := by
  unfold fitTo
  refine gives_ite ?_ (Value.gives_coerce _ h)
  cases v with
  | array a => exact gives_bind (Grid.gives_retype h _) fun _ hb => gives_pure hb
  | integer | real | string | complex | record => exact gives_error _

/-! ## Operators and functions -/

/-- The computation yields no array and no structure. -/
abbrev Scalar (x : Except Error Value) : Prop := Gives (fun v => v.isScalar = true) x

theorem scalar_of {v : Value} (h : v.isScalar = true) : Scalar (.ok v) := gives_ok h

namespace Value

/-- An operator on two numbers works on a pair of one type. -/
theorem scalar_onPair {f : Pair → Except Error Value}
    (hi : ∀ l r, Scalar (f (.integers l r))) (hr : ∀ l r, Scalar (f (.reals l r)))
    (hc : ∀ l r, Scalar (f (.complexes l r))) (v w : Value) : Scalar (promote v w >>= f) := by
  refine gives_then fun x => ?_
  cases x with
  | integers l r => exact hi l r
  | reals l r => exact hr l r
  | complexes l r => exact hc l r

theorem scalar_integerQuotient (l r : Int64) : Scalar (integerQuotient l r) :=
  gives_ite (gives_error _) (scalar_of rfl)

theorem scalar_sum (v w : Value) : Scalar (v.sum w) := by
  unfold sum
  split
  · exact scalar_of rfl
  · exact scalar_of rfl
  · exact scalar_onPair (fun _ _ => scalar_of rfl) (fun _ _ => scalar_of rfl)
      (fun _ _ => scalar_of rfl) _ _

theorem scalar_logical (word : String) (f : Int64 → Int64 → Int64) (v w : Value) :
    Scalar (logical word f v w) := by
  unfold logical
  split
  · exact scalar_of rfl
  · exact gives_error _

theorem scalar_apply (op : BinaryOperator) (v w : Value) : Scalar (op.apply v w) := by
  cases op with
  | power =>
    exact scalar_onPair (fun _ _ => gives_ite (scalar_of rfl) (scalar_of rfl))
      (fun _ _ => scalar_of rfl) (fun _ _ => scalar_of rfl) v w
  | multiply | subtract =>
    exact scalar_onPair (fun _ _ => scalar_of rfl) (fun _ _ => scalar_of rfl)
      (fun _ _ => scalar_of rfl) v w
  | divide =>
    exact scalar_onPair scalar_integerQuotient (fun _ _ => scalar_of rfl)
      (fun _ _ => gives_ite (gives_error _) (scalar_of rfl)) v w
  | divideInt =>
    exact scalar_onPair scalar_integerQuotient
      (fun _ _ => gives_ite (gives_error _) (gives_ite (scalar_of rfl) (gives_error _)))
      (fun _ _ => gives_error _) v w
  | modulo =>
    exact scalar_onPair (fun _ _ => gives_ite (gives_error _) (scalar_of rfl))
      (fun _ _ => scalar_of rfl) (fun _ _ => gives_error _) v w
  | add => exact scalar_sum v w
  | equal | notEqual | less | lessEqual | greater | greaterEqual =>
    exact gives_then fun _ => scalar_of rfl
  | and | or | xor => exact scalar_logical _ _ v w

theorem scalar_negate (v : Value) : Scalar v.negate := by
  cases v <;> first | exact scalar_of rfl | exact gives_error _

theorem scalar_not (v : Value) : Scalar v.not := by
  cases v <;> first | exact scalar_of rfl | exact gives_error _

theorem scalar_rounded (x : Float) : Scalar ((Value.real x).coerce .integer) := by
  rw [coerce, if_neg (by simp [kind])]
  exact gives_then fun _ => scalar_of rfl

end Value

theorem isScalar_val (s : String) : (Excerpt.val s).isScalar = true := by
  unfold Excerpt.val
  dsimp only
  split
  · split
    · rfl
    · split
      · rfl
      · split <;> rfl
  · split
    · rfl
    · split <;> rfl

theorem scalar_compute (view : View) (args : List Value) (b : Builtin) :
    Scalar (b.compute view args) := by
  unfold Builtin.compute
  dsimp only
  generalize args.getD 0 (.integer 0) = v
  generalize args.getD 1 (.integer 0) = w
  cases b with
  | inkey | timer | time | date | str => exact scalar_of rfl
  | keydown | ucase | lcase | trim | fix | tan | atn | real | imag | conj | arg | lbound | ubound =>
    exact gives_then fun _ => scalar_of rfl
  | val => exact gives_then fun _ => scalar_of (isScalar_val _)
  | eof | tell | left | right | chr | asc =>
    exact gives_then fun _ => gives_then fun _ => scalar_of rfl
  | instr => exact gives_then fun _ => gives_then fun _ => gives_then fun _ => scalar_of rfl
  | mid =>
    exact gives_then fun _ => gives_then fun _ =>
      gives_ite (gives_error _) (gives_then fun _ => scalar_of rfl)
  | abs | len => cases v <;> first | exact scalar_of rfl | exact gives_error _
  | sgn =>
    cases v with
    | integer n => exact scalar_of rfl
    | real x =>
      refine scalar_of ?_
      split
      · rfl
      · split <;> rfl
    | string | complex | array | record => exact gives_error _
  | exp | sin | cos =>
    cases v <;> first | exact scalar_of rfl | exact gives_then fun _ => scalar_of rfl
  | sqrt | log =>
    cases v with
    | complex z => exact scalar_of rfl
    | integer | real | string | array | record =>
      refine gives_then fun x => scalar_of ?_
      split <;> rfl
  | int =>
    cases v <;> first | exact scalar_of rfl | exact gives_then fun _ => Value.scalar_rounded _
  | round =>
    exact gives_then fun _ => gives_then fun _ =>
      gives_ite (Value.scalar_rounded _) (scalar_of rfl)

/-! ## Variables -/

namespace Variables

/-- Every value that is stored keeps to the limit, in the globals and in every call. -/
structure Within (vars : Variables) : Prop where
  globals : vars.globals.All fun _ v => v.Within
  locals : ∀ scope ∈ vars.scopes.items, scope.locals.All fun _ v => v.Within

variable {vars vars' : Variables} {v : Value}

theorem within_empty : ({} : Variables).Within :=
  ⟨Table.all_empty, fun _ hmem => (List.not_mem_nil hmem).elim⟩

theorem Within.fetch (h : vars.Within) {c : Cell} (hf : vars.fetch c = some v) : v.Within := by
  cases c with
  | global key => exact h.globals.get? hf
  | «local» level key =>
    obtain ⟨scope, hscope, hv⟩ := Option.bind_eq_some_iff.1 hf
    exact (h.locals scope (List.mem_of_getElem? hscope)).get? hv

theorem Within.peek (h : vars.Within) (name : Name) : (vars.peek name).Within := by
  unfold Variables.peek
  cases hv : vars.lookup name with
  | none => exact Value.within_defaultFor name
  | some v => exact h.fetch hv

theorem Within.element (h : vars.Within) (name : Name) (is : List Int64) :
    Gives Value.Within (vars.element name is) := by
  unfold Variables.element
  split
  · rename_i a ha
    exact Grid.gives_get (h.fetch ha) is
  · exact gives_error _
  · exact Grid.gives_get (Grid.within_dynamic _) is

theorem Within.store (h : vars.Within) (hv : v.Within) (c : Cell) : (vars.store v c).Within := by
  cases c with
  | global key => exact ⟨h.globals.insert hv, h.locals⟩
  | «local» level key =>
    refine ⟨h.globals, fun scope hmem => ?_⟩
    obtain ⟨old, hold, rfl | rfl⟩ := mem_scopes_store hmem
    · exact h.locals _ hold
    · exact (h.locals _ hold).insert hv

/-- The cell of a name with its value. -/
theorem Within.slot (h : vars.Within) (name : Name) :
    (vars.slot name).2.2.Within ∧ (vars.slot name).2.1.Within := by
  have hdefault := Value.within_defaultFor name
  unfold Variables.slot
  dsimp only
  split
  · rename_i v hv
    exact ⟨h, h.fetch hv⟩
  · exact ⟨h.store hdefault _, hdefault⟩

theorem Within.enterCall (h : vars.Within) {returnLine : Option Nat} {aliases : List (Name × Name)}
    (he : vars.enterCall returnLine aliases = .ok vars') : vars'.Within := by
  obtain ⟨hitems, hglobals⟩ := enterCall_eq_ok he
  refine ⟨hglobals ▸ h.globals, fun scope hmem => ?_⟩
  rw [hitems] at hmem
  rcases List.mem_append.1 hmem with hmem | hmem
  · exact h.locals scope hmem
  · cases List.mem_singleton.1 hmem
    exact Table.all_empty

theorem Within.cutTo (h : vars.Within) (depth : Nat) : (vars.cutTo depth).Within :=
  ⟨h.globals, fun scope hmem => h.locals scope (List.mem_of_mem_take hmem)⟩

end Variables

/-! ## Expressions -/

namespace Expression

mutual

/-- No array literal in the expression is longer than an array may be. -/
def listsFit : Expression → Bool
  | .integer _ | .real _ | .string _ | .imaginary _ | .variable _ => true
  | .element _ indexes => allListsFit indexes
  | .member e _ => e.listsFit
  | .array items => items.length ≤ maxItems && allListsFit items
  | .record members => membersListsFit members
  | .call _ args => allListsFit args
  | .negate e | .not e => e.listsFit
  | .binary _ l r => l.listsFit && r.listsFit

def allListsFit : List Expression → Bool
  | [] => true
  | e :: es => e.listsFit && allListsFit es

def membersListsFit : List (Name × Expression) → Bool
  | [] => true
  | (_, e) :: rest => e.listsFit && membersListsFit rest

end

end Expression

namespace Eval

variable {α β : Type} {R : α → Prop} {Q : β → Prop} {view : View}

/-- Whatever the evaluation yields has `R`. -/
def Yields (view : View) (R : α → Prop) (x : Eval α) : Prop :=
  ∀ t a t', x view t = .ok a t' → R a

theorem yields_pure {a : α} (h : R a) : Yields view R (pure a) := by
  intro t b t' hb
  cases hb
  exact h

theorem yields_throw (e : Error) : Yields view R (throw e) := nofun

theorem yields_ofExcept {x : Except Error α} (h : Gives R x) : Yields view R (ofExcept x) := by
  cases x with
  | ok a => exact yields_pure (h a rfl)
  | error e => exact yields_throw e

theorem yields_bind {x : Eval α} {f : α → Eval β} (hx : Yields view R x)
    (hf : ∀ a, R a → Yields view Q (f a)) : Yields view Q (x >>= f) := by
  intro t b t' hb
  cases ha : x view t with
  | ok a u =>
    rw [bind_of_ok ha] at hb
    exact hf a (hx t a u ha) u b t' hb
  | error e u =>
    rw [bind_of_error ha] at hb
    cases hb

/-- The common case: nothing is known about what the first part yields. -/
theorem yields_then {x : Eval α} {f : α → Eval β} (hf : ∀ a, Yields view Q (f a)) :
    Yields view Q (x >>= f) :=
  yields_bind (R := fun _ => True) (fun _ _ _ _ => trivial) fun a _ => hf a

theorem yields_scalar {x : Except Error Value} (h : Scalar x) :
    Yields view Value.Within (ofExcept x) :=
  yields_ofExcept fun v hv => .scalar (h v hv)

theorem yields_get (h : view.variables.Within) (name : Name) :
    Yields view Value.Within (get name) := by
  intro t v t' hv
  cases hv
  exact h.peek name

theorem yields_element (h : view.variables.Within) (name : Name) (is : List Int64) :
    Yields view Value.Within (element name is) := by
  refine yields_then fun _ t v t' hv => ?_
  exact yields_ofExcept (h.element name is) t v t' hv

theorem yields_call (name : Name) (args : List Value) :
    Yields view Value.Within (call name args) := by
  unfold call
  dsimp only
  split
  · exact yields_throw _
  · split
    · split
      · exact yields_then fun _ => yields_then fun _ => yields_pure (.scalar rfl)
      · exact yields_then fun _ => yields_scalar (scalar_compute _ _ _)
      · exact yields_throw _
    · exact yields_throw _

mutual

/-- What an expression stands for keeps to the limit if its literals do. -/
theorem yields_evaluate (h : view.variables.Within) : (e : Expression) → e.listsFit = true →
    Yields view Value.Within (evaluate e)
  | .integer _, _ | .real _, _ | .string _, _ | .imaginary _, _ => yields_pure (.scalar rfl)
  | .variable name, _ => yields_get h name
  | .element name indexes, _ => yields_then fun is => yields_element h _ is
  | .member e field, hfit =>
    yields_bind (yields_evaluate h e hfit) fun _ hv => yields_ofExcept (Value.gives_member field hv)
  | .array items, hfit => by
    obtain ⟨hlength, hitems⟩ := (Bool.and_eq_true _ _).mp hfit
    refine yields_bind (yields_evaluateAll h items hitems) fun vs hvs => ?_
    have hvs' : vs.length ≤ maxItems := hvs.1 ▸ of_decide_eq_true hlength
    exact yields_bind (yields_ofExcept (Grid.gives_ofItems _ hvs' hvs.2)) fun _ ha => yields_pure ha
  | .record members, hfit =>
    yields_bind (yields_evaluateMembers h {} members Table.all_empty hfit) fun _ hm =>
      yields_pure (Value.within_record.2 hm)
  | .call function args, _ => yields_then fun vs => yields_call function vs
  | .negate e, _ => yields_then fun v => yields_scalar v.scalar_negate
  | .not e, _ => yields_then fun v => yields_scalar v.scalar_not
  | .binary op l r, _ =>
    yields_then fun v => yields_then fun w => yields_scalar (Value.scalar_apply op v w)

theorem yields_evaluateAll (h : view.variables.Within) : (es : List Expression) →
    Expression.allListsFit es = true →
    Yields view (fun vs => vs.length = es.length ∧ ∀ v ∈ vs, v.Within) (evaluateAll es)
  | [], _ => yields_pure ⟨rfl, by simp⟩
  | e :: es, hfit => by
    obtain ⟨he, hes⟩ := (Bool.and_eq_true _ _).mp hfit
    refine yields_bind (yields_evaluate h e he) fun v hv => ?_
    refine yields_bind (yields_evaluateAll h es hes) fun vs hvs => yields_pure ⟨?_, ?_⟩
    · simp [hvs.1]
    · exact List.forall_mem_cons.2 ⟨hv, hvs.2⟩

theorem yields_evaluateMembers (h : view.variables.Within) : (sofar : Table Name Value) →
    (members : List (Name × Expression)) → sofar.All (fun _ v => v.Within) →
    Expression.membersListsFit members = true →
    Yields view (fun t => t.All fun _ v => v.Within) (evaluateMembers sofar members)
  | _, [], hsofar, _ => yields_pure hsofar
  | sofar, (name, e) :: rest, hsofar, hfit => by
    obtain ⟨he, hrest⟩ := (Bool.and_eq_true _ _).mp hfit
    refine yields_bind (yields_evaluate h e he) fun v hv => ?_
    exact yields_evaluateMembers h _ rest (hsofar.insert hv) hrest

end

theorem yields_read (h : view.variables.Within) (l : Location) :
    Yields view Value.Within l.read := by
  cases l with
  | «variable» name => exact yields_get h name
  | element name indexes => exact yields_then fun is => yields_element h _ is
  | member name path =>
    exact yields_bind (yields_get h name) fun v hv => yields_ofExcept (Value.gives_memberAt path hv)

end Eval

end LineBasic
