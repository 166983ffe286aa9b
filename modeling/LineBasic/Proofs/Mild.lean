-- Evaluating an expression never fails with a structural error: the numbers,
-- operators, functions and arrays of the language raise only errors that a
-- TRY block can take, and note no line in them.
import LineBasic.Evaluation

namespace LineBasic

/-- An error that a TRY block can take. -/
def Error.Mild (e : Error) : Prop := e.isStructural = false

/-- A mild error as it arises: no line is noted in it yet. -/
def Error.Fresh (e : Error) : Prop := (e.isStructural || e.line.isSome) = false

namespace Error.Fresh

variable {e : Error}

theorem mild (h : e.Fresh) : e.Mild := (Bool.or_eq_false_iff.1 h).1

theorem line (h : e.Fresh) : e.line = none := by
  simpa using (Bool.or_eq_false_iff.1 h).2

end Error.Fresh

/-- A computation that fails only with mild errors, and notes no line in them. -/
def MildExcept {α : Type} (x : Except Error α) : Prop := ∀ e, x = .error e → e.Fresh

section Rules

variable {α β : Type}

@[simp] theorem mildExcept_ok (a : α) : MildExcept (.ok a : Except Error α) := by
  intro e h
  cases h

@[simp] theorem mildExcept_pure (a : α) : MildExcept (pure a : Except Error α) := mildExcept_ok a

@[simp] theorem mildExcept_error (e : Error) :
    MildExcept (.error e : Except Error α) ↔ e.Fresh := by
  constructor
  · intro h
    exact h e rfl
  · intro h e' he
    cases he
    exact h

theorem mildExcept_bind {x : Except Error α} {f : α → Except Error β} (hx : MildExcept x)
    (hf : ∀ a, MildExcept (f a)) : MildExcept (x >>= f) := by
  cases x with
  | ok a => exact hf a
  | error e => exact (mildExcept_error e).2 (hx e rfl)

theorem mildExcept_mapM {f : α → Except Error β} (hf : ∀ a, MildExcept (f a)) (l : List α) :
    MildExcept (l.mapM f) := by
  induction l with
  | nil => simp
  | cons a rest ih =>
    rw [List.mapM_cons]
    exact mildExcept_bind (hf a) fun _ => mildExcept_bind ih fun _ => mildExcept_pure _

end Rules

/-! ## Values -/

theorem mild_integerOfReal (x : Float) : MildExcept (integerOfReal x) := by
  unfold integerOfReal
  split
  · exact mildExcept_ok _
  · exact (mildExcept_error _).2 rfl

namespace Value

theorem mild_toReal (v : Value) : MildExcept v.toReal := by
  unfold toReal
  split
  case h_3 =>
    split
    · exact mildExcept_ok _
    · exact (mildExcept_error _).2 rfl
  all_goals first
    | exact mildExcept_ok _
    | exact (mildExcept_error _).2 rfl

theorem mild_toComplex (v : Value) : MildExcept v.toComplex := by
  unfold toComplex
  split
  · exact mildExcept_ok _
  · exact mildExcept_bind (mild_toReal _) fun _ => mildExcept_pure _

theorem mild_coerce (v : Value) (target : Kind) : MildExcept (v.coerce target) := by
  unfold coerce
  split
  · exact mildExcept_ok _
  · split
    case h_3 => exact mildExcept_bind (mild_integerOfReal _) fun _ => mildExcept_pure _
    case h_5 =>
      split
      · exact mildExcept_ok _
      · exact (mildExcept_error _).2 rfl
    case h_6 =>
      split
      · exact mildExcept_bind (mild_integerOfReal _) fun _ => mildExcept_pure _
      · exact (mildExcept_error _).2 rfl
    case h_7 => split <;> exact (mildExcept_error _).2 rfl
    all_goals first
      | exact mildExcept_ok _
      | exact (mildExcept_error _).2 rfl

/-- A value that was converted has the type it was converted to. -/
theorem kind_of_coerce {v w : Value} {target : Kind} (h : v.coerce target = .ok w) :
    w.kind = target := by
  unfold coerce at h
  split at h
  · rename_i hk
    cases h
    exact hk
  · split at h
    case h_3 x hk =>
      cases hi : integerOfReal x with
      | ok n => rw [hi] at h; cases h; rfl
      | error e => rw [hi] at h; cases h
    case h_5 z hk =>
      split at h
      · cases h; rfl
      · cases h
    case h_6 z hk =>
      split at h
      · cases hi : integerOfReal z.re with
        | ok n => rw [hi] at h; cases h; rfl
        | error e => rw [hi] at h; cases h
      · cases h
    all_goals first
      | (cases h; rfl)
      | cases h

/-- A value that converts to an INTEGER is one, so the last branch of `toInteger` is dead. -/
theorem mild_toInteger (v : Value) : MildExcept v.toInteger := by
  unfold toInteger
  cases hc : v.coerce .integer with
  | error e => exact (mildExcept_error e).2 (mild_coerce v .integer e hc)
  | ok w =>
    have hk := kind_of_coerce hc
    cases w with
    | integer n => exact mildExcept_ok n
    | real | string | complex | array | record => cases hk

theorem mild_toCount (v : Value) : MildExcept v.toCount := by
  refine mildExcept_bind (mild_toInteger v) fun n => ?_
  split
  · exact (mildExcept_error _).2 rfl
  · exact mildExcept_ok _

theorem mild_toText (v : Value) : MildExcept v.toText := by
  unfold toText
  split
  · exact mildExcept_ok _
  · exact (mildExcept_error _).2 rfl

theorem mild_compare (v w : Value) : MildExcept (v.compare w) := by
  unfold compare
  split
  case h_3 | h_4 => exact mildExcept_bind (mild_toComplex _) fun _ => mildExcept_pure _
  all_goals first
    | exact mildExcept_ok _
    | exact (mildExcept_error _).2 rfl

/-! ## Operators -/

theorem mild_promote (v w : Value) : MildExcept (promote v w) := by
  unfold promote
  split
  · exact mildExcept_ok _
  · exact mildExcept_bind (mild_toComplex _) fun _ => mildExcept_pure _
  · exact mildExcept_bind (mild_toComplex _) fun _ => mildExcept_pure _
  · exact mildExcept_bind (mild_toReal _) fun _ =>
      mildExcept_bind (mild_toReal _) fun _ => mildExcept_pure _

theorem mild_integerQuotient (l r : Int64) : MildExcept (integerQuotient l r) := by
  unfold integerQuotient
  split
  · exact (mildExcept_error _).2 rfl
  · exact mildExcept_ok _

/-- An operator on two numbers is mild if it is on every pair of one type. -/
theorem mild_onPair {f : Pair → Except Error Value} (hf : ∀ x, MildExcept (f x)) (v w : Value) :
    MildExcept (promote v w >>= f) :=
  mildExcept_bind (mild_promote v w) hf

theorem mild_sum (v w : Value) : MildExcept (v.sum w) := by
  unfold sum
  split
  · exact mildExcept_ok _
  · exact mildExcept_ok _
  · refine mild_onPair (fun x => ?_) _ _
    cases x <;> exact mildExcept_pure _

theorem mild_divide (v w : Value) : MildExcept (v.divide w) := by
  refine mild_onPair (fun x => ?_) _ _
  cases x with
  | integers l r => exact mild_integerQuotient l r
  | reals l r => exact mildExcept_pure _
  | complexes l r =>
    dsimp only
    split
    · exact (mildExcept_error _).2 rfl
    · exact mildExcept_pure _

theorem mild_divideInt (v w : Value) : MildExcept (v.divideInt w) := by
  refine mild_onPair (fun x => ?_) _ _
  cases x with
  | integers l r => exact mild_integerQuotient l r
  | reals l r =>
    dsimp only
    split
    · exact (mildExcept_error _).2 rfl
    · split
      · exact mildExcept_pure _
      · exact (mildExcept_error _).2 rfl
  | complexes l r => exact (mildExcept_error _).2 rfl

theorem mild_modulo (v w : Value) : MildExcept (v.modulo w) := by
  refine mild_onPair (fun x => ?_) _ _
  cases x with
  | integers l r =>
    dsimp only
    split
    · exact (mildExcept_error _).2 rfl
    · exact mildExcept_pure _
  | reals l r => exact mildExcept_pure _
  | complexes l r => exact (mildExcept_error _).2 rfl

theorem mild_power (v w : Value) : MildExcept (v.power w) := by
  refine mild_onPair (fun x => ?_) _ _
  cases x with
  | integers l r =>
    dsimp only
    split <;> exact mildExcept_pure _
  | reals l r => exact mildExcept_pure _
  | complexes l r => exact mildExcept_pure _

theorem mild_ordered (v w : Value) : MildExcept (ordered v w) := by
  unfold ordered
  split
  · exact (mildExcept_error _).2 rfl
  · exact (mildExcept_error _).2 rfl
  · exact mild_compare _ _

theorem mild_logical (word : String) (f : Int64 → Int64 → Int64) (v w : Value) :
    MildExcept (logical word f v w) := by
  unfold logical
  split
  · exact mildExcept_ok _
  · exact (mildExcept_error _).2 rfl

theorem mild_negate (v : Value) : MildExcept v.negate := by
  cases v <;> first | exact mildExcept_ok _ | exact (mildExcept_error _).2 rfl

theorem mild_not (v : Value) : MildExcept v.not := by
  cases v <;> first | exact mildExcept_ok _ | exact (mildExcept_error _).2 rfl

end Value

theorem mild_apply (op : BinaryOperator) (v w : Value) : MildExcept (op.apply v w) := by
  cases op with
  | power => exact Value.mild_power v w
  | divide => exact Value.mild_divide v w
  | divideInt => exact Value.mild_divideInt v w
  | modulo => exact Value.mild_modulo v w
  | add => exact Value.mild_sum v w
  | multiply | subtract =>
    refine Value.mild_onPair (fun x => ?_) _ _
    cases x <;> exact mildExcept_pure _
  | equal | notEqual => exact mildExcept_bind (Value.mild_compare v w) fun _ => mildExcept_pure _
  | less | lessEqual | greater | greaterEqual =>
    exact mildExcept_bind (Value.mild_ordered v w) fun _ => mildExcept_pure _
  | and | or | xor => exact Value.mild_logical _ _ v w

/-! ## Arrays, structures and files -/

theorem mild_coerceAll (target : Kind) (vs : List Value) : MildExcept (coerceAll target vs) :=
  mildExcept_mapM (fun v => Value.mild_coerce v target) vs

theorem mild_member (field : Name) (v : Value) : MildExcept (v.member field) := by
  unfold Value.member
  split
  · split
    · exact mildExcept_ok _
    · exact (mildExcept_error _).2 rfl
  · exact (mildExcept_error _).2 rfl

theorem mild_memberAt (v : Value) (path : List Name) : MildExcept (v.memberAt path) := by
  induction path generalizing v with
  | nil => exact mildExcept_ok _
  | cons field rest ih => exact mildExcept_bind (mild_member field v) fun w => ih w

namespace Grid

theorem mild_ofItems (element : Kind) (items : List Value) : MildExcept (ofItems element items) :=
  mildExcept_bind (mild_coerceAll element items) fun _ => mildExcept_pure _

theorem mild_placeOn (is : List Int64) (xs : List Axis) : MildExcept (placeOn is xs) := by
  induction is generalizing xs with
  | nil => exact mildExcept_ok _
  | cons i is ih =>
    cases xs with
    | nil => exact mildExcept_ok _
    | cons x xs =>
      rw [placeOn]
      split
      · exact mildExcept_bind (ih xs) fun _ => mildExcept_pure _
      · exact (mildExcept_error _).2 rfl

theorem mild_place (a : Grid Value) (is : List Int64) : MildExcept (a.place is) := by
  unfold place
  split
  · split
    · split
      · exact (mildExcept_error _).2 rfl
      · exact mildExcept_ok _
    · exact (mildExcept_error _).2 rfl
  · split
    · exact (mildExcept_error _).2 rfl
    · exact mild_placeOn is a.axes

theorem mild_get (a : Grid Value) (is : List Int64) : MildExcept (a.get is) := by
  refine mildExcept_bind (mild_place a is) fun i => ?_
  split
  · exact mildExcept_pure _
  · exact (mildExcept_error _).2 rfl

theorem mild_set (a : Grid Value) (is : List Int64) (v : Value) : MildExcept (a.set is v) := by
  rw [set_def]
  refine mildExcept_bind (Value.mild_coerce v a.element) fun w => ?_
  refine mildExcept_bind (mild_place a is) fun i => ?_
  split
  · exact mildExcept_pure _
  · split
    · exact (mildExcept_error _).2 rfl
    · split
      · exact (mildExcept_error _).2 rfl
      · exact mildExcept_pure _

theorem mild_retype (a : Grid Value) (element : Kind) : MildExcept (a.retype element) := by
  unfold retype
  split
  · exact mildExcept_pure _
  · exact mildExcept_bind (mild_coerceAll _ _) fun _ => mildExcept_pure _

theorem mild_bounds (a : Grid Value) (axis : Nat) : MildExcept (a.bounds axis) := by
  unfold bounds
  split
  · split
    · exact mildExcept_ok _
    · exact (mildExcept_error _).2 rfl
  · split
    · exact (mildExcept_error _).2 rfl
    · split
      · exact mildExcept_ok _
      · exact (mildExcept_error _).2 rfl

theorem mild_layOut (bounds : List (Int64 × Nat)) : MildExcept (layOut bounds) := by
  induction bounds with
  | nil => exact mildExcept_ok _
  | cons b rest ih =>
    refine mildExcept_bind ih fun ⟨axes, stride⟩ => ?_
    dsimp only
    split
    · exact mildExcept_pure _
    · exact (mildExcept_error _).2 rfl

theorem mild_dimensioned (element : Kind) (bounds : List (Int64 × Nat)) :
    MildExcept (dimensioned element bounds) := by
  refine mildExcept_bind (mild_layOut bounds) fun ⟨axes, size⟩ => ?_
  dsimp only
  split
  · exact (mildExcept_error _).2 rfl
  · exact mildExcept_pure _

theorem mild_requireDynamic (a : Grid Value) : MildExcept a.requireDynamic := by
  unfold requireDynamic
  split
  · exact mildExcept_ok _
  · exact (mildExcept_error _).2 rfl

theorem mild_requireRoom (a : Grid Value) : MildExcept a.requireRoom := by
  unfold requireRoom
  split
  · exact mildExcept_ok _
  · exact (mildExcept_error _).2 rfl

theorem mild_push (a : Grid Value) (v : Value) : MildExcept (a.push v) := by
  rw [push_def]
  exact mildExcept_bind (mild_requireDynamic a) fun _ => mildExcept_bind (mild_requireRoom a) fun _ =>
    mildExcept_bind (Value.mild_coerce v a.element) fun _ => mildExcept_pure _

theorem mild_unshift (a : Grid Value) (v : Value) : MildExcept (a.unshift v) := by
  rw [unshift_def]
  exact mildExcept_bind (mild_requireDynamic a) fun _ => mildExcept_bind (mild_requireRoom a) fun _ =>
    mildExcept_bind (Value.mild_coerce v a.element) fun _ => mildExcept_pure _

theorem mild_pop (a : Grid Value) : MildExcept a.pop := by
  rw [pop_def]
  exact mildExcept_bind (mild_requireDynamic a) fun _ => mildExcept_pure _

theorem mild_shift (a : Grid Value) : MildExcept a.shift := by
  rw [shift_def]
  exact mildExcept_bind (mild_requireDynamic a) fun _ => mildExcept_pure _

end Grid

theorem mild_element (vars : Variables) (name : Name) (is : List Int64) :
    MildExcept (vars.element name is) := by
  unfold Variables.element
  split
  · exact Grid.mild_get _ _
  · exact (mildExcept_error _).2 rfl
  · exact Grid.mild_get _ _

theorem mild_handle (f : Files) (h : Int64) : MildExcept (f.handle h) := by
  unfold Files.handle
  split
  · exact mildExcept_ok _
  · exact (mildExcept_error _).2 rfl

/-! ## Functions -/

theorem mild_boundsOf (word : String) (v axis : Value) :
    MildExcept (Builtin.boundsOf word v axis) := by
  unfold Builtin.boundsOf
  split
  · exact mildExcept_bind (Value.mild_toCount axis) fun _ => Grid.mild_bounds _ _
  · exact (mildExcept_error _).2 rfl

/-- A value that is turned into a REAL first fails only if that fails. -/
theorem mild_viaReal (v : Value) (g : Float → Value) :
    MildExcept (do return g (← v.toReal)) :=
  mildExcept_bind (Value.mild_toReal v) fun _ => mildExcept_pure _

theorem mild_chr (code : Int64) : MildExcept (Excerpt.chr code) := by
  by_cases h : 0 ≤ code.toInt ∧ code.toInt.toNat.isValidChar
  · have hchr : Excerpt.chr code = .ok _ := dif_pos h
    rw [hchr]
    exact mildExcept_ok _
  · have hchr : Excerpt.chr code = .error _ := dif_neg h
    rw [hchr]
    exact (mildExcept_error _).2 rfl

theorem mild_asc (s : String) : MildExcept (Excerpt.asc s) := by
  unfold Excerpt.asc
  split
  · exact mildExcept_ok _
  · exact (mildExcept_error _).2 rfl

namespace Numeric

theorem mild_int (v : Value) : MildExcept (int v) := by
  cases v with
  | integer n => exact mildExcept_ok _
  | real | string | complex | array | record =>
    exact mildExcept_bind (Value.mild_toReal _) fun _ => Value.mild_coerce _ _

theorem mild_round (x : Float) (places : Int64) : MildExcept (round x places) := by
  unfold round
  split
  · exact Value.mild_coerce _ _
  · exact mildExcept_ok _

end Numeric

theorem mild_compute (view : View) (args : List Value) (b : Builtin) :
    MildExcept (b.compute view args) := by
  unfold Builtin.compute
  dsimp only
  generalize args.getD 0 (.integer 0) = v
  generalize args.getD 1 (.integer 0) = w
  cases b with
  | inkey | timer | time | date | str => exact mildExcept_ok _
  | keydown | ucase | lcase | trim | val =>
    exact mildExcept_bind (Value.mild_toText v) fun _ => mildExcept_pure _
  | eof | tell =>
    exact mildExcept_bind (Value.mild_toInteger v) fun h =>
      mildExcept_bind (mildExcept_bind (mild_handle _ h) fun _ => mildExcept_pure _) fun _ =>
        mildExcept_pure _
  | fix => exact mildExcept_bind (Value.mild_toInteger v) fun _ => mildExcept_pure _
  | tan | atn => exact mild_viaReal v _
  | real | imag | conj | arg =>
    exact mildExcept_bind (Value.mild_toComplex v) fun _ => mildExcept_pure _
  | lbound | ubound => exact mildExcept_bind (mild_boundsOf _ v w) fun _ => mildExcept_pure _
  | left | right =>
    exact mildExcept_bind (Value.mild_toText v) fun _ =>
      mildExcept_bind (Value.mild_toCount w) fun _ => mildExcept_pure _
  | abs | sgn | len => cases v <;> first | exact mildExcept_ok _ | exact (mildExcept_error _).2 rfl
  | sqrt | exp | log | sin | cos => cases v <;> first | exact mildExcept_ok _ | exact mild_viaReal _ _
  | int => exact Numeric.mild_int v
  | round =>
    exact mildExcept_bind (Value.mild_toReal v) fun x =>
      mildExcept_bind (Value.mild_toInteger w) fun n => Numeric.mild_round x n
  | chr =>
    exact mildExcept_bind (Value.mild_toInteger v) fun n =>
      mildExcept_bind (mild_chr n) fun _ => mildExcept_pure _
  | asc =>
    exact mildExcept_bind (Value.mild_toText v) fun s =>
      mildExcept_bind (mild_asc s) fun _ => mildExcept_pure _
  | instr =>
    exact mildExcept_bind (Value.mild_toText v) fun _ =>
      mildExcept_bind (Value.mild_toText w) fun _ =>
        mildExcept_bind (Value.mild_toCount _) fun _ => mildExcept_pure _
  | mid =>
    refine mildExcept_bind (Value.mild_toText v) fun _ =>
      mildExcept_bind (Value.mild_toCount w) fun start => ?_
    split
    · exact (mildExcept_error _).2 rfl
    · refine mildExcept_bind ?_ fun _ => mildExcept_pure _
      cases args[2]? with
      | none => exact mildExcept_pure _
      | some length =>
        exact mildExcept_bind (Value.mild_toCount length) fun _ => mildExcept_pure _

/-- Every name that has an arity also has a function. -/
theorem ofText?_isSome_of_arity {word : String} {arity : Nat × Nat}
    (h : Function.arityOf? word = some arity) : (Function.ofText? word).isSome := by
  unfold Function.arityOf? at h
  split at h
  all_goals first | rfl | cases h

/-! ## Expressions -/

namespace Eval

variable {α β : Type}

/-- An evaluation that fails only with mild errors. -/
def IsMild (x : Eval α) : Prop := ∀ view t e t', x view t = .error e t' → e.Fresh

theorem isMild_pure (a : α) : IsMild (pure a : Eval α) := by
  intro view t e t' h
  cases h

theorem isMild_throw {e : Error} (he : e.Fresh) : IsMild (throw e : Eval α) := by
  intro view t e' t' h
  cases h
  exact he

theorem isMild_ofExcept {x : Except Error α} (hx : MildExcept x) : IsMild (ofExcept x) := by
  cases x with
  | ok a => exact isMild_pure a
  | error e => exact isMild_throw (hx e rfl)

theorem isMild_bind {x : Eval α} {f : α → Eval β} (hx : IsMild x) (hf : ∀ a, IsMild (f a)) :
    IsMild (x >>= f) := by
  intro view t e t' h
  have hb : (x >>= f) view t = EStateM.bind (x view) (fun a => f a view) t := rfl
  rw [hb] at h
  unfold EStateM.bind at h
  cases hr : x view t with
  | ok a u => rw [hr] at h; exact hf a view u e t' h
  | error e' u => rw [hr] at h; cases h; exact hx view t _ _ hr

theorem isMild_read : IsMild (read : Eval View) := by
  intro view t e t' h
  cases h

theorem isMild_remember (name : Name) : IsMild (remember name) := by
  intro view t e t' h
  cases h

theorem isMild_get (name : Name) : IsMild (get name) :=
  isMild_bind (isMild_remember name) fun _ => isMild_bind isMild_read fun _ => isMild_pure _

theorem isMild_element (name : Name) (is : List Int64) : IsMild (element name is) :=
  isMild_bind (isMild_remember name) fun _ => isMild_bind isMild_read fun _ =>
    isMild_ofExcept (mild_element _ name is)

theorem isMild_draw : IsMild draw := by
  intro view t e t' h
  cases h

/-- A function that takes as many arguments as it was given is found. -/
theorem isMild_call (name : Name) (args : List Value) : IsMild (call name args) := by
  unfold call
  dsimp only
  split
  · exact isMild_throw rfl
  · rename_i least most ha
    have hf := ofText?_isSome_of_arity ha
    split
    · split
      · exact isMild_draw
      · exact isMild_bind isMild_read fun _ => isMild_ofExcept (mild_compute _ _ _)
      · rename_i hn
        rw [hn] at hf
        cases hf
    · exact isMild_throw rfl

end Eval

open Eval in
mutual

theorem isMild_evaluate : (e : Expression) → IsMild (evaluate e)
  | .integer _ | .real _ | .string _ | .imaginary _ => by
    rw [evaluate]
    exact isMild_pure _
  | .variable name => by
    rw [evaluate]
    exact isMild_get name
  | .element name indexes => by
    rw [evaluate]
    exact isMild_bind (isMild_evaluateIndexes indexes) fun _ => isMild_element _ _
  | .member record field => by
    rw [evaluate]
    exact isMild_bind (isMild_evaluate record) fun v => isMild_ofExcept (mild_member field v)
  | .array items => by
    rw [evaluate]
    exact isMild_bind (isMild_evaluateAll items) fun vs =>
      isMild_bind (isMild_ofExcept (Grid.mild_ofItems _ vs)) fun _ => isMild_pure _
  | .record members => by
    rw [evaluate]
    exact isMild_bind (isMild_evaluateMembers {} members) fun _ => isMild_pure _
  | .call function args => by
    rw [evaluate]
    exact isMild_bind (isMild_evaluateAll args) fun vs => isMild_call function vs
  | .negate e => by
    rw [evaluate]
    exact isMild_bind (isMild_evaluate e) fun v => isMild_ofExcept v.mild_negate
  | .not e => by
    rw [evaluate]
    exact isMild_bind (isMild_evaluate e) fun v => isMild_ofExcept v.mild_not
  | .binary op l r => by
    rw [evaluate]
    exact isMild_bind (isMild_evaluate l) fun v => isMild_bind (isMild_evaluate r) fun w =>
      isMild_ofExcept (mild_apply op v w)

theorem isMild_evaluateAll : (es : List Expression) → IsMild (evaluateAll es)
  | [] => by
    rw [evaluateAll]
    exact isMild_pure _
  | e :: es => by
    rw [evaluateAll]
    exact isMild_bind (isMild_evaluate e) fun _ => isMild_bind (isMild_evaluateAll es) fun _ =>
      isMild_pure _

theorem isMild_evaluateIndexes : (es : List Expression) → IsMild (evaluateIndexes es)
  | [] => by
    rw [evaluateIndexes]
    exact isMild_pure _
  | e :: es => by
    rw [evaluateIndexes]
    exact isMild_bind (isMild_evaluate e) fun v =>
      isMild_bind (isMild_ofExcept v.mild_toInteger) fun _ =>
        isMild_bind (isMild_evaluateIndexes es) fun _ => isMild_pure _

theorem isMild_evaluateMembers (sofar : Table Name Value) :
    (members : List (Name × Expression)) → IsMild (evaluateMembers sofar members)
  | [] => by
    rw [evaluateMembers]
    exact isMild_pure _
  | (name, e) :: rest => by
    rw [evaluateMembers]
    exact isMild_bind (isMild_evaluate e) fun _ => isMild_evaluateMembers _ rest

end

theorem isMild_readLocation : (l : Location) → Eval.IsMild l.read
  | .variable name => Eval.isMild_get name
  | .element _ indexes =>
    Eval.isMild_bind (isMild_evaluateIndexes indexes) fun _ => Eval.isMild_element _ _
  | .member name path =>
    Eval.isMild_bind (Eval.isMild_get name) fun v => Eval.isMild_ofExcept (mild_memberAt v path)

end LineBasic
