-- What an expression depends on, and what is left behind when it is read. Its
-- value depends on what variables hold, on the keyboard and on the files, on the
-- clock through three functions and on the random numbers through RND. Left
-- behind are the spellings of names and the place in the random numbers, which
-- moves by one for each RND call that was come to.
import LineBasic.Proofs.Twins

namespace LineBasic

/-! ## The two parts of a result -/

section Results

variable {ρ σ α β : Type}

/-- What a computation comes to: a value or an error. -/
def outcomeOf : EStateM.Result Error σ α → Except Error α
  | .ok a _ => .ok a
  | .error e _ => .error e

/-- The state that a computation leaves, whether it fails or not. -/
def stateOf : EStateM.Result Error σ α → σ
  | .ok _ s => s
  | .error _ s => s

theorem result_ext {r r' : EStateM.Result Error σ α} (h : outcomeOf r = outcomeOf r')
    (hs : stateOf r = stateOf r') : r = r' := by
  cases r <;> cases r' <;> cases h <;> cases hs <;> rfl

variable {x : ReaderT ρ (EStateM Error σ) α} {f : α → ReaderT ρ (EStateM Error σ) β}
  {r : ρ} {s t : σ}

theorem bind_of_ok {a : α} (h : x r s = .ok a t) : (x >>= f) r s = f a r t := by
  change EStateM.bind (x r) (fun a => f a r) s = f a r t
  simp only [EStateM.bind, h]

theorem bind_of_error {e : Error} (h : x r s = .error e t) : (x >>= f) r s = .error e t := by
  change EStateM.bind (x r) (fun a => f a r) s = .error e t
  simp only [EStateM.bind, h]

end Results

/-! ## The functions that an expression calls -/

namespace Expression

mutual

/-- Every function that the text of an expression calls passes a test. -/
def callsOnly (ok : String → Bool) : Expression → Bool
  | .integer _ | .real _ | .string _ | .imaginary _ | .variable _ => true
  | .element _ indexes => allCallOnly ok indexes
  | .member e _ => e.callsOnly ok
  | .array items => allCallOnly ok items
  | .record members => membersCallOnly ok members
  | .call function args => ok function.key.text && allCallOnly ok args
  | .negate e | .not e => e.callsOnly ok
  | .binary _ l r => l.callsOnly ok && r.callsOnly ok

def allCallOnly (ok : String → Bool) : List Expression → Bool
  | [] => true
  | e :: es => e.callsOnly ok && allCallOnly ok es

def membersCallOnly (ok : String → Bool) : List (Name × Expression) → Bool
  | [] => true
  | (_, e) :: rest => e.callsOnly ok && membersCallOnly ok rest

end

/-- The functions whose values change from moment to moment. -/
def clockWords : List String := ["TIMER", "TIME$", "DATE$"]

/-- The expression calls neither RND nor a function of the clock. -/
def isFixed (e : Expression) : Bool :=
  e.callsOnly fun word => word ≠ "RND" && !clockWords.contains word

mutual

/-- What reads the clock only if `timed` calls only functions that may then be called. -/
theorem callsOnly_of_timely {timed : Bool} : (e : Expression) → Timely timed e →
    e.callsOnly (fun word => timed || !clockWords.contains word) = true
  | .integer _, _ | .real _, _ | .string _, _ | .imaginary _, _ | .variable _, _ => rfl
  | .element _ indexes, h => allCallOnly_of_timely indexes h
  | .member e _, h => callsOnly_of_timely e h
  | .array items, h => allCallOnly_of_timely items h
  | .record members, h => membersCallOnly_of_timely members h
  | .call function args, h => by
    obtain ⟨hword, hargs⟩ := timely_parts h
    have hok : (timed || !clockWords.contains function.key.text) = true := by
      cases hc : clockWords.contains function.key.text with
      | true => rw [hword hc]; rfl
      | false => rw [Bool.not_false, Bool.or_true]
    rw [callsOnly, hok, allCallOnly_of_timely args hargs]
    rfl
  | .negate e, h => callsOnly_of_timely e h
  | .not e, h => callsOnly_of_timely e h
  | .binary _ l r, h => by
    obtain ⟨hl, hr⟩ := timely_parts h
    rw [callsOnly, callsOnly_of_timely l hl, callsOnly_of_timely r hr]
    rfl

theorem allCallOnly_of_timely {timed : Bool} : (es : List Expression) →
    (anyReadsClock es = true → timed = true) →
    allCallOnly (fun word => timed || !clockWords.contains word) es = true
  | [], _ => rfl
  | e :: es, h => by
    obtain ⟨he, hes⟩ := timely_parts h
    rw [allCallOnly, callsOnly_of_timely e he, allCallOnly_of_timely es hes]
    rfl

theorem membersCallOnly_of_timely {timed : Bool} : (members : List (Name × Expression)) →
    (memberReadsClock members = true → timed = true) →
    membersCallOnly (fun word => timed || !clockWords.contains word) members = true
  | [], _ => rfl
  | (_, e) :: rest, h => by
    obtain ⟨he, hrest⟩ := timely_parts h
    rw [membersCallOnly, callsOnly_of_timely e he, membersCallOnly_of_timely rest hrest]
    rfl

end

end Expression

/-! ## What a value depends on -/

/-- Views that show the same values, keys and files, and one time if `timed`. -/
structure View.Agrees (timed : Bool) (v w : View) : Prop where
  lookup : ∀ name, v.variables.lookup name = w.variables.lookup name
  keyboard : v.keyboard = w.keyboard
  files : v.files = w.files
  clock : timed = true → v.clock = w.clock

namespace View.Agrees

variable {timed : Bool} {v w : View} (h : v.Agrees timed w)

include h

theorem peek (name : Name) : v.variables.peek name = w.variables.peek name := by
  unfold Variables.peek
  rw [h.lookup name]

theorem element (name : Name) (is : List Int64) :
    v.variables.element name is = w.variables.element name is := by
  unfold Variables.element
  rw [h.lookup name]

/-- A function computes the same from two views that agree. -/
theorem compute (args : List Value) {b : Builtin}
    (hb : b = .timer ∨ b = .time ∨ b = .date → timed = true) :
    b.compute v args = b.compute w args := by
  -- No function looks at variables, so those of one view may stand in both.
  have hsame : b.compute w args = b.compute { w with «variables» := v.variables } args := by
    cases b <;> rfl
  have halike : v.Alike timed { w with «variables» := v.variables } :=
    ⟨rfl, h.keyboard, h.files, h.clock⟩
  rw [hsame]
  exact Builtin.compute_eq halike args hb

end View.Agrees

/-- Trails that go side by side: both note the same names, and both draw the same
random numbers if they draw any, which is if `rolling`. -/
structure Trail.Abreast (rolling : Bool) (S : Trail → Trail → Prop) : Prop where
  remember : ∀ t u name, S t u → S (t.remember name) (u.remember name)
  draw : rolling = true → ∀ t u, S t u → t.random = u.random ∧
    S { t with random := t.random.draw.2 } { u with random := u.random.draw.2 }

theorem Trail.abreast_eq : Abreast true (fun t u => t = u) where
  remember := by
    intro t u name h
    rw [h]
  draw := by
    intro _ t u h
    subst h
    exact ⟨rfl, rfl⟩

/-- Trails of evaluations without RND need not have anything in common. -/
theorem Trail.abreast_any : Abreast false (fun _ _ => True) where
  remember := fun _ _ _ h => h
  draw := fun h => Bool.noConfusion h

namespace Eval

variable {α β : Type} {timed rolling : Bool} {S : Trail → Trail → Prop}

/-- An evaluation that comes to the same in views that agree. -/
def Agrees (timed : Bool) (S : Trail → Trail → Prop) (x : Eval α) : Prop :=
  ∀ v w t u, v.Agrees timed w → S t u →
    outcomeOf (x v t) = outcomeOf (x w u) ∧ S (stateOf (x v t)) (stateOf (x w u))

theorem agrees_pure (a : α) : Agrees timed S (pure a : Eval α) := fun _ _ _ _ _ hs => ⟨rfl, hs⟩

theorem agrees_throw (e : Error) : Agrees timed S (throw e : Eval α) :=
  fun _ _ _ _ _ hs => ⟨rfl, hs⟩

theorem agrees_ofExcept (x : Except Error α) : Agrees timed S (ofExcept x) := by
  cases x with
  | ok a => exact agrees_pure a
  | error e => exact agrees_throw e

theorem agrees_bind {x : Eval α} {f : α → Eval β} (hx : Agrees timed S x)
    (hf : ∀ a, Agrees timed S (f a)) : Agrees timed S (x >>= f) := by
  intro v w t u hv hs
  obtain ⟨hsame, hnext⟩ := hx v w t u hv hs
  cases hxt : x v t <;> cases hxu : x w u <;> rw [hxt, hxu] at hsame hnext <;> cases hsame
  · rw [bind_of_ok hxt, bind_of_ok hxu]
    exact hf _ v w _ _ hv hnext
  · rw [bind_of_error hxt, bind_of_error hxu]
    exact ⟨rfl, hnext⟩

/-- What is worked out from a view is the same in views that agree, if it depends
on no more than they agree on. -/
theorem agrees_seen {f : View → Except Error α}
    (hf : ∀ v w, v.Agrees timed w → f v = f w) :
    Agrees timed S (do ofExcept (f (← read)) : Eval α) := by
  intro v w t u hv hs
  have hone := agrees_ofExcept (S := S) (f v) v w t u hv hs
  change outcomeOf (ofExcept (f v) v t) = outcomeOf (ofExcept (f w) w u) ∧
    S (stateOf (ofExcept (f v) v t)) (stateOf (ofExcept (f w) w u))
  rw [← hf v w hv]
  exact hone

section Trails

variable (hS : Trail.Abreast rolling S)

include hS

theorem agrees_remember (name : Name) : Agrees timed S (remember name) :=
  fun _ _ t u _ hs => ⟨rfl, hS.remember t u name hs⟩

theorem agrees_get (name : Name) : Agrees timed S (get name) := by
  refine agrees_bind (agrees_remember hS name) fun _ => ?_
  intro v w t u hv hs
  exact ⟨congrArg Except.ok (hv.peek name), hs⟩

theorem agrees_element (name : Name) (is : List Int64) : Agrees timed S (element name is) :=
  agrees_bind (agrees_remember hS name) fun _ => agrees_seen fun _ _ hv => hv.element name is

theorem agrees_draw (hr : rolling = true) : Agrees timed S draw := by
  intro v w t u _ hs
  obtain ⟨hrandom, hnext⟩ := hS.draw hr t u hs
  refine ⟨?_, hnext⟩
  change Except.ok (Value.real t.random.draw.1) = Except.ok (Value.real u.random.draw.1)
  rw [hrandom]

/-- A call agrees if its name is one of those that may be called. -/
theorem agrees_call (name : Name) (args : List Value)
    (hclock : Expression.clockWords.contains name.key.text = true → timed = true)
    (hrandom : name.key.text = "RND" → rolling = true) : Agrees timed S (call name args) := by
  unfold call
  dsimp only
  split
  · exact agrees_throw _
  · split
    · split
      · rename_i hword
        refine agrees_draw hS (hrandom ?_)
        -- Only one name stands for the random numbers.
        unfold Function.ofText? at hword
        split at hword <;> first | assumption | cases hword
      · rename_i b hb
        refine agrees_seen fun v w hv => ?_
        exact hv.compute args fun hb' => hclock (Function.ofText?_clock hb hb')
      · exact agrees_throw _
    · exact agrees_throw _

end Trails

/-- Names that pass the test stand for functions of the clock only if `timed`, and
for RND only if `rolling`. -/
def Allows (timed rolling : Bool) (ok : String → Bool) : Prop :=
  ∀ word, ok word = true →
    (Expression.clockWords.contains word = true → timed = true) ∧ (word = "RND" → rolling = true)

variable {ok : String → Bool}

mutual

/-- An expression comes to the same in two views that agree on all it may ask for. -/
theorem agrees_evaluate (hS : Trail.Abreast rolling S) (hok : Allows timed rolling ok) :
    (e : Expression) → e.callsOnly ok = true → Agrees timed S (evaluate e)
  | .integer _, _ | .real _, _ | .string _, _ | .imaginary _, _ => agrees_pure _
  | .variable name, _ => agrees_get hS name
  | .element name indexes, h =>
    agrees_bind (agrees_evaluateIndexes hS hok indexes h) fun is => agrees_element hS _ is
  | .member e field, h => agrees_bind (agrees_evaluate hS hok e h) fun v => agrees_ofExcept _
  | .array items, h =>
    agrees_bind (agrees_evaluateAll hS hok items h) fun _ =>
      agrees_bind (agrees_ofExcept _) fun _ => agrees_pure _
  | .record members, h =>
    agrees_bind (agrees_evaluateMembers hS hok {} members h) fun _ => agrees_pure _
  | .call function args, h => by
    obtain ⟨hword, hargs⟩ := (Bool.and_eq_true _ _).mp h
    refine agrees_bind (agrees_evaluateAll hS hok args hargs) fun vs => ?_
    exact agrees_call hS function vs (hok _ hword).1 (hok _ hword).2
  | .negate e, h => agrees_bind (agrees_evaluate hS hok e h) fun _ => agrees_ofExcept _
  | .not e, h => agrees_bind (agrees_evaluate hS hok e h) fun _ => agrees_ofExcept _
  | .binary op l r, h => by
    obtain ⟨hl, hr⟩ := (Bool.and_eq_true _ _).mp h
    exact agrees_bind (agrees_evaluate hS hok l hl) fun _ =>
      agrees_bind (agrees_evaluate hS hok r hr) fun _ => agrees_ofExcept _

theorem agrees_evaluateAll (hS : Trail.Abreast rolling S) (hok : Allows timed rolling ok) :
    (es : List Expression) → Expression.allCallOnly ok es = true → Agrees timed S (evaluateAll es)
  | [], _ => agrees_pure _
  | e :: es, h => by
    obtain ⟨he, hes⟩ := (Bool.and_eq_true _ _).mp h
    exact agrees_bind (agrees_evaluate hS hok e he) fun _ =>
      agrees_bind (agrees_evaluateAll hS hok es hes) fun _ => agrees_pure _

theorem agrees_evaluateIndexes (hS : Trail.Abreast rolling S) (hok : Allows timed rolling ok) :
    (es : List Expression) → Expression.allCallOnly ok es = true →
    Agrees timed S (evaluateIndexes es)
  | [], _ => agrees_pure _
  | e :: es, h => by
    obtain ⟨he, hes⟩ := (Bool.and_eq_true _ _).mp h
    exact agrees_bind (agrees_evaluate hS hok e he) fun _ =>
      agrees_bind (agrees_ofExcept _) fun _ =>
        agrees_bind (agrees_evaluateIndexes hS hok es hes) fun _ => agrees_pure _

theorem agrees_evaluateMembers (hS : Trail.Abreast rolling S) (hok : Allows timed rolling ok) :
    (sofar : Table Name Value) → (members : List (Name × Expression)) →
    Expression.membersCallOnly ok members = true →
    Agrees timed S (evaluateMembers sofar members)
  | _, [], _ => agrees_pure _
  | sofar, (name, e) :: rest, h => by
    obtain ⟨he, hrest⟩ := (Bool.and_eq_true _ _).mp h
    exact agrees_bind (agrees_evaluate hS hok e he) fun v =>
      agrees_evaluateMembers hS hok _ rest hrest

end

end Eval

/-! ## How many random numbers are drawn -/

/-- The random numbers after some more draws. -/
def Generator.after (g : Generator) (n : Nat) : Generator := { g with drawn := g.drawn + n }

theorem Generator.after_after (g : Generator) (m n : Nat) :
    (g.after m).after n = g.after (m + n) := by
  simp [after, Nat.add_assoc]

namespace Eval

variable {α β : Type}

/-- What is counted after `x` comes to a value; after an error nothing is. -/
def thenCount (x : Eval α) (v : View) (t : Trail) (count : α → Trail → Nat) : Nat :=
  match x v t with
  | .ok a u => count a u
  | .error _ _ => 0

end Eval

namespace Expression

mutual

/-- How many RND calls are made when an expression is evaluated. What stands after
a part that fails is not come to. -/
def draws (v : View) : Expression → Trail → Nat
  | .integer _, _ | .real _, _ | .string _, _ | .imaginary _, _ | .variable _, _ => 0
  | .element _ indexes, t => indexesDraw v indexes t
  | .member e _, t => e.draws v t
  | .array items, t => allDraw v items t
  | .record members, t => membersDraw v members t
  | .call function args, t =>
    allDraw v args t + (evaluateAll args).thenCount v t fun vs _ =>
      if function.key.text = "RND" ∧ vs.isEmpty then 1 else 0
  | .negate e, t | .not e, t => e.draws v t
  | .binary _ l r, t => l.draws v t + (evaluate l).thenCount v t fun _ u => r.draws v u

def allDraw (v : View) : List Expression → Trail → Nat
  | [], _ => 0
  | e :: es, t => e.draws v t + (evaluate e).thenCount v t fun _ u => allDraw v es u

def indexesDraw (v : View) : List Expression → Trail → Nat
  | [], _ => 0
  | e :: es, t => e.draws v t + (evaluate e).thenCount v t fun w u =>
      match w.toInteger with
      | .ok _ => indexesDraw v es u
      | .error _ => 0

def membersDraw (v : View) : List (Name × Expression) → Trail → Nat
  | [], _ => 0
  | (_, e) :: rest, t => e.draws v t + (evaluate e).thenCount v t fun _ u => membersDraw v rest u

end

end Expression

namespace Eval

variable {α β : Type}

/-- An evaluation moves the place in the random numbers by a count, and by no more. -/
def Draws (x : Eval α) (count : View → Trail → Nat) : Prop :=
  ∀ v t, (stateOf (x v t)).random = t.random.after (count v t)

theorem draws_pure (a : α) : Draws (pure a : Eval α) fun _ _ => 0 := fun _ _ => rfl

theorem draws_throw (e : Error) : Draws (throw e : Eval α) fun _ _ => 0 := fun _ _ => rfl

theorem draws_ofExcept (x : Except Error α) : Draws (ofExcept x) fun _ _ => 0 := by
  cases x with
  | ok a => exact draws_pure a
  | error e => exact draws_throw e

theorem draws_bind {x : Eval α} {f : α → Eval β} {n : View → Trail → Nat}
    {m : View → α → Trail → Nat} (hx : Draws x n) (hf : ∀ a, Draws (f a) fun v t => m v a t) :
    Draws (x >>= f) fun v t => n v t + x.thenCount v t (m v) := by
  intro v t
  have hn := hx v t
  change (stateOf ((x >>= f) v t)).random = t.random.after (n v t + x.thenCount v t (m v))
  cases hr : x v t with
  | ok a u =>
    have hcount : x.thenCount v t (m v) = m v a u := by simp only [thenCount, hr]
    rw [hr] at hn
    change u.random = t.random.after (n v t) at hn
    rw [bind_of_ok hr, hcount, ← Generator.after_after, ← hn]
    exact hf a v u
  | error e u =>
    have hcount : x.thenCount v t (m v) = 0 := by simp only [thenCount, hr]
    rw [hr] at hn
    rw [bind_of_error hr, hcount]
    exact hn

theorem Draws.congr {x : Eval α} {n m : View → Trail → Nat} (h : Draws x n)
    (hnm : ∀ v t, n v t = m v t) : Draws x m := by
  intro v t
  rw [← hnm v t]
  exact h v t

theorem thenCount_zero (x : Eval α) (v : View) (t : Trail) :
    x.thenCount v t (fun _ _ => 0) = 0 := by
  unfold thenCount
  cases x v t <;> rfl

/-- What follows without a draw leaves the count as it is. -/
theorem draws_then {x : Eval α} {f : α → Eval β} {n : View → Trail → Nat} (hx : Draws x n)
    (hf : ∀ a, Draws (f a) fun _ _ => 0) : Draws (x >>= f) n := by
  refine (draws_bind (m := fun _ _ _ => 0) hx hf).congr fun v t => ?_
  rw [thenCount_zero, Nat.add_zero]

theorem draws_get (name : Name) : Draws (get name) fun _ _ => 0 := fun _ _ => rfl

theorem draws_element (name : Name) (is : List Int64) :
    Draws (element name is) fun _ _ => 0 := by
  intro v t
  exact draws_ofExcept (v.variables.element name is) v (t.remember name)

/-- Only the call of RND without arguments draws, and it draws one number. -/
theorem draws_call (name : Name) (args : List Value) :
    Draws (call name args) fun _ _ => if name.key.text = "RND" ∧ args.isEmpty then 1 else 0 := by
  by_cases hword : name.key.text = "RND"
  · unfold call
    rw [hword]
    cases args with
    | nil => exact fun _ _ => rfl
    | cons v vs => exact fun _ _ => rfl
  · simp only [hword, false_and, if_false]
    unfold call
    dsimp only
    split
    · exact draws_throw _
    · split
      · split
        · rename_i hrandom
          unfold Function.ofText? at hrandom
          split at hrandom <;> first | exact absurd ‹_› hword | cases hrandom
        · exact fun v t => draws_ofExcept _ v t
        · exact draws_throw _
      · exact draws_throw _

mutual

theorem draws_evaluate : (e : Expression) → Draws (evaluate e) fun v t => e.draws v t
  | .integer _ | .real _ | .string _ | .imaginary _ => draws_pure _
  | .variable name => draws_get name
  | .element _ indexes =>
    draws_then (draws_evaluateIndexes indexes) fun is => draws_element _ is
  | .member e _ => draws_then (draws_evaluate e) fun _ => draws_ofExcept _
  | .array items =>
    draws_then (draws_evaluateAll items) fun _ => draws_then (draws_ofExcept _) fun _ =>
      draws_pure _
  | .record members => draws_then (draws_evaluateMembers {} members) fun _ => draws_pure _
  | .call function args => draws_bind (draws_evaluateAll args) fun vs => draws_call function vs
  | .negate e => draws_then (draws_evaluate e) fun _ => draws_ofExcept _
  | .not e => draws_then (draws_evaluate e) fun _ => draws_ofExcept _
  | .binary _ l r =>
    draws_bind (draws_evaluate l) fun _ => draws_then (draws_evaluate r) fun _ => draws_ofExcept _

theorem draws_evaluateAll : (es : List Expression) →
    Draws (evaluateAll es) fun v t => Expression.allDraw v es t
  | [] => draws_pure _
  | e :: es =>
    draws_bind (draws_evaluate e) fun _ => draws_then (draws_evaluateAll es) fun _ => draws_pure _

theorem draws_evaluateIndexes : (es : List Expression) →
    Draws (evaluateIndexes es) fun v t => Expression.indexesDraw v es t
  | [] => draws_pure _
  | e :: es => by
    refine draws_bind (draws_evaluate e) fun w => ?_
    cases w.toInteger with
    | ok i =>
      have hrest : Draws (do return i :: (← evaluateIndexes es)) fun v t =>
          Expression.indexesDraw v es t :=
        draws_then (draws_evaluateIndexes es) fun _ => draws_pure _
      exact hrest
    | error err => exact fun _ _ => rfl

theorem draws_evaluateMembers (sofar : Table Name Value) : (members : List (Name × Expression)) →
    Draws (evaluateMembers sofar members) fun v t => Expression.membersDraw v members t
  | [] => draws_pure _
  | (_, e) :: rest => draws_bind (draws_evaluate e) fun _ => draws_evaluateMembers _ rest

end

end Eval

/-! ## Reading in a state -/

theorem Run.outcomeOf_value (e : Expression) (p : Program) (s : State) :
    outcomeOf (Run.value e p s) = outcomeOf (evaluate e s.view s.memory.trail) := by
  unfold Run.value Run.observe State.observe
  cases evaluate e s.view s.memory.trail <;> rfl

theorem Run.stateOf_value (e : Expression) (p : Program) (s : State) :
    stateOf (Run.value e p s) = s.withTrail (stateOf (evaluate e s.view s.memory.trail)) := by
  unfold Run.value Run.observe State.observe
  cases evaluate e s.view s.memory.trail <;> rfl

/-- What a fixed expression comes to depends on variables, keys and files alone. -/
theorem Run.outcomeOf_value_of_isFixed {f : Expression} (hf : f.isFixed = true) (p : Program)
    {s t : State} (h : s.view.Agrees false t.view) :
    outcomeOf (Run.value f p s) = outcomeOf (Run.value f p t) := by
  have hallows : Eval.Allows false false fun word =>
      word ≠ "RND" && !Expression.clockWords.contains word := by
    intro word hword
    obtain ⟨hrandom, hclock⟩ := (Bool.and_eq_true _ _).mp hword
    refine ⟨fun h => ?_, fun h => ?_⟩
    · rw [h] at hclock
      cases hclock
    · simp [h] at hrandom
  rw [Run.outcomeOf_value, Run.outcomeOf_value]
  exact (Eval.agrees_evaluate Trail.abreast_any hallows f hf _ _ _ _ h trivial).1

/-- Evaluating an expression changes nothing but the trail, whether it fails or not,
and draws one random number for each RND call that it comes to. So a fixed
expression comes to the same before and after, at whatever time. -/
theorem reading_leaves_only_a_trail (e : Expression) (p : Program) (s : State) :
    let t := stateOf (Run.value e p s)
    (t.memory.variables = s.memory.variables ∧ t.memory.line = s.memory.line ∧
      t.memory.keyboard = s.memory.keyboard ∧ t.frames = s.frames ∧ t.host = s.host) ∧
    (∀ name, t.memory.variables.has name = s.memory.variables.has name) ∧
    t.memory.trail.random = s.memory.trail.random.after (e.draws s.view s.memory.trail) ∧
    ∀ f : Expression, f.isFixed = true → ∀ clock : Clock,
      outcomeOf (Run.value f p { t with host := { t.host with clock } }) =
        outcomeOf (Run.value f p s) := by
  intro t
  have ht : t = s.withTrail (stateOf (evaluate e s.view s.memory.trail)) := Run.stateOf_value e p s
  have hvars : t.memory.variables = s.memory.variables := by rw [ht]; rfl
  refine ⟨⟨hvars, ?_, ?_, ?_, ?_⟩, fun name => ?_, ?_, fun f hf clock => ?_⟩
  · rw [ht]; rfl
  · rw [ht]; rfl
  · rw [ht]; rfl
  · rw [ht]; rfl
  · rw [hvars]
  · rw [ht]
    exact Eval.draws_evaluate e s.view s.memory.trail
  · refine Run.outcomeOf_value_of_isFixed hf p ⟨fun name => ?_, ?_, ?_, fun h => Bool.noConfusion h⟩
    · change t.memory.variables.lookup name = s.memory.variables.lookup name
      rw [hvars]
    · rw [ht]; rfl
    · rw [ht]; rfl

/-- An expression that draws a number and then fails, before one that is fixed. -/
theorem reading_leaves_only_a_trail_after_a_failure :
    let x : Name := ⟨['x', '%']⟩
    let e : Expression := .binary .add (.call ⟨['r', 'n', 'd']⟩ [])
      (.binary .divide (.variable x) (.integer 0))
    let f : Expression := .binary .multiply (.variable x) (.integer 3)
    let s : State := { memory :=
      { Memory.ofSeed 7 with «variables» := { globals := ⟨[(⟨['X', '%']⟩, .integer 5)]⟩ } } }
    let t := stateOf (Run.value e {} s)
    f.isFixed = true ∧ e.draws s.view s.memory.trail = 1 ∧
      outcomeOf (Run.value e {} s) = .error Error.divisionByZero ∧
      t.memory.trail.random = s.memory.trail.random.after 1 ∧
      outcomeOf (Run.value f {} { t with host := { t.host with clock := { instant := 9 } } }) =
        outcomeOf (Run.value f {} s) := by
  intro x e f s t
  have hfixed : f.isFixed = true := rfl
  have hdraws : e.draws s.view s.memory.trail = 1 := rfl
  obtain ⟨_, _, hrandom, hsame⟩ := reading_leaves_only_a_trail e {} s
  rw [hdraws] at hrandom
  exact ⟨hfixed, hdraws, rfl, hrandom, hsame f hfixed { instant := 9 }⟩

end LineBasic
