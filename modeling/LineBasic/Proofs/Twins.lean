-- Two computations side by side, one for a program and one for the same program
-- in capitals. From states that are alike they both yield the same, or both fail
-- with the same code, and the states stay alike. Here are the rules for this,
-- for expressions first and then for the parts that statements are made of.
import LineBasic.Proofs.Capitals

namespace LineBasic

/-! ## Two computations -/

section Calculus

variable {ρ σ α β : Type}

/-- Two results that agree: values related by `R`, or errors that differ at most
in their messages, and states related by `S`. -/
def Paired (S : σ → σ → Prop) (R : α → α → Prop) :
    EStateM.Result Error σ α → EStateM.Result Error σ α → Prop
  | .ok a s, .ok b t => R a b ∧ S s t
  | .error e s, .error f t => e.unworded = f.unworded ∧ S s t
  | _, _ => False

/-- Two computations that agree wherever they see what is related by `V` and
start from states that are related by `S`. -/
def Twin (V : ρ → ρ → Prop) (S : σ → σ → Prop) (R : α → α → Prop)
    (x y : ReaderT ρ (EStateM Error σ) α) : Prop :=
  ∀ r r' s s', V r r' → S s s' → Paired S R (x r s) (y r' s')

/-- Two results without states that agree. -/
def PairedExcept (R : α → α → Prop) : Except Error α → Except Error α → Prop
  | .ok a, .ok b => R a b
  | .error e, .error f => e.unworded = f.unworded
  | _, _ => False

variable {V : ρ → ρ → Prop} {S : σ → σ → Prop} {R : α → α → Prop} {Q : β → β → Prop}

theorem twin_pure {a b : α} (h : R a b) :
    Twin V S R (pure a : ReaderT ρ (EStateM Error σ) α) (pure b) :=
  fun _ _ _ _ _ hs => ⟨h, hs⟩

theorem twin_throw {e f : Error} (h : e.unworded = f.unworded) :
    Twin V S R (throw e : ReaderT ρ (EStateM Error σ) α) (throw f) :=
  fun _ _ _ _ _ hs => ⟨h, hs⟩

theorem twin_bind {x y : ReaderT ρ (EStateM Error σ) β} {f g : β → ReaderT ρ (EStateM Error σ) α}
    (hx : Twin V S Q x y) (hf : ∀ a b, Q a b → Twin V S R (f a) (g b)) :
    Twin V S R (x >>= f) (y >>= g) := by
  intro r r' s s' hr hs
  have hpair := hx r r' s s' hr hs
  change Paired S R (EStateM.bind (x r) (fun a => f a r) s)
    (EStateM.bind (y r') (fun a => g a r') s')
  unfold EStateM.bind
  cases hxs : x r s <;> cases hys : y r' s' <;> rw [hxs, hys] at hpair
  · exact hf _ _ hpair.1 r r' _ _ hr hpair.2
  · exact hpair.elim
  · exact hpair.elim
  · exact hpair

/-- The common case: the first parts yield the same value. -/
theorem twin_seq {x y : ReaderT ρ (EStateM Error σ) β} {f g : β → ReaderT ρ (EStateM Error σ) α}
    (hx : Twin V S Eq x y) (hf : ∀ a, Twin V S R (f a) (g a)) :
    Twin V S R (x >>= f) (y >>= g) :=
  twin_bind hx fun a _ hab => hab ▸ hf a

theorem twin_ite {c : Prop} [Decidable c] {x x' y y' : ReaderT ρ (EStateM Error σ) α}
    (hx : Twin V S R x x') (hy : Twin V S R y y') :
    Twin V S R (if c then x else y) (if c then x' else y') := by
  by_cases hc : c
  · rw [if_pos hc, if_pos hc]; exact hx
  · rw [if_neg hc, if_neg hc]; exact hy

theorem pairedExcept_refl (x : Except Error α) : PairedExcept Eq x x := by
  cases x <;> rfl

/-- Results that are the same up to `f` agree up to `f`. -/
theorem pairedExcept_of_map {x y : Except Error α} (f : α → β) (h : x.map f = y.map f) :
    PairedExcept (fun a b => f a = f b) x y := by
  cases x <;> cases y
  · cases h
    rfl
  · cases h
  · cases h
  · exact Except.ok.inj h

theorem PairedExcept.bind {x y : Except Error β} {f g : β → Except Error α}
    (hx : PairedExcept Eq x y) (hf : ∀ a, PairedExcept R (f a) (g a)) :
    PairedExcept R (x >>= f) (y >>= g) := by
  cases x <;> cases y
  · exact hx
  · exact hx.elim
  · exact hx.elim
  · cases hx
    exact hf _

end Calculus

/-! ## What is alike -/

/-- Views that show the same but for the spelling of names; they show one time if
`timed`. -/
structure View.Alike (timed : Bool) (v w : View) : Prop where
  «variables» : v.variables.folded = w.variables.folded
  keyboard : v.keyboard = w.keyboard
  files : v.files = w.files
  clock : timed = true → v.clock = w.clock

/-- Memories that hold the same under every key. -/
structure Memory.Alike (m n : Memory) : Prop where
  «variables» : m.variables.folded = n.variables.folded
  random : m.trail.random = n.trail.random
  line : m.line = n.line
  keyboard : m.keyboard = n.keyboard

/-- Hosts that are the same but for the time, and at one time if `timed`. -/
structure Host.Alike (timed : Bool) (h k : Host) : Prop where
  screen : h.screen = k.screen
  sound : h.sound = k.sound
  files : h.files = k.files
  views : h.views = k.views
  clock : timed = true → h.clock = k.clock

structure State.Alike (timed : Bool) (s t : State) : Prop where
  memory : s.memory.Alike t.memory
  frames : s.frames.folded = t.frames.folded
  host : s.host.Alike timed t.host

theorem State.Alike.view {timed : Bool} {s t : State} (h : s.Alike timed t) :
    s.view.Alike timed t.view :=
  ⟨h.memory.variables, h.memory.keyboard, h.host.files, h.host.clock⟩

namespace Variables

variable {vars vars' : Variables} {a b : Name} (h : vars.folded = vars'.folded) (hn : a.key = b.key)

include h

theorem depth_eq : vars.depth = vars'.depth := by
  rw [← depth_folded, h, depth_folded]

theorem isLive_eq (c : Cell) : vars.isLive c = vars'.isLive c := by
  rw [← isLive_folded, h, isLive_folded]

theorem store_eq (v : Value) (c : Cell) : (vars.store v c).folded = (vars'.store v c).folded := by
  rw [store_folded, h, store_folded]

include hn

theorem peek_eq : vars.peek a = vars'.peek b := by
  rw [← peek_folded, ← peek_key, h, hn, peek_key, peek_folded]

theorem hasLocal_eq : vars.hasLocal a = vars'.hasLocal b := by
  rw [← hasLocal_folded, ← hasLocal_key, h, hn, hasLocal_key, hasLocal_folded]

theorem element_eq (is : List Int64) : vars.element a is = vars'.element b is := by
  rw [← element_folded, ← element_key, h, hn, element_key, element_folded]

theorem put_eq (v : Value) (here : Bool) :
    (vars.put a v here).folded = (vars'.put b v here).folded := by
  rw [put_folded, ← put_key, h, hn, put_key, ← put_folded]

theorem slot_eq : (vars.slot a).1 = (vars'.slot b).1 ∧ (vars.slot a).2.1 = (vars'.slot b).2.1 ∧
    (vars.slot a).2.2.folded = (vars'.slot b).2.2.folded := by
  have hslot : vars.folded.slot a = vars'.folded.slot b := by
    rw [← slot_key, h, hn, slot_key]
  rw [slot_folded, slot_folded] at hslot
  exact ⟨congrArg (·.1) hslot, congrArg (·.2.1) hslot, congrArg (·.2.2) hslot⟩

end Variables

theorem fitTo_eq {a b : Name} (hn : a.key = b.key) (v : Value) : fitTo a v = fitTo b v := by
  rw [← fitTo_key, hn, fitTo_key]

/-! ## Expressions -/

/-- An expression reads the clock only if `timed`. -/
abbrev Timely (timed : Bool) (e : Expression) : Prop := e.readsClock = true → timed = true

/-- If one of two parts reads the clock, the whole does. -/
theorem timely_parts {timed a b : Bool} (h : (a || b) = true → timed = true) :
    (a = true → timed = true) ∧ (b = true → timed = true) :=
  ⟨fun ha => h (by rw [ha, Bool.true_or]), fun hb => h (by rw [hb, Bool.or_true])⟩

/-- Only the functions of the clock see the time. -/
theorem Builtin.compute_eq {timed : Bool} {v w : View} (h : v.Alike timed w) (args : List Value)
    {b : Builtin} (hb : b = .timer ∨ b = .time ∨ b = .date → timed = true) :
    b.compute v args = b.compute w args := by
  cases b with
  | timer | time | date => simp only [compute, h.clock (hb (by simp))]
  | inkey | keydown => simp only [compute, h.keyboard]
  | eof | tell => simp only [compute, h.files]
  | _ => rfl

/-- The functions of the clock have three names. -/
theorem Function.ofText?_clock {word : String} {b : Builtin}
    (h : ofText? word = some (.builtin b)) (hb : b = .timer ∨ b = .time ∨ b = .date) :
    ["TIMER", "TIME$", "DATE$"].contains word = true := by
  unfold ofText? at h
  rcases hb with rfl | rfl | rfl
  all_goals
    split at h
    all_goals first | rfl | cases h

namespace Eval

variable {α β : Type} {timed : Bool} {R : α → α → Prop}

/-- The second evaluation does what the first does. -/
abbrev Follows (timed : Bool) (R : α → α → Prop) (x y : Eval α) : Prop :=
  Twin (View.Alike timed) (fun t u => t.random = u.random) R x y

theorem follows_ofExcept {x y : Except Error α} (h : PairedExcept R x y) :
    Follows timed R (ofExcept x) (ofExcept y) := by
  cases x <;> cases y
  · exact twin_throw h
  · exact h.elim
  · exact h.elim
  · exact twin_pure h

theorem follows_same (x : Except Error α) : Follows timed Eq (ofExcept x) (ofExcept x) :=
  follows_ofExcept (pairedExcept_refl x)

theorem follows_get {a b : Name} (h : a.key = b.key) : Follows timed Eq (get a) (get b) :=
  fun _ _ _ _ hv hr => ⟨Variables.peek_eq hv.variables h, hr⟩

theorem follows_element {a b : Name} (h : a.key = b.key) (is : List Int64) :
    Follows timed Eq (element a is) (element b is) := by
  intro v w t u hv hr
  have hsame : Follows timed Eq (ofExcept (v.variables.element a is))
      (ofExcept (v.variables.element a is)) := follows_same _
  change Paired _ Eq (ofExcept (v.variables.element a is) v (t.remember a))
    (ofExcept (w.variables.element b is) w (u.remember b))
  rw [← Variables.element_eq hv.variables h]
  exact hsame v w _ _ hv hr

theorem follows_draw : Follows timed Eq draw draw := by
  intro v w t u hv hr
  change Paired _ Eq (.ok (Value.real t.random.draw.1) { t with random := t.random.draw.2 })
    (.ok (Value.real u.random.draw.1) { u with random := u.random.draw.2 })
  rw [hr]
  exact ⟨rfl, rfl⟩

theorem follows_call (name : Name) (args : List Value)
    (h : ["TIMER", "TIME$", "DATE$"].contains name.key.text = true → timed = true) :
    Follows timed Eq (call name args) (call name.key args) := by
  unfold call
  rw [Name.key_key]
  dsimp only
  split
  · exact twin_throw rfl
  · refine twin_ite ?_ (twin_throw rfl)
    split
    · exact follows_draw
    · rename_i b hb
      refine twin_bind (Q := View.Alike timed) (fun _ _ _ _ hv hr => ⟨hv, hr⟩) fun v w hv => ?_
      rw [Builtin.compute_eq hv args fun hclock => h (Function.ofText?_clock hb hclock)]
      exact follows_same _
    · exact twin_throw rfl

theorem member_key (field : Name) (v : Value) :
    PairedExcept Eq (v.member field) (v.member field.key) := by
  cases v with
  | record members =>
    simp only [Value.member, Name.key_key]
    cases members.get? field.key <;> rfl
  | _ => rfl

mutual

/-- An expression in capitals stands for the same. -/
theorem follows_evaluate : (e : Expression) → Timely timed e →
    Follows timed Eq (evaluate e) (evaluate e.folded)
  | .integer _, _ | .real _, _ | .string _, _ | .imaginary _, _ => twin_pure rfl
  | .variable name, _ => follows_get name.key_key.symm
  | .element name indexes, h =>
    twin_seq (follows_evaluateIndexes indexes h) fun is =>
      follows_element (by simp) is
  | .member e field, h =>
    twin_seq (follows_evaluate e h) fun v => follows_ofExcept (member_key field v)
  | .array items, h =>
    twin_seq (follows_evaluateAll items h) fun _ => twin_seq (follows_same _) fun _ => twin_pure rfl
  | .record members, h =>
    twin_seq (follows_evaluateMembers {} members h) fun _ => twin_pure rfl
  | .call function args, h =>
    twin_seq (follows_evaluateAll args (timely_parts h).2) fun vs =>
      follows_call function vs (timely_parts h).1
  | .negate e, h => twin_seq (follows_evaluate e h) fun _ => follows_same _
  | .not e, h => twin_seq (follows_evaluate e h) fun _ => follows_same _
  | .binary op l r, h =>
    twin_seq (follows_evaluate l (timely_parts h).1) fun _ =>
      twin_seq (follows_evaluate r (timely_parts h).2) fun _ => follows_same _

theorem follows_evaluateAll : (es : List Expression) →
    (Expression.anyReadsClock es = true → timed = true) →
    Follows timed Eq (evaluateAll es) (evaluateAll (Expression.foldedAll es))
  | [], _ => twin_pure rfl
  | e :: es, h =>
    twin_seq (follows_evaluate e (timely_parts h).1) fun _ =>
      twin_seq (follows_evaluateAll es (timely_parts h).2) fun _ => twin_pure rfl

theorem follows_evaluateIndexes : (es : List Expression) →
    (Expression.anyReadsClock es = true → timed = true) →
    Follows timed Eq (evaluateIndexes es) (evaluateIndexes (Expression.foldedAll es))
  | [], _ => twin_pure rfl
  | e :: es, h =>
    twin_seq (follows_evaluate e (timely_parts h).1) fun _ => twin_seq (follows_same _) fun _ =>
      twin_seq (follows_evaluateIndexes es (timely_parts h).2) fun _ => twin_pure rfl

theorem follows_evaluateMembers : (sofar : Table Name Value) →
    (members : List (Name × Expression)) →
    (Expression.memberReadsClock members = true → timed = true) →
    Follows timed Eq (evaluateMembers sofar members)
      (evaluateMembers sofar (Expression.foldedMembers members))
  | _, [], _ => twin_pure rfl
  | sofar, (name, e) :: rest, h => by
    rw [Expression.foldedMembers, evaluateMembers, evaluateMembers, Name.key_key]
    exact twin_seq (follows_evaluate e (timely_parts h).1) fun v =>
      follows_evaluateMembers _ rest (timely_parts h).2

end

theorem follows_indexes {es : List Expression} (h : ∀ e ∈ es, Timely timed e) :
    Follows timed Eq (evaluateIndexes es) (evaluateIndexes (es.map Expression.folded)) := by
  rw [← Expression.foldedAll_eq_map]
  refine follows_evaluateIndexes es fun hes => ?_
  obtain ⟨e, he, hr⟩ := Expression.exists_of_anyReadsClock hes
  exact h e he hr

theorem memberAt_key (path : List Name) (v : Value) :
    PairedExcept Eq (v.memberAt path) (v.memberAt (path.map Name.key)) := by
  induction path generalizing v with
  | nil => rfl
  | cons field rest ih => exact (member_key field v).bind ih

theorem follows_read (l : Location) (h : ∀ e ∈ l.indexes, Timely timed e) :
    Follows timed Eq l.read l.folded.read := by
  cases l with
  | «variable» name => exact follows_get name.key_key.symm
  | element name indexes =>
    exact twin_seq (follows_indexes h) fun is => follows_element (by simp) is
  | member name path =>
    exact twin_seq (follows_get name.key_key.symm) fun v => follows_ofExcept (memberAt_key path v)

end Eval

end LineBasic
