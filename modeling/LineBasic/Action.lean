-- Work in place. An action that fails keeps what it has done up to then, so that a failure
-- changes nothing is up to the order of its steps.
import LineBasic.Error

namespace LineBasic

/-- Changes a state and gives something, or fails half-way. -/
abbrev Action (σ : Type) := EStateM Error σ

namespace Action

variable {σ α β : Type}

def ofExcept : Except Error α → Action σ α
  | .ok a => pure a
  | .error e => throw e

/-- What an action comes to, and the state after it. -/
def result (act : Action σ α) (s : σ) : Except Error α × σ :=
  match act s with
  | .ok a t => (.ok a, t)
  | .error e t => (.error e, t)

/-- What an action gives and the state after it, if it does not fail. -/
def granted (act : Action σ α) (s : σ) : Except Error (α × σ) :=
  match act s with
  | .ok a t => .ok (a, t)
  | .error e _ => .error e

/-- The state after an action, if it does not fail. -/
def changed (act : Action σ Unit) (s : σ) : Except Error σ := do return (← act.granted s).2

/-! ## Step by step -/

variable (act : Action σ α) (next : α → Action σ β) (s : σ)

@[simp] theorem granted_pure (a : α) : granted (pure a : Action σ α) s = pure (a, s) := rfl

@[simp] theorem granted_throw (e : Error) : granted (throw e : Action σ α) s = .error e := rfl

@[simp] theorem granted_getThe : granted (getThe σ : Action σ σ) s = pure (s, s) := rfl

@[simp] theorem granted_modify (change : σ → σ) :
    granted (modify change : Action σ PUnit) s = pure ((), change s) := rfl

@[simp] theorem granted_ofExcept (x : Except Error α) :
    (ofExcept x).granted s = (·, s) <$> x := by
  cases x <;> rfl

@[simp] theorem granted_bind :
    granted (act >>= next) s = (act.granted s >>= fun r => (next r.1).granted r.2) := by
  change granted (EStateM.bind act next) s = _
  unfold granted EStateM.bind
  cases act s <;> rfl

@[simp] theorem granted_ite {c : Prop} [Decidable c] (x y : Action σ α) :
    granted (if c then x else y) s = if c then x.granted s else y.granted s := by
  split <;> rfl

@[simp] theorem changed_throw (e : Error) : changed (throw e : Action σ Unit) s = .error e := rfl

@[simp] theorem changed_modify (change : σ → σ) :
    changed (modify change : Action σ PUnit) s = pure (change s) := rfl

@[simp] theorem changed_bind (next : α → Action σ Unit) :
    changed (act >>= next) s = (act.granted s >>= fun r => (next r.1).changed r.2) := by
  unfold changed
  rw [granted_bind, bind_assoc]

@[simp] theorem changed_ite {c : Prop} [Decidable c] (x y : Action σ Unit) :
    changed (if c then x else y) s = if c then x.changed s else y.changed s := by
  split <;> rfl

/-! ## Actions that change nothing when they fail -/

/-- If the action fails in this state, the state is as it was. -/
def WholeAt (act : Action σ α) (s : σ) : Prop := ∀ e t, act s = .error e t → t = s

variable {act next s}

/-- What such an action comes to follows from what it gives if it does not fail. -/
theorem WholeAt.result_eq (h : act.WholeAt s) :
    act.result s = match act.granted s with
      | .ok (a, t) => (.ok a, t)
      | .error e => (.error e, s) := by
  unfold result granted
  cases hrun : act s with
  | ok a t => rfl
  | error e t => rw [h e t hrun]

theorem WholeAt.result_snd {act : Action σ Unit} (h : act.WholeAt s) :
    (act.result s).2 = match act.changed s with
      | .ok t => t
      | .error _ => s := by
  rw [h.result_eq]
  unfold changed
  cases act.granted s <;> rfl

theorem wholeAt_of_granted {r : α × σ} (h : act.granted s = .ok r) : act.WholeAt s := by
  intro e t hrun
  unfold granted at h
  rw [hrun] at h
  cases h

theorem wholeAt_throw (e : Error) : WholeAt (throw e : Action σ α) s := by
  intro e' t hrun
  cases hrun
  rfl

theorem wholeAt_ite {c : Prop} [Decidable c] {x y : Action σ α} (hx : c → x.WholeAt s)
    (hy : ¬ c → y.WholeAt s) : WholeAt (if c then x else y) s := by
  split
  · exact hx ‹_›
  · exact hy ‹_›

theorem wholeAt_getThe {next : σ → Action σ β} (h : (next s).WholeAt s) :
    WholeAt (getThe σ >>= next) s := h

/-- What is worked out beside the state does not change it. -/
theorem wholeAt_bind_ofExcept {x : Except Error α} (h : ∀ a, x = .ok a → (next a).WholeAt s) :
    WholeAt (ofExcept x >>= next) s := by
  cases x with
  | ok a => exact h a rfl
  | error e => exact wholeAt_throw e

theorem wholeAt_bind_modify {change : σ → σ} {next : PUnit → Action σ β} (hsame : change s = s)
    (h : (next ()).WholeAt s) : WholeAt (modify change >>= next) s := by
  intro e t hrun
  change next () (change s) = _ at hrun
  rw [hsame] at hrun
  exact h e t hrun

/-- What comes after a whole action may not fail any more. -/
theorem WholeAt.bind (h : act.WholeAt s)
    (hnext : ∀ a t, act.granted s = .ok (a, t) → ∃ r, (next a).granted t = .ok r) :
    WholeAt (act >>= next) s := by
  intro e t hrun
  change EStateM.bind act next s = _ at hrun
  unfold EStateM.bind at hrun
  cases hact : act s with
  | ok a u =>
    rw [hact] at hrun
    obtain ⟨r, hr⟩ := hnext a u (by unfold granted; rw [hact])
    unfold granted at hr
    rw [show next a u = _ from hrun] at hr
    cases hr
  | error e' u =>
    rw [hact] at hrun
    cases hrun
    exact h _ _ hact

end Action

end LineBasic
