-- A calculus for the execution of statements. `After x p s Q E` says that `x`,
-- run on program `p` from state `s`, yields a result with `Q` or fails with
-- `E`. Every primitive of a statement has one rule here.
import LineBasic.Session.Basic

namespace LineBasic.Run

variable {α β : Type}

/-- What holds of a result: `Q` of a value and its state, `E` of an error and its state. -/
def Holds (Q : α → State → Prop) (E : Error → State → Prop) :
    EStateM.Result Error State α → Prop
  | .ok a t => Q a t
  | .error e t => E e t

def After (x : Run α) (p : Program) (s : State) (Q : α → State → Prop)
    (E : Error → State → Prop) : Prop :=
  Holds Q E (x p s)

section Rules

variable {p : Program} {s : State} {Q : α → State → Prop} {E : Error → State → Prop}

theorem After.mono {x : Run α} {Q' : α → State → Prop} {E' : Error → State → Prop}
    (h : After x p s Q E) (hQ : ∀ a t, Q a t → Q' a t) (hE : ∀ e t, E e t → E' e t) :
    After x p s Q' E' := by
  unfold After at *
  cases hx : x p s with
  | ok a t => rw [hx] at h; exact hQ a t h
  | error e t => rw [hx] at h; exact hE e t h

/-- Two facts about one computation. -/
theorem After.and {x : Run α} {Q' : α → State → Prop} {E' : Error → State → Prop}
    (h : After x p s Q E) (h' : After x p s Q' E') :
    After x p s (fun a t => Q a t ∧ Q' a t) fun e t => E e t ∧ E' e t := by
  unfold After at *
  cases hx : x p s with
  | ok a t => rw [hx] at h h'; exact ⟨h, h'⟩
  | error e t => rw [hx] at h h'; exact ⟨h, h'⟩

/-- A computation has come to the result of which something holds. -/
theorem After.traced {x : Run α} (h : After x p s Q E) :
    After x p s (fun a t => x p s = .ok a t ∧ Q a t) fun e t => x p s = .error e t ∧ E e t := by
  unfold After at *
  cases hx : x p s with
  | ok a t => rw [hx] at h; exact ⟨rfl, h⟩
  | error e t => rw [hx] at h; exact ⟨rfl, h⟩

@[simp] theorem after_pure (a : α) : After (pure a) p s Q E ↔ Q a s := Iff.rfl

@[simp] theorem after_throw (e : Error) : After (throw e : Run α) p s Q E ↔ E e s := Iff.rfl

@[simp] theorem after_bind (x : Run β) (f : β → Run α) :
    After (x >>= f) p s Q E ↔ After x p s (fun a t => After (f a) p t Q E) E := by
  have hb : (x >>= f) p s = EStateM.bind (x p) (fun a => f a p) s := rfl
  unfold After
  rw [hb]
  unfold EStateM.bind
  cases x p s with
  | ok a t => exact Iff.rfl
  | error e t => exact Iff.rfl

@[simp] theorem after_ofExcept (x : Except Error α) :
    After (ofExcept x) p s Q E ↔ (∀ a, x = .ok a → Q a s) ∧ ∀ e, x = .error e → E e s := by
  cases x with
  | ok a => simp [ofExcept]
  | error e => simp [ofExcept]

@[simp] theorem after_require (o : Option α) (e : Error) :
    After (require o e) p s Q E ↔ (∀ a, o = some a → Q a s) ∧ (o = none → E e s) := by
  cases o with
  | some a => simp [require]
  | none => simp [require]

/-- A branch on a test follows the branch that the test picks. -/
@[simp] theorem after_ite (c : Prop) [Decidable c] (x y : Run α) :
    After (if c then x else y) p s Q E ↔
      (c → After x p s Q E) ∧ (¬ c → After y p s Q E) := by
  by_cases hc : c <;> simp [hc]

end Rules

section Primitives

variable {p : Program} {s : State} {E : Error → State → Prop}

@[simp] theorem after_read {Q : Program → State → Prop} :
    After (read : Run Program) p s Q E ↔ Q p s := Iff.rfl

@[simp] theorem after_memory {Q : Memory → State → Prop} :
    After memory p s Q E ↔ Q s.memory s := Iff.rfl

@[simp] theorem after_setMemory {Q : Unit → State → Prop} (m : Memory) :
    After (setMemory m) p s Q E ↔ Q () { s with memory := m } := Iff.rfl

@[simp] theorem after_line {Q : Nat → State → Prop} :
    After line p s Q E ↔ Q s.memory.line s := Iff.rfl

@[simp] theorem after_depth {Q : Nat → State → Prop} :
    After depth p s Q E ↔ Q s.memory.variables.depth s := Iff.rfl

@[simp] theorem after_closer {Q : Option Nat → State → Prop} (start : Nat)
    (wanted : Statement → Bool) :
    After (closer start wanted) p s Q E ↔ Q (p.closer start wanted) s := Iff.rfl

@[simp] theorem after_opener {Q : Option Nat → State → Prop} (place : Nat)
    (wanted : Statement → Bool) :
    After (opener place wanted) p s Q E ↔ Q (p.opener place wanted) s := Iff.rfl

@[simp] theorem after_frames {Q : Frames → State → Prop} :
    After frames p s Q E ↔ Q s.frames s := Iff.rfl

@[simp] theorem after_setFrames {Q : Unit → State → Prop} (fs : Frames) :
    After (setFrames fs) p s Q E ↔ Q () { s with frames := fs } := Iff.rfl

@[simp] theorem after_framePlace {Q : Option Nat → State → Prop} (first : Nat) :
    After (framePlace? first) p s Q E ↔
      Q (s.frames.place? first s.memory.variables.depth) s := Iff.rfl

@[simp] theorem after_truncate {Q : Unit → State → Prop} (size : Nat) :
    After (truncate size) p s Q E ↔ Q () { s with frames := s.frames.truncate size } := Iff.rfl

@[simp] theorem after_leave {Q : Unit → State → Prop} (first : Nat) :
    After (leave first) p s Q E ↔
      Q () { s with frames := s.frames.leave first s.memory.variables.depth } := Iff.rfl

@[simp] theorem after_setFrameState {Q : Unit → State → Prop} (place : Nat) (state : FrameState) :
    After (setFrameState place state) p s Q E ↔
      Q () { s with frames := s.frames.modify place fun f => { f with state } } := Iff.rfl

@[simp] theorem after_enter {Q : Unit → State → Prop} (first last : Nat) (state : FrameState) :
    After (enter first last state) p s Q E ↔
      (∀ fs, s.frames.enter ⟨first, last, s.memory.variables.depth, state⟩ = .ok fs →
        Q () { s with frames := fs }) ∧
      ∀ e, s.frames.enter ⟨first, last, s.memory.variables.depth, state⟩ = .error e → E e s := by
  unfold enter
  simp

@[simp] theorem after_statement {Q : Statement → State → Prop} (l : Nat) :
    After (statement l) p s Q E ↔
      (∀ st, p.statement? l = some st → Q st s) ∧
      (p.statement? l = none → E (Error.internal "LINE OUT OF RANGE") s) := by
  unfold statement
  simp

/-- An action that does not fail comes to what it gives. -/
theorem onFiles_of_granted {act : Action Files α} {a : α} {files : Files}
    (h : act.granted s.host.files = .ok (a, files)) :
    onFiles act p s = .ok a { s with host := { s.host with files } } := by
  have hresult : act.result s.host.files = (.ok a, files) := by
    unfold Action.granted at h
    unfold Action.result
    split at h
    · cases h
      rfl
    · cases h
  change (setFiles (act.result s.host.files).2 >>= fun _ =>
    ofExcept (act.result s.host.files).1) p s = _
  rw [hresult]
  rfl

theorem onFiles_of_changed {act : Action Files Unit} {files : Files}
    (h : act.changed s.host.files = .ok files) :
    onFiles act p s = .ok () { s with host := { s.host with files } } := by
  apply onFiles_of_granted
  unfold Action.changed at h
  cases hg : act.granted s.host.files with
  | ok r =>
    rw [hg] at h
    cases h
    rfl
  | error e =>
    rw [hg] at h
    cases h

theorem after_onFiles {act : Action Files α} {Q : α → State → Prop}
    (hQ : ∀ a files, act.granted s.host.files = .ok (a, files) →
      Q a { s with host := { s.host with files } })
    (hE : ∀ e files, E e { s with host := { s.host with files } }) :
    After (onFiles act) p s Q E := by
  cases hrun : act s.host.files with
  | ok a files =>
    have hg : act.granted s.host.files = .ok (a, files) := by
      unfold Action.granted
      rw [hrun]
    unfold After
    rw [onFiles_of_granted hg]
    exact hQ a files hg
  | error e files =>
    have hresult : act.result s.host.files = (.error e, files) := by
      unfold Action.result
      rw [hrun]
    change After (setFiles (act.result s.host.files).2 >>= fun _ =>
      ofExcept (act.result s.host.files).1) p s Q E
    rw [hresult]
    exact hE e files

end Primitives

end LineBasic.Run
