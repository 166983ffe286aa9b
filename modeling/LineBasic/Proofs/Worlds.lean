-- A session is a world, a line and a stack of blocks. What is steady does the
-- same in a world as in any session of it, so each line of a program is a
-- decision that only the world takes part in. Walks are runs without an end,
-- and a walk agrees with an ending if it comes to the same.
import LineBasic.Proofs.BigStep
import LineBasic.Proofs.Stack
import LineBasic.Proofs.Steady
import LineBasic.Session.Basic

namespace LineBasic

variable {α : Type}

/-! ## Steady computations in a world -/

namespace World

def depth (w : World) : Nat := w.vars.depth

theorem does_eq {ok : Error → Prop} {x : Run α} (hx : Run.Steady ok x) (w : World) (p : Program)
    (line : Nat) (fs : Frames) :
    x p (w.state line fs) = match w.does x with
      | (.ok a, v) => .ok a (v.state line fs)
      | (.error e, v) => .error e (v.state line fs) := by
  have hb := hx.blind p {} (w.state 0 Frames.empty) line fs
  have hs : (w.state 0 Frames.empty).place line fs = w.state line fs := rfl
  rw [hs] at hb
  rw [hb, does]
  cases x {} (w.state 0 Frames.empty) with
  | ok a t => rfl
  | error e t => rfl

theorem does_depth {ok : Error → Prop} {x : Run α} (hx : Run.Steady ok x) (w : World) :
    (w.does x).2.depth = w.depth := by
  have hk := hx.kept {} (w.state 0 Frames.empty)
  unfold Run.After at hk
  unfold does depth
  cases hr : x {} (w.state 0 Frames.empty) with
  | ok a t =>
    rw [hr] at hk
    rw [Variables.depth_eq_size_calls, Variables.depth_eq_size_calls]
    exact congrArg Stack.size hk
  | error e t =>
    rw [hr] at hk
    rw [Variables.depth_eq_size_calls, Variables.depth_eq_size_calls]
    exact congrArg Stack.size hk.2

theorem does_wakeAt (x : Run α) (w : World) : (w.does x).2.wakeAt = w.wakeAt := by
  unfold does
  cases x {} (w.state 0 Frames.empty) <;> rfl

theorem does_map {β : Type} (x : Run α) (f : α → β) (w : World) :
    w.does (do return f (← x)) = ((w.does x).1.map f, (w.does x).2) := by
  have hb : (do return f (← x) : Run β) {} (w.state 0 Frames.empty) =
      EStateM.bind (x {}) (fun a => EStateM.pure (f a)) (w.state 0 Frames.empty) := rfl
  unfold does
  rw [hb]
  unfold EStateM.bind
  cases x {} (w.state 0 Frames.empty) <;> rfl

theorem resting_depth (w : World) (flow : Flow) : (w.resting flow).depth = w.depth := by
  cases flow <;> rfl

end World

/-! ## Sessions of a world -/

namespace Session

/-- The session at a line, in some blocks, in a world. -/
def put (s : Session) (w : World) (line : Nat) (fs : Frames) : Session :=
  { s with toState := w.state line fs, wakeAt := w.wakeAt }

theorem withState_put (s : Session) {w v : World} (line l : Nat) (fs fs' : Frames)
    (h : v.wakeAt = w.wakeAt) : (s.put w line fs).withState (v.state l fs') = s.put v l fs' := by
  unfold withState put
  rw [h]

/-! ## Walks -/

/-- Steps that all go on. -/
inductive Walks : Nat → Session → Session → Prop where
  | refl (s : Session) : Walks 0 s s
  | step {s t u : Session} {k : Nat} (h : s.step = (.onward, t)) (r : Walks k t u) :
      Walks (k + 1) s u

theorem Walks.one {s t : Session} (h : s.step = (.onward, t)) : Walks 1 s t := .step h (.refl t)

theorem Walks.trans {s t u : Session} {k m : Nat} (h : Walks k s t) (h' : Walks m t u) :
    Walks (k + m) s u := by
  induction h with
  | refl s =>
    rw [Nat.zero_add]
    exact h'
  | step hs _ ih =>
    rw [Nat.add_right_comm]
    exact .step hs (ih h')

/-- From session `u` on, stepping comes to the same as a run with this ending: it
gets to `line` in blocks `fs`, or fails alike, or makes at least `n` steps. -/
def Agrees (s : Session) (n depth line : Nat) (fs : Frames) (u : Session) : Ending → Prop
  | .done w => w.depth = depth ∧ ∃ k, Walks k u (s.put w line fs)
  | .failed e w => ∃ k t l fs', Walks k u t ∧ t.step = (.failed e, (s.put w l fs').halt)
  | .endless => ∃ k t, n ≤ k ∧ Walks k u t

variable {s u : Session} {n depth line : Nat} {fs : Frames} {r : Ending}

theorem Agrees.done {w : World} (h : w.depth = depth) :
    Agrees s n depth line fs (s.put w line fs) (.done w) :=
  ⟨h, 0, .refl _⟩

theorem Agrees.walk {v : Session} {k : Nat} (hw : Walks k v u) (h : Agrees s n depth line fs u r) :
    Agrees s (n + k) depth line fs v r := by
  cases r with
  | done w =>
    obtain ⟨hd, m, hm⟩ := h
    exact ⟨hd, k + m, hw.trans hm⟩
  | failed e w =>
    obtain ⟨m, t, l, fs', hm, ht⟩ := h
    exact ⟨k + m, t, l, fs', hw.trans hm, ht⟩
  | endless =>
    obtain ⟨m, t, hn, hm⟩ := h
    exact ⟨k + m, t, by omega, hw.trans hm⟩

theorem Agrees.fewer {m : Nat} (h : Agrees s n depth line fs u r) (hm : m ≤ n) :
    Agrees s m depth line fs u r := by
  cases r with
  | done w => exact h
  | failed e w => exact h
  | endless =>
    obtain ⟨k, t, hn, hk⟩ := h
    exact ⟨k, t, Nat.le_trans hm hn, hk⟩

/-- One run after the other. -/
theorem Agrees.andThen {line' : Nat} {fs' : Frames} {next : World → Ending}
    (h : Agrees s n depth line fs u r)
    (hn : ∀ w, w.depth = depth → Agrees s n depth line' fs' (s.put w line fs) (next w)) :
    Agrees s n depth line' fs' u (r.andThen next) := by
  cases r with
  | done w =>
    obtain ⟨hd, k, hk⟩ := h
    exact ((hn w hd).walk hk).fewer (by omega)
  | failed e w => exact h
  | endless => exact h

/-- What a line comes to that is decided by `x`: on a result it leads to the line
and the blocks that `next` tells, and an error ends the program. -/
def decided (s : Session) (line : Nat) (fs : Frames) (x : Run α) (next : α → Nat × Frames)
    (w : World) : Outcome × Session :=
  match w.does x with
  | (.ok a, v) => (.onward, s.put v (next a).1 (next a).2)
  | (.error e, v) => (.failed (e.inLine line), (s.put v line fs).halt)

/-- A line that is decided by `x` agrees with doing `x`, if all that follows does. -/
theorem Agrees.doing {ok : Error → Prop} {x : Run α} {goal : α → Nat × Frames} {w : World}
    {here : Nat} {fs' fs'' : Frames} {next : α → World → Ending} (hx : Run.Steady ok x)
    (hd : w.depth = depth) (hstep : (s.put w here fs').step = s.decided here fs'' x goal w)
    (hn : ∀ a v, v.depth = depth →
      Agrees s n depth line fs (s.put v (goal a).1 (goal a).2) (next a v)) :
    Agrees s (n + 1) depth line fs (s.put w here fs') (w.doing here x next) := by
  have hdepth := w.does_depth hx
  unfold decided at hstep
  unfold World.doing
  generalize w.does x = r at hstep hdepth
  obtain ⟨a | e, v⟩ := r
  · exact ⟨0, _, _, _, .refl _, hstep⟩
  · exact (hn _ v (hdepth.trans hd)).walk (.one hstep)

/-- Passes through a loop, where `top a` are the blocks in a pass that starts from `a`. -/
theorem Agrees.passes {ok : Error → Prop} {again : α → Run (Bool × α)} {body : World → Ending}
    {first last : Nat} (top : α → Frames) (hx : ∀ a, Run.Steady ok (again a))
    (hbody : ∀ a w, w.depth = depth →
      Agrees s n depth last (top a) (s.put w first (top a)) (body w))
    (hlast : ∀ a w, w.depth = depth → (s.put w last (top a)).step =
      s.decided last (top a) (again a)
        (fun r => if r.1 then (first, top r.2) else (line, fs)) w)
    (a : α) (w : World) (hd : w.depth = depth) :
    Agrees s n depth line fs (s.put w first (top a)) (passes body last again n a w) := by
  -- Fewer passes take fewer steps, so the bound can go down with the passes.
  have hall : ∀ m ≤ n, ∀ a w, w.depth = depth →
      Agrees s m depth line fs (s.put w first (top a)) (LineBasic.passes body last again m a w) := by
    intro m
    induction m with
    | zero => exact fun _ a w _ => ⟨0, _, Nat.le_refl 0, .refl _⟩
    | succ m ih =>
      intro hm a w hw
      rw [LineBasic.passes]
      refine ((hbody a w hw).fewer hm).andThen fun v hv => ?_
      refine .doing (hx a) hv (hlast a v hv) fun r v hv => ?_
      cases hr : r.1 with
      | true =>
        rw [if_pos rfl, if_pos rfl]
        exact ih (Nat.le_of_succ_le hm) r.2 v hv
      | false =>
        rw [if_neg (by simp), if_neg (by simp)]
        exact .done hv
  exact hall n (Nat.le_refl n) a w hd

end Session

end LineBasic
