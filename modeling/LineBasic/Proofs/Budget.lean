-- The number of steps that a run may make decides when the run pauses and nothing
-- else. A run makes the steps that would be made one by one, up to the first that
-- ends the program, fails or falls asleep. What a run left to do is done by the
-- next, so a program that comes to an end comes to the same end however its steps
-- are dealt out. Time passes meanwhile: runs are compared that make the same steps
-- at the same times, and at any times in a program that never looks at the clock.
import LineBasic.Proofs.Carriage

namespace LineBasic

/-- The program ended or failed. -/
def Event.isFinal : Event → Bool
  | .stopped | .failed _ => true
  | .running | .sleeping _ => false

namespace Clock

@[simp] theorem later_zero (times : Nat → Clock) : later times 0 = times :=
  funext fun i => by rw [later, Nat.zero_add]

@[simp] theorem later_apply_zero (times : Nat → Clock) (n : Nat) : later times n 0 = times n := rfl

@[simp] theorem later_later (times : Nat → Clock) (m n : Nat) :
    later (later times m) n = later times (m + n) :=
  funext fun i => by simp only [later, Nat.add_assoc]

end Clock

/-! ## The time of a statement -/

def State.atTime (s : State) (clock : Clock) : State := { s with host := { s.host with clock } }

/-- A statement of a program that never looks at the clock does the same at any time. -/
theorem Run.execute_atTime {p : Program} {s : State} {st : Statement}
    (hst : p.statement? s.memory.line = some st) (h : p.readsClock = false) (clock : Clock) :
    execute st p (s.atTime clock) = match execute st p s with
      | .ok flow t => .ok flow (t.atTime clock)
      | .error e t => .error e (t.atTime clock) := by
  have hclock : p.readsClock = true → ∀ c, clock = c := fun hr => by rw [h] at hr; cases hr
  let still : Relocation := .still p (fun _ => clock) hclock
  have hstate : ∀ t, still.state t = t.atTime clock := fun t => Relocation.state_still hclock t
  have hmeets : Meets still (fun _ => True) s.memory.line (Flow.Moved id) (execute st p s)
      (execute st p (s.atTime clock)) := by
    rw [← hstate]
    exact directs_execute (m := still) (I := fun _ => True) hst
      (fun _ => ⟨fun _ _ _ => trivial, fun _ _ => trivial⟩) s ⟨rfl, trivial⟩
  cases hx : execute st p s <;> cases hy : execute st p (s.atTime clock) <;>
    rw [hx, hy] at hmeets
  · obtain ⟨hflow, rfl, _⟩ := hmeets
    rw [hflow.eq_of_id, hstate]
  · exact hmeets.elim
  · exact hmeets.elim
  · obtain ⟨rfl, rfl, _⟩ := hmeets
    rw [hstate]
    exact congrArg (EStateM.Result.error · _) (Error.moved_id _)

namespace Session

/-! ## Pauses -/

/-- What makes a run pause after a step: the program ended, failed or fell asleep. -/
def pause? : Outcome × Session → Option Event
  | (.onward, s) => s.wakeAt.map .sleeping
  | (.ended, _) => some .stopped
  | (.failed e, _) => some (.failed e)

/-- What `n` steps come to, one after the other, step `i` at time `times i`. A program
that was stopped has ended before its first step. -/
def stepped (times : Nat → Clock) (s : Session) : Nat → Outcome × Session
  | 0 => (if s.stopped then .ended else .onward, s)
  | n + 1 => ((s.stepped times n).2.atTime (times n)).step

/-- A run makes the steps up to the first pause, and all `n` if there is none. -/
structure Performs (times : Nat → Clock) (s : Session) (n k : Nat) (r : Event × Session) :
    Prop where
  le : k ≤ n
  session : r.2 = (s.stepped times k).2
  before : ∀ j < k, pause? (s.stepped times j) = none
  event : pause? (s.stepped times k) = some r.1 ∨
    pause? (s.stepped times k) = none ∧ k = n ∧ r.1 = .running

/-- How many steps a run makes that may make `n`. -/
def made : (times : Nat → Clock) → (n : Nat) → Session → Nat
  | _, 0, _ => 0
  | times, n + 1, s =>
    if s.stopped then 0
    else match pause? (s.atTime (times 0)).step with
      | some _ => 1
      | none => made (Clock.later times 1) n (s.atTime (times 0)).step.2 + 1

/-- A session that neither sleeps nor was interrupted, in a program that runs. -/
structure Ready (s : Session) : Prop where
  awake : s.wakeAt = none
  calm : s.interrupted = false
  running : s.stopped = false

variable {s t u : Session} {m n k : Nat} {event : Event} {times times' : Nat → Clock}

theorem Ready.atTime (h : s.Ready) (clock : Clock) : (s.atTime clock).Ready :=
  ⟨h.awake, h.calm, h.running⟩

theorem pause?_ready (h : s.Ready) : pause? (s.stepped times 0) = none := by
  simp [stepped, h.running, pause?, h.awake]

/-- A step that does not make a run pause leaves a session that is ready. -/
theorem ready_step (h : s.Ready) (hpause : pause? s.step = none) :
    s.step.1 = .onward ∧ s.step.2.Ready := by
  have honward : s.step.1 = .onward := by
    generalize s.step = r at hpause
    obtain ⟨outcome, t⟩ := r
    cases outcome <;> first | rfl | cases hpause
  refine ⟨honward, ?_, s.proceeds_step.interrupted.trans h.calm, (stopped_step s).2 honward⟩
  generalize s.step = r at hpause honward
  obtain ⟨outcome, t⟩ := r
  cases honward
  exact Option.map_eq_none_iff.1 hpause

/-- The first of several steps can be made by itself. -/
theorem stepped_succ (h : s.Ready) (hpause : pause? (s.atTime (times 0)).step = none) (k : Nat) :
    s.stepped times (k + 1) = (s.atTime (times 0)).step.2.stepped (Clock.later times 1) k := by
  induction k with
  | zero =>
    obtain ⟨honward, hready⟩ := ready_step (h.atTime _) hpause
    simp only [stepped, hready.running, Bool.false_eq_true, if_false, ← honward]
  | succ k ih =>
    rw [stepped, ih, stepped, Clock.later, Nat.add_comm 1 k]

theorem made_succ (h : s.Ready) (times : Nat → Clock) (n : Nat) :
    s.made times (n + 1) = match pause? (s.atTime (times 0)).step with
      | some _ => 1
      | none => (s.atTime (times 0)).step.2.made (Clock.later times 1) n + 1 := by
  rw [made, h.running]
  rfl

/-! ## Runs of a program that is ready -/

theorem cycle_succ (s : Session) (times : Nat → Clock) (n : Nat) :
    s.cycle times (n + 1) = match pause? (s.atTime (times 0)).step with
      | some event => (event, (s.atTime (times 0)).step.2)
      | none => (s.atTime (times 0)).step.2.cycle (Clock.later times 1) n := by
  rw [cycle]
  generalize (s.atTime (times 0)).step = r
  obtain ⟨outcome, t⟩ := r
  cases outcome with
  | onward =>
    dsimp only [pause?]
    cases t.wakeAt <;> rfl
  | ended | failed e => rfl

theorem executeAt_eq_cycle (h : s.Ready) (times : Nat → Clock) (n : Nat) :
    s.executeAt times n = s.cycle times n := by
  unfold executeAt executeAwake
  simp [h.awake, h.calm, h.running]

theorem cycle_performs (h : s.Ready) (times : Nat → Clock) (n : Nat) :
    s.Performs times n (s.made times n) (s.cycle times n) := by
  induction n generalizing s times with
  | zero => exact ⟨Nat.le_refl 0, rfl, nofun, Or.inr ⟨pause?_ready h, rfl, rfl⟩⟩
  | succ n ih =>
    rw [cycle_succ, made_succ h]
    cases hpause : pause? (s.atTime (times 0)).step with
    | some event =>
      refine ⟨Nat.succ_le_succ (Nat.zero_le n), rfl, fun j hj => ?_, Or.inl hpause⟩
      cases Nat.lt_one_iff.1 hj
      exact pause?_ready h
    | none =>
      have hrest := ih (ready_step (h.atTime _) hpause).2 (Clock.later times 1)
      have hsucc := stepped_succ h hpause
      refine ⟨Nat.succ_le_succ hrest.le, ?_, fun j hj => ?_, ?_⟩
      · rw [hsucc]
        exact hrest.session
      · cases j with
        | zero => exact pause?_ready h
        | succ j =>
          rw [hsucc]
          exact hrest.before j (Nat.lt_of_succ_lt_succ hj)
      · rw [hsucc]
        exact hrest.event.imp_right fun hend => ⟨hend.1, congrArg Nat.succ hend.2.1, hend.2.2⟩

/-- A run that used up its steps left a session that is ready for the rest. -/
theorem cycle_add (h : s.Ready) (hrun : s.cycle times m = (.running, t)) :
    t.Ready ∧ ∀ n, s.cycle times (m + n) = t.cycle (Clock.later times m) n := by
  induction m generalizing s times with
  | zero =>
    cases hrun
    exact ⟨h, fun n => by rw [Nat.zero_add, Clock.later_zero]⟩
  | succ m ih =>
    rw [cycle_succ] at hrun
    cases hpause : pause? (s.atTime (times 0)).step with
    | some event =>
      rw [hpause] at hrun
      -- A pause is never reported as a run that used up its steps.
      cases hrun
      generalize (s.atTime (times 0)).step = r at hpause
      obtain ⟨outcome, t⟩ := r
      cases outcome with
      | onward =>
        obtain ⟨_, _, hevent⟩ := Option.map_eq_some_iff.1 hpause
        cases hevent
      | ended | failed e => cases hpause
    | none =>
      rw [hpause] at hrun
      obtain ⟨hready, hrest⟩ := ih (ready_step (h.atTime _) hpause).2 hrun
      refine ⟨hready, fun n => ?_⟩
      rw [Nat.add_right_comm, cycle_succ, hpause, Nat.add_comm m 1, ← Clock.later_later]
      exact hrest n

/-! ## One run after another -/

/-- The session that the next run goes on with, if the program has not come to an end.
A program that sleeps is woken. -/
def next? : Event × Session → Option Session
  | (.running, s) => some s
  | (.sleeping _, s) => some s.wake
  | (.stopped, _) | (.failed _, _) => none

/-- Up to `n` runs, each with a budget of its own, until the program ends or fails. Step
`i` of all that the runs make is made at time `times i`. -/
def drive : (times : Nat → Clock) → (budget : Nat → Nat) → (n : Nat) → Session → Event × Session
  | _, _, 0, s => (.running, s)
  | times, budget, n + 1, s =>
    match next? (s.executeAt times (budget 0)) with
    | some t => drive (Clock.later times (s.made times (budget 0))) (fun i => budget (i + 1)) n t
    | none => s.executeAt times (budget 0)

/-- A program that is woken whenever it sleeps comes to an end in `n` steps. -/
inductive Settles : (times : Nat → Clock) → Nat → Session → Event → Session → Prop where
  | last {times : Nat → Clock} {s : Session} {event : Event}
      (h : pause? (s.atTime (times 0)).step = some event)
      (hend : next? (event, (s.atTime (times 0)).step.2) = none) :
      Settles times 1 s event (s.atTime (times 0)).step.2
  | onward {times : Nat → Clock} {n : Nat} {s t : Session} {event : Event}
      (h : (s.atTime (times 0)).step.1 = .onward)
      (hrest : Settles (Clock.later times 1) n (s.atTime (times 0)).step.2.wake event t) :
      Settles times (n + 1) s event t

theorem wake_of_awake (h : s.wakeAt = none) : s.wake = s := by
  unfold wake
  rw [← h]

/-- Only a step after which the program sleeps makes a run pause and goes on. -/
theorem pause?_onward {r : Outcome × Session} (h : r.1 = .onward) :
    pause? r = r.2.wakeAt.map .sleeping := by
  obtain ⟨outcome, t⟩ := r
  cases h
  rfl

/-- If a step ends the program, only what became of it decides the pause. -/
theorem pause?_eq_of_ended {r r' : Outcome × Session} (h : r'.1 = r.1) (hlast : r.1 ≠ .onward) :
    pause? r' = pause? r := by
  obtain ⟨outcome, t⟩ := r
  obtain ⟨outcome', t'⟩ := r'
  cases h
  cases outcome with
  | onward => exact absurd rfl hlast
  | ended | failed e => rfl

theorem next?_of_onward {r : Outcome × Session} (h : r.1 = .onward)
    (hpause : pause? r = some event) : next? (event, r.2) = some r.2.wake := by
  rw [pause?_onward h] at hpause
  obtain ⟨_, _, rfl⟩ := Option.map_eq_some_iff.1 hpause
  rfl

theorem onward_of_next? {r : Outcome × Session} (hpause : pause? r = some event)
    (hnext : next? (event, r.2) = some u) : r.1 = .onward ∧ u = r.2.wake := by
  obtain ⟨outcome, t⟩ := r
  cases outcome with
  | onward => exact ⟨rfl, Option.some.inj (hnext.symm.trans (next?_of_onward rfl hpause))⟩
  | ended | failed e => cases hpause; cases hnext

theorem ready_wake (h : s.Ready) (honward : s.step.1 = .onward) : s.step.2.wake.Ready :=
  ⟨rfl, s.proceeds_step.interrupted.trans h.calm, (stopped_step s).2 honward⟩

/-- A program cannot come to two ends. -/
theorem Settles.unique {event' : Event} (h : Settles times m s event t)
    (h' : Settles times n s event' u) : event = event' ∧ t = u := by
  induction h generalizing n with
  | last hpause hend =>
    cases h' with
    | last hpause' hend' => exact ⟨Option.some.inj (hpause.symm.trans hpause'), rfl⟩
    | onward honward _ =>
      rw [next?_of_onward honward hpause] at hend
      cases hend
  | onward honward _ ih =>
    cases h' with
    | last hpause hend =>
      rw [next?_of_onward honward hpause] at hend
      cases hend
    | onward _ hrest => exact ih hrest

/-- A run comes to the end of the program, or it brings the program nearer to it. -/
theorem Settles.cycle (h : Settles times k s event t) (hs : s.Ready) (n : Nat) :
    s.cycle times n = (event, t) ∨ ∃ u j, next? (s.cycle times n) = some u ∧ u.Ready ∧
      Settles (Clock.later times (s.made times n)) j u event t ∧ j ≤ k ∧ (0 < n → j < k) := by
  induction n generalizing s k times with
  | zero =>
    rw [made, Clock.later_zero]
    exact Or.inr ⟨s, k, rfl, hs, h, Nat.le_refl k, nofun⟩
  | succ n ih =>
    rw [cycle_succ, made_succ hs]
    cases hpause : pause? (s.atTime (times 0)).step with
    | some _ =>
      cases h with
      | last hlast _ =>
        rw [hpause] at hlast
        cases hlast
        exact Or.inl rfl
      | onward honward hrest =>
        exact Or.inr ⟨_, _, next?_of_onward honward hpause, ready_wake (hs.atTime _) honward,
          hrest, Nat.le_succ _, fun _ => Nat.lt_succ_self _⟩
    | none =>
      cases h with
      | last hlast _ =>
        rw [hpause] at hlast
        cases hlast
      | onward _ hrest =>
        have hready := (ready_step (hs.atTime _) hpause).2
        rw [wake_of_awake hready.awake] at hrest
        refine (ih hrest hready).imp_right ?_
        rintro ⟨u, j, hnext, hu, hj, hle, _⟩
        rw [Clock.later_later, Nat.add_comm] at hj
        exact ⟨u, j, hnext, hu, hj, Nat.le_succ_of_le hle, fun _ => Nat.lt_succ_of_le hle⟩

/-- What a run and those after it come to is what the program comes to. -/
theorem settles_of_cycle (hs : s.Ready) (times : Nat → Clock) (n : Nat) :
    (∀ event t, s.cycle times n = (event, t) → next? (event, t) = none →
        ∃ k, Settles times k s event t) ∧
      ∀ u, next? (s.cycle times n) = some u →
        u.Ready ∧ ∀ j event t, Settles (Clock.later times (s.made times n)) j u event t →
          ∃ k, Settles times k s event t := by
  induction n generalizing s times with
  | zero =>
    refine ⟨fun event t hcycle hend => ?_, fun u hnext => ?_⟩
    · cases hcycle
      cases hend
    · cases hnext
      rw [made, Clock.later_zero]
      exact ⟨hs, fun j event t h => ⟨j, h⟩⟩
  | succ n ih =>
    rw [cycle_succ, made_succ hs]
    cases hpause : pause? (s.atTime (times 0)).step with
    | some event =>
      refine ⟨fun event' t hcycle hend => ?_, fun u hnext => ?_⟩
      · cases hcycle
        exact ⟨1, .last hpause hend⟩
      · obtain ⟨honward, rfl⟩ := onward_of_next? hpause hnext
        exact ⟨ready_wake (hs.atTime _) honward, fun j event t h => ⟨j + 1, .onward honward h⟩⟩
    | none =>
      obtain ⟨honward, hready⟩ := ready_step (hs.atTime _) hpause
      obtain ⟨hlast, hnext⟩ := ih hready (Clock.later times 1)
      have hback : ∀ event t,
          (∃ k, Settles (Clock.later times 1) k (s.atTime (times 0)).step.2 event t) →
            ∃ k, Settles times k s event t := by
        rintro event t ⟨k, hk⟩
        rw [← wake_of_awake hready.awake] at hk
        exact ⟨k + 1, .onward honward hk⟩
      refine ⟨fun event t hcycle hend => hback _ _ (hlast event t hcycle hend), fun u hu => ?_⟩
      refine ⟨(hnext u hu).1, fun j event t h => hback _ _ ((hnext u hu).2 j event t ?_)⟩
      rwa [Clock.later_later, Nat.add_comm]

theorem settles_of_drive {budget : Nat → Nat} (hs : s.Ready)
    (hdrive : s.drive times budget n = (event, t)) (hend : next? (event, t) = none) :
    ∃ k, Settles times k s event t := by
  induction n generalizing s budget times with
  | zero =>
    cases hdrive
    cases hend
  | succ n ih =>
    rw [drive, executeAt_eq_cycle hs] at hdrive
    obtain ⟨hlast, hnext⟩ := settles_of_cycle hs times (budget 0)
    cases hu : next? (s.cycle times (budget 0)) with
    | none =>
      rw [hu] at hdrive
      exact hlast event t hdrive hend
    | some u =>
      rw [hu] at hdrive
      obtain ⟨hready, hback⟩ := hnext u hu
      obtain ⟨k, hk⟩ := ih hready hdrive
      exact hback k event t hk

theorem Settles.next?_eq_none (h : Settles times k s event t) : next? (event, t) = none := by
  induction h with
  | last _ hend => exact hend
  | onward _ _ ih => exact ih

/-- Runs that make steps at all bring a program to its end. -/
theorem Settles.drive {budget : Nat → Nat} (h : Settles times k s event t) (hs : s.Ready)
    (hbudget : ∀ i, 0 < budget i) : ∃ n, s.drive times budget n = (event, t) := by
  induction k using Nat.strongRecOn generalizing s budget times with
  | ind k ih =>
    rcases h.cycle hs (budget 0) with hcycle | ⟨u, j, hnext, hu, hj, _, hlt⟩
    · refine ⟨1, ?_⟩
      rw [Session.drive, executeAt_eq_cycle hs, hcycle, h.next?_eq_none]
    · obtain ⟨n, hn⟩ := ih j (hlt (hbudget 0)) hj hu fun i => hbudget (i + 1)
      refine ⟨n + 1, ?_⟩
      rw [Session.drive, executeAt_eq_cycle hs, hnext]
      exact hn

/-! ## The time of a step -/

section Time

variable (clock : Clock)

/-- The second result is the first, but at another time: all that can tell them apart
is the instant up to which a program sleeps. -/
structure Retimed (r r' : Outcome × Session) : Prop where
  outcome : r'.1 = r.1
  woken : r'.2.wake = r.2.wake.atTime clock
  ended : r.1 ≠ .onward → r'.2 = r.2.atTime clock

variable {clock}

theorem Retimed.of_eq {r r' : Outcome × Session} (h : r' = (r.1, r.2.atTime clock)) :
    Retimed clock r r' := by
  subst h
  exact ⟨rfl, rfl, fun _ => rfl⟩

variable (clock)

theorem returnFromCall_atTime (s : Session) : (s.atTime clock).returnFromCall =
    (s.returnFromCall.1, s.returnFromCall.2.atTime clock) := by
  have hdepth : (s.atTime clock).depth = s.depth := rfl
  unfold returnFromCall
  rw [hdepth]
  split
  · rfl
  · dsimp only [atTime]
    split <;> rfl

theorem follow_atTime (s : Session) (flow : Flow) :
    Retimed clock (s.follow flow) ((s.atTime clock).follow flow) := by
  cases flow with
  | «return» => exact .of_eq (s.returnFromCall_atTime clock)
  | rest delay => exact ⟨rfl, rfl, absurd rfl⟩
  | next | jump _ | stop => exact .of_eq rfl

theorem bindError_atTime (s : Session) (line : Nat) (e : Error) :
    (s.atTime clock).bindError line e = (s.bindError line e).map (·.atTime clock) := by
  have hprogram : (s.atTime clock).program = s.program := rfl
  have hmemory : (s.atTime clock).memory = s.memory := rfl
  unfold bindError
  rw [hprogram, hmemory]
  split
  · rename_i name _
    dsimp only
    cases s.memory.set name (.string e.description) (s.memory.variables.hasLocal name) <;> rfl
  · rfl

theorem resume_atTime (s : Session) (place : Nat) (f : Frame) (line : Nat) (t : TryBlock)
    (e : Error) : (s.atTime clock).resume place f line t e =
      ((s.resume place f line t e).1, (s.resume place f line t e).2.atTime clock) := by
  unfold resume
  dsimp only
  generalize hr : ({ s with
    memory := { s.memory with «variables» := s.memory.variables.cutTo f.depth }
    frames := (s.frames.truncate (place + 1)).modify place fun f => { f with state := .try t } } :
      Session) = r
  have hthen : ({ s.atTime clock with
      memory := { (s.atTime clock).memory with
        «variables» := (s.atTime clock).memory.variables.cutTo f.depth }
      frames := ((s.atTime clock).frames.truncate (place + 1)).modify place fun f =>
        { f with state := .try t } } : Session) = r.atTime clock := by
    rw [← hr]
    rfl
  rw [hthen, bindError_atTime]
  by_cases hphase : t.phase = .catch
  · simp only [if_pos hphase]
    cases r.bindError line e <;> rfl
  · simp only [if_neg hphase]
    rfl

theorem recoverFrom_atTime (s : Session) (e : Error) (n : Nat) :
    (s.atTime clock).recoverFrom e n =
      ((s.recoverFrom e n).1, (s.recoverFrom e n).2.atTime clock) := by
  induction n generalizing s with
  | zero => rfl
  | succ n ih =>
    have hframes : (s.atTime clock).frames = s.frames := rfl
    have hwithin : (s.atTime clock).failedWithin = s.failedWithin := rfl
    rw [recoverFrom, recoverFrom, hframes, hwithin]
    split
    · split
      · split
        · exact ih s
        · split
          · split
            · exact s.resume_atTime clock n _ _ _ e
            · exact ih s
          · exact ih { s with frames := s.frames.erase n }
      · exact ih s
    · exact ih s

theorem recover_atTime (s : Session) (e : Error) :
    (s.atTime clock).recover e = ((s.recover e).1, (s.recover e).2.atTime clock) := by
  unfold recover
  split
  · rfl
  · exact s.recoverFrom_atTime clock e _

/-- Statements of a program that never looks at the clock do the same at any time. -/
theorem step_atTime (h : s.program.readsClock = false) :
    Retimed clock s.step (s.atTime clock).step := by
  have hstopped : (s.atTime clock).stopped = s.stopped := rfl
  have hstatement : (s.atTime clock).program.statement? (s.atTime clock).line =
      s.program.statement? s.line := rfl
  unfold step
  rw [hstopped, hstatement]
  split
  · exact .of_eq rfl
  · split
    · exact .of_eq rfl
    · rename_i st hst
      have hthen := Run.execute_atTime hst h clock
      cases hx : Run.execute st s.program s.toState with
      | ok flow t =>
        rw [hx] at hthen
        simp only [State.atTime] at hthen
        simp only [atTime, hthen]
        exact (s.withState t).follow_atTime clock flow
      | error e t =>
        rw [hx] at hthen
        simp only [State.atTime] at hthen
        simp only [atTime, hthen]
        exact .of_eq ((s.withState t).recover_atTime clock _)

end Time

/-! ## The time of a run -/

/-- A program is told the time before its first step. -/
theorem Settles.atTime (h : Settles times k s event t) (clock : Clock) :
    Settles times k (s.atTime clock) event t := by
  cases h with
  | last hpause hend => exact .last (s := s.atTime clock) hpause hend
  | onward honward hrest => exact .onward honward hrest

/-- A program that never looks at the clock comes to the same end at other times. -/
theorem Settles.retimed (h : Settles times k s event t) (hp : s.program.readsClock = false)
    (times' : Nat → Clock) : ∃ clock, Settles times' k s event (t.atTime clock) := by
  induction h generalizing times' with
  | @last times s event hpause hend =>
    have hstep := step_atTime (s := s.atTime (times 0)) (times' 0) hp
    have hlast : (s.atTime (times 0)).step.1 ≠ .onward := fun honward => by
      rw [next?_of_onward honward hpause] at hend
      cases hend
    have hsession : (s.atTime (times' 0)).step.2 = (s.atTime (times 0)).step.2.atTime (times' 0) :=
      hstep.ended hlast
    rw [← pause?_eq_of_ended hstep.outcome hlast] at hpause
    refine ⟨times' 0, hsession ▸ .last hpause ?_⟩
    cases event <;> first | rfl | cases hend
  | @onward times n s t event honward hrest ih =>
    have hstep := step_atTime (s := s.atTime (times 0)) (times' 0) hp
    obtain ⟨clock, hrest'⟩ := ih ((congrArg Program.readsClock (program_step _)).trans hp)
      (Clock.later times' 1)
    have hwoken : (s.atTime (times' 0)).step.2.wake =
        (s.atTime (times 0)).step.2.wake.atTime (times' 0) := hstep.woken
    exact ⟨clock, .onward (hstep.outcome.trans honward) (hwoken ▸ hrest'.atTime (times' 0))⟩

/-! ## Budgets -/

theorem next?_eq_none_of_isFinal (h : event.isFinal = true) (t : Session) :
    next? (event, t) = none := by
  cases event <;> first | rfl | cases h

theorem executeAt_of_stopped (hawake : s.wakeAt = none) (hcalm : s.interrupted = false)
    (hstopped : s.stopped = true) (times : Nat → Clock) (n : Nat) :
    s.executeAt times n = (.stopped, s) := by
  unfold executeAt executeAwake
  simp [hawake, hcalm, hstopped]

/-- However the steps of a program that was stopped are dealt out, it is left alone. -/
theorem drive_of_stopped (hawake : s.wakeAt = none) (hcalm : s.interrupted = false)
    (hstopped : s.stopped = true) {budget : Nat → Nat}
    (hdrive : s.drive times budget n = (event, t)) (hfinal : event.isFinal = true) :
    event = .stopped ∧ t = s := by
  cases n with
  | zero =>
    cases hdrive
    cases hfinal
  | succ n =>
    rw [drive, executeAt_of_stopped hawake hcalm hstopped] at hdrive
    cases hdrive
    exact ⟨rfl, rfl⟩

/-- The budget of a run does not change what a program does. A run makes the steps that
would be made one by one at the same times, up to the first pause or until its budget is
used up. Two runs with no pause between them do what one run with both budgets does. A
program that ends or fails when its steps are dealt out in one way does so in every other
way, with the same event and in the same state. If it never looks at the clock, it does so
at any times, and only the time on the clock of its host can differ in the end. -/
theorem the_budget_never_matters (hawake : s.wakeAt = none) (hcalm : s.interrupted = false) :
    (∀ times n, s.Performs times n (s.made times n) (s.executeAt times n)) ∧
      (∀ times m n t, s.executeAt times m = (.running, t) →
        t.executeAt (Clock.later times m) n = s.executeAt times (m + n)) ∧
      ∀ times times' : Nat → Clock, (s.program.readsClock = true → times = times') →
        ∀ budget budget' : Nat → Nat, (∀ i, 0 < budget i) → (∀ i, 0 < budget' i) →
          ∀ n event t, s.drive times budget n = (event, t) → event.isFinal = true →
            (∃ n' clock, s.drive times' budget' n' = (event, t.atTime clock)) ∧
            ∀ n' event' t', s.drive times' budget' n' = (event', t') → event'.isFinal = true →
              event' = event ∧ t' = t.atTime t'.host.clock ∧ (times = times' → t' = t) := by
  cases hstopped : s.stopped with
  | true =>
    have hexecute := executeAt_of_stopped hawake hcalm hstopped
    refine ⟨fun times n => ?_, fun times m n t hrun => ?_,
      fun times times' _ budget budget' _ _ n event t hn hfinal => ?_⟩
    · have hmade : s.made times n = 0 := by cases n <;> simp [made, hstopped]
      rw [hexecute, hmade]
      refine ⟨Nat.zero_le n, rfl, nofun, Or.inl ?_⟩
      rw [stepped, hstopped]
      rfl
    · rw [hexecute] at hrun
      cases hrun
    · obtain ⟨rfl, rfl⟩ := drive_of_stopped hawake hcalm hstopped hn hfinal
      refine ⟨⟨1, t.host.clock, ?_⟩, fun n' event' t' h' hfinal' => ?_⟩
      · rw [drive, hexecute]
        rfl
      · obtain ⟨rfl, rfl⟩ := drive_of_stopped hawake hcalm hstopped h' hfinal'
        exact ⟨rfl, rfl, fun _ => rfl⟩
  | false =>
    have hready : s.Ready := ⟨hawake, hcalm, hstopped⟩
    refine ⟨fun times n => ?_, fun times m n t hrun => ?_,
      fun times times' htimes budget budget' _ hbudget' n event t hn hfinal => ?_⟩
    · rw [executeAt_eq_cycle hready]
      exact cycle_performs hready times n
    · rw [executeAt_eq_cycle hready] at hrun ⊢
      obtain ⟨ht, hadd⟩ := cycle_add hready hrun
      rw [executeAt_eq_cycle ht, hadd]
    · -- Both ways come to the one end that the program has.
      obtain ⟨k, hk⟩ := settles_of_drive hready hn (next?_eq_none_of_isFinal hfinal t)
      obtain ⟨clock, hk'⟩ : ∃ clock, Settles times' k s event (t.atTime clock) := by
        cases hreads : s.program.readsClock with
        | true => exact ⟨t.host.clock, htimes hreads ▸ hk⟩
        | false => exact hk.retimed hreads times'
      obtain ⟨n', hn'⟩ := hk'.drive hready hbudget'
      refine ⟨⟨n', clock, hn'⟩, fun n' event' t' h' hfinal' => ?_⟩
      obtain ⟨j, hj⟩ := settles_of_drive hready h' (next?_eq_none_of_isFinal hfinal' t')
      obtain ⟨rfl, rfl⟩ := hk'.unique hj
      refine ⟨rfl, rfl, fun hsame => ?_⟩
      subst hsame
      exact ((hk.unique hj).2).symm

/-- A program that sleeps and then goes on, one step at a time and five, slowly and all
at once. -/
theorem the_budget_never_matters_to_a_sleeper :
    let s := start (.ofStatements [.sleep (.integer 1),
      .assign (.variable ⟨['x', '%']⟩) (.integer 2),
      .assign (.variable ⟨['y', '%']⟩) (.variable ⟨['x', '%']⟩)]) 7 {}
    let slowly := fun n => ({ instant := n } : Clock)
    let atOnce := fun _ => ({} : Clock)
    s.wakeAt = none ∧ s.interrupted = false ∧ s.program.readsClock = false ∧
      (s.executeAt slowly 5).2.wakeAt.isSome = true ∧
      (s.drive slowly (fun _ => 1) 4).1 = .stopped ∧
      ∃ n clock, s.drive atOnce (fun _ => 5) n =
        (.stopped, (s.drive slowly (fun _ => 1) 4).2.atTime clock) := by
  intro s slowly atOnce
  have hreads : s.program.readsClock = false := rfl
  have hstopped : (s.drive slowly (fun _ => 1) 4).1 = .stopped := by decide +kernel
  refine ⟨rfl, rfl, hreads, by decide +kernel, hstopped, ?_⟩
  exact ((the_budget_never_matters (s := s) rfl rfl).2.2 slowly atOnce
    (fun hr => by rw [hreads] at hr; cases hr) (fun _ => 1) (fun _ => 5) (fun _ => Nat.one_pos)
    (fun _ => Nat.succ_pos 4) 4 .stopped _ (Prod.ext hstopped rfl) rfl).1

end Session

end LineBasic
