-- FINALLY runs exactly once. A run of a TRY block is a sequence of visits to its
-- sections, and each visit ends in a step to the next section or out of the block. The
-- body is visited first, CATCH when the body raised an error, FINALLY always and last.
import LineBasic.Proofs.Clauses

namespace LineBasic

/-! ## States of a run -/

namespace Session

variable {p : Program} {s t : Session}

/-- What is known of every state of a program that runs. -/
structure Lawful (p : Program) (s : Session) : Prop where
  regular : s.Regular p
  nests : s.stopped = false → s.control.Nests p
  traced : s.stopped = false → s.Traced

theorem Reachable.lawful (hg : p.Guarded) (hs : Reachable p s) : s.Lawful p :=
  ⟨reachable_regular hg.made hs, reachable_nests hg.jumpless hg.made hs,
    (reachable_traced hg.made hs).2⟩

theorem Lawful.happens (h : s.Lawful p) (hg : p.Guarded) (hn : Happens s t) : t.Lawful p :=
  ⟨hn.regular hg.made h.regular, hn.nests hg.jumpless h.regular h.nests,
    hn.traced h.regular h.traced⟩

theorem Lawful.follows (h : s.Lawful p) (hg : p.Guarded) (hf : s.Follows t) : t.Lawful p := by
  obtain ⟨host, wakeAt, interrupted, rfl⟩ := hf
  exact (h.happens hg .step).happens hg (.outside host wakeAt interrupted)

/-- The error that the statement at the current line raises, if it fails. -/
def failure? (s : Session) : Option Error :=
  (s.program.statement? s.line).bind fun st =>
    match Run.execute st s.program s.toState with
    | .error e _ => some (e.inLine s.line)
    | .ok _ _ => none

theorem FailsWith.failure?_eq {st : Statement} {e : Error} {u : Session} (h : s.FailsWith st e u) :
    s.failure? = some e := by
  obtain ⟨_, hst, e₀, v, hx, rfl, _⟩ := h
  simp only [failure?, hst, Option.bind_some, hx]

end Session

/-! ## Runs of a block -/

/-- The ending of a block with a FINALLY section that is entered after `r`, if there
is one: an error that is raised there replaces what was before. -/
def Completion.followedBy (r : Completion) : Option Completion → Completion
  | some (.raised e) => .raised e
  | _ => r

namespace Attempt

/-- The block has been entered and not yet been left. -/
def Active (X : Attempt) (t : Session) : Prop :=
  t.stopped = false ∧ ∃ phase pending, X.Holds phase pending t.frames

/-- The block is active until time `n`. -/
def Lasts (X : Attempt) (σ : Nat → Session) (n : Nat) : Prop := ∀ k ≤ n, X.Active (σ k)

/-- A run of the block that is not left by EXIT, CONTINUE, RETURN or END, raises no
structural error and does not go on for ever. -/
structure Behaves (X : Attempt) (σ : Nat → Session) : Prop where
  next : ∀ n, (σ n).Follows (σ (n + 1))
  stays : ∀ n, X.Lasts σ n → X.Stays (σ n)
  mild : ∀ n, X.Lasts σ n → ∀ st e u, (σ n).FailsWith st e u → e.isStructural = false
  leaves : ∃ n, ¬ X.Lasts σ n

/-- The program runs in a section of the block, and the next step raises no error that
leaves the section. -/
structure Proceeds (X : Attempt) (phase : TryPhase) (pending : Option Error) (t : Session) :
    Prop where
  inside : X.In phase pending t
  calm : ∀ e, ¬ t.Escapes e (X.below.length + 1)

/-- The block is in one phase from time `m` until right before another time. The
program starts at the first line of the section of that phase and proceeds in it. When
the section has finished, it goes on at lines of the block itself. When the section
has raised an error that no inner block takes, the phase is over. -/
inductive Visits (X : Attempt) (σ : Nat → Session) (phase : TryPhase) (pending : Option Error)
    (m : Nat) : Nat → Completion → Prop where
  | finished {n z : Nat} (hn : m ≤ n) (hz : n < z)
      (begins : X.On (X.low phase + 1) phase pending (σ m))
      (inside : ∀ k, m ≤ k → k < n → X.Proceeds phase pending (σ k))
      (ends : X.On (X.high phase) phase pending (σ n))
      (after : ∀ k, n < k → k < z → X.On (X.high .catch) phase pending (σ k)) :
      Visits X σ phase pending m z .finished
  | raised {n : Nat} {e : Error} (hn : m ≤ n)
      (begins : X.On (X.low phase + 1) phase pending (σ m))
      (inside : ∀ k, m ≤ k → k < n → X.Proceeds phase pending (σ k))
      (last : X.In phase pending (σ n)) (raises : (σ n).Escapes e (X.below.length + 1)) :
      Visits X σ phase pending m (n + 1) (.raised e)

/-- The sections that a run enters, in that order and each with its ending, from one
time until right before another. -/
inductive Course (X : Attempt) (σ : Nat → Session) :
    List (TryPhase × Completion) → Nat → Nat → Prop where
  | nil (n : Nat) : Course X σ [] n n
  | cons {phase : TryPhase} {pending : Option Error} {r : Completion} {m n z : Nat}
      {rest : List (TryPhase × Completion)} (h : X.Visits σ phase pending m n r)
      (ht : Course X σ rest n z) : Course X σ ((phase, r) :: rest) m z

/-- A section that may have been entered, as a part of a course. -/
def entered (phase : TryPhase) (r : Option Completion) : List (TryPhase × Completion) :=
  (r.map (phase, ·)).toList

end Attempt

/-- The statement at the current line enters a TRY block, and `σ` is what happens
then. -/
structure Session.Attempts (s : Session) (σ : Nat → Session) : Prop where
  running : s.stopped = false
  statement : s.program.statement? s.line = some .try
  enters : ∀ e u, ¬ s.FailsWith .try e u
  first : s.Follows (σ 0)
  behaves : s.attempt.Behaves σ

/-! ## Entering a block -/

section Visit

variable {p : Program} {X : Attempt} {σ : Nat → Session} {phase : TryPhase}
  {pending : Option Error} {m n : Nat}

/-- A TRY that does not fail puts a fresh frame on the stack. -/
theorem Moves.of_try {c c' : Control} {flow : Flow} (hm : Moves p c .try flow c') :
    ∃ last frames, p.closer c.line Statement.closesTry = some last ∧
      c.frames.enter ⟨c.line, last, c.depth, .try ⟨.body, p.closer c.line Statement.isCatch,
        p.closer c.line Statement.isFinally, none⟩⟩ = .ok frames ∧
      flow = .next ∧ c' = { c with frames } := by
  cases hm with
  | onward hs _ => rcases hs with hs | ⟨_, _, hs | hs, _⟩ <;> cases hs
  | «return» hs => rcases hs with hs | hs <;> cases hs
  | passed hr _ | closed hr _ | closedNothing hr _ | left hr _ => cases hr
  | clause hr _ _ | again hr _ _ => cases hr
  | skipped hr _ _ _ | tookClause hr _ _ _ => cases hr
  | finallyAlone hs => cases hs
  | toLast hs _ _ => rcases hs with hs | ⟨hs, _⟩ <;> cases hs
  | @opened _ last state frames _ _ hclose hfresh henter hflow _ =>
    obtain ⟨hkind, hblock⟩ := hfresh
    cases state with
    | «try» b =>
      obtain ⟨phase, catchLine, finallyLine, pending⟩ := b
      obtain ⟨rfl, rfl, rfl, rfl⟩ := hblock _ rfl
      refine ⟨last, frames, hclose, henter, ?_, rfl⟩
      rcases hflow with rfl | ⟨hb, _⟩
      · rfl
      · cases hb
    | _ => cases hkind

/-- A TRY that does not fail enters its block. -/
theorem Session.Attempts.enters_body {s : Session} (h : s.Attempts σ) (hg : p.Guarded)
    (ho : s.Lawful p) : s.attempt.Stands p ∧
      s.attempt.On (s.attempt.low .body + 1) .body none (σ 0) := by
  obtain ⟨hrun, hst, henters, ⟨host, wakeAt, interrupted, hfirst⟩, _⟩ := h
  have hn := ho.nests hrun
  obtain ⟨rfl, _, _⟩ := ho.regular
  rcases s.step_cases hrun with ⟨hnone, _⟩ | ⟨st, hst', ⟨flow, v, hm, hstep⟩ | ⟨e, u, hf⟩⟩
  · cases hnone.symm.trans hst
  · cases hst.symm.trans hst'
    obtain ⟨last, frames, hclose, henter, rfl, hcontrol⟩ := hm.of_try
    have hlast : s.attempt.last = last := congrArg (Option.getD · s.line) hclose
    have hdepth : s.attempt.depth = s.control.depth := State.depth_control s.toState
    have hX : s.attempt.Stands s.program :=
      ⟨hst, hg.tidy _ hst, hlast ▸ hclose, rfl, rfl⟩
    have hcontrol' : (σ 0).control = { s.control with line := s.line + 1, frames } := by
      rw [hfirst]
      change s.step.2.control = _
      rw [hstep]
      change { v.control with line := v.control.line + 1 } = _
      rw [hcontrol]
      rfl
    have hitems : frames.items = s.attempt.below ++ [s.attempt.frame .body none] := by
      unfold Frames.enter at henter
      rw [Frames.leave_of_none _ hn.place?_line] at henter
      rw [(Stack.push_eq_ok _ henter).2, ← hlast, ← hdepth]
      rfl
    refine ⟨hX, ?_, ?_, ?_, ?_⟩
    · rw [hfirst]
      change s.step.2.stopped = false
      rw [hstep]
      exact hrun
    · rw [hcontrol']
      rfl
    · rw [hcontrol', hdepth]
      rfl
    · rw [hcontrol']
      exact hitems
  · cases hst.symm.trans hst'
    exact absurd hf (henters e u)

/-! ## One visit -/

namespace Attempt

theorem Arrives.active {t : Session} (h : X.Arrives phase pending t) : X.Active t :=
  ⟨h.running, phase, pending, h.reaches.holds⟩

theorem On.holds {t : Session} {line : Nat} (h : X.On line phase pending t) :
    X.Holds phase pending t.frames :=
  ⟨[], (List.append_nil _).trans h.items_eq.symm⟩

theorem On.active {t : Session} {line : Nat} (h : X.On line phase pending t) : X.Active t :=
  ⟨h.running, phase, pending, h.holds⟩

theorem Lasts.succ (h : X.Lasts σ n) (ha : X.Active (σ (n + 1))) : X.Lasts σ (n + 1) := by
  intro k hk
  rcases Nat.eq_or_lt_of_le hk with rfl | hlt
  · exact ha
  · exact h k (Nat.le_of_lt_succ hlt)

/-- A section starts at its first line. -/
theorem On.arrives {t : Session} (h : X.On (X.low phase + 1) phase pending t) (hX : X.Stands p)
    (hp : X.has phase = true) : X.Arrives phase pending t := by
  obtain ⟨_, _, hspan, _⟩ := hX.stretch hp
  refine ⟨h.running, h.holds, _, Or.inl ⟨h.depth_eq.symm, h.line_eq.symm⟩, ?_, hspan.lt⟩
  exact Nat.lt_succ_self _

/-- What happens outside between two steps moves the program nowhere. -/
theorem Arrives.follows {t t' : Session} (hf : t.Follows t')
    (h : X.Arrives phase pending t.step.2) : X.Arrives phase pending t' := by
  obtain ⟨_, _, _, rfl⟩ := hf
  exact ⟨h.running, h.reaches⟩

theorem On.follows {t t' : Session} {line : Nat} (hf : t.Follows t')
    (h : X.On line phase pending t.step.2) : X.On line phase pending t' := by
  obtain ⟨_, _, _, rfl⟩ := hf
  exact ⟨h.running, h.line_eq, h.depth_eq, h.items_eq⟩

/-- A program that has arrived at a section proceeds in it until it gets to the line
after it or raises an error that no inner block takes. -/
theorem Behaves.visit (hb : X.Behaves σ) (hg : p.Guarded) (hX : X.Stands p)
    (ho : ∀ n, (σ n).Lawful p) (hp : X.has phase = true) (hm : X.Lasts σ m)
    (ha : X.Arrives phase pending (σ m)) :
    ∃ n, m ≤ n ∧ X.Lasts σ n ∧ (∀ k, m ≤ k → k < n → X.Proceeds phase pending (σ k)) ∧
      (X.On (X.high phase) phase pending (σ n) ∨
        X.In phase pending (σ n) ∧ ∃ e, (σ n).Escapes e (X.below.length + 1)) := by
  obtain ⟨z, hz⟩ := hb.leaves
  -- The induction is on the time that is left to the block.
  induction hd : z - m generalizing m with
  | zero => exact absurd (fun k hk => hm k (by omega)) hz
  | succ d ih =>
    have hr := (ho m).regular
    have hn := (ho m).nests ha.running
    rcases ha.reaches.cases hX hp hr.sound hn with hw | ⟨hline, hdepth, hitems⟩
    · have hin : X.In phase pending (σ m) := ⟨ha.running, hw⟩
      by_cases he : ∃ e, (σ m).Escapes e (X.below.length + 1)
      · exact ⟨m, Nat.le_refl m, hm, fun k hk hkm => by omega, Or.inr ⟨hin, he⟩⟩
      · have harrive := (hin.step hg hX hp hr hn (hb.stays m hm) (hb.mild m hm)).resolve_right he
        have hnext := Arrives.follows (hb.next m) harrive
        obtain ⟨n, hmn, hlasts, hinside, hend⟩ := ih (hm.succ hnext.active) hnext (by omega)
        refine ⟨n, by omega, hlasts, fun k hk hkn => ?_, hend⟩
        rcases Nat.eq_or_lt_of_le hk with rfl | hlt
        · exact ⟨hin, fun e hesc => he ⟨e, hesc⟩⟩
        · exact hinside k hlt hkn
    · refine ⟨m, Nat.le_refl m, hm, fun k hk hkm => by omega, Or.inl ?_⟩
      exact ⟨ha.running, hline, hdepth, hitems⟩

/-- A visit to a section that finishes, when the step after it changes the phase or
leaves the block. -/
theorem Visits.of_on (hmn : m ≤ n) (hbegins : X.On (X.low phase + 1) phase pending (σ m))
    (hinside : ∀ k, m ≤ k → k < n → X.Proceeds phase pending (σ k))
    (hon : X.On (X.high phase) phase pending (σ n)) :
    X.Visits σ phase pending m (n + 1) .finished :=
  .finished hmn (Nat.lt_succ_self n) hbegins hinside hon fun k hk hkn => by omega

/-! ## The ways to the end -/

/-- From time `m` on the run enters FINALLY, if there is one, and leaves the block. Up
to there it has ended as `r`. -/
def Closes (X : Attempt) (σ : Nat → Session) (m : Nat) (r : Completion) : Prop :=
  ∃ cleanup N, cleanup.isSome = X.finallyLine.isSome ∧
    X.Course σ (entered .finally cleanup) m (N + 1) ∧ X.Ends (σ N) (r.followedBy cleanup)

/-- The ending that an error which waits for the end of a block stands for. -/
def waiting : Option Error → Completion
  | none => .finished
  | some e => .raised e

/-- A block without FINALLY is left at once. -/
theorem Closes.of_ends {r : Completion} (hf : X.finallyLine = none) (h : X.Ends (σ n) r) :
    X.Closes σ (n + 1) r :=
  ⟨none, n, by rw [hf]; rfl, .nil (n + 1), h⟩

variable (hb : X.Behaves σ) (hg : p.Guarded) (hX : X.Stands p) (ho : ∀ n, (σ n).Lawful p)
include hb hg hX ho

/-- A run that has arrived at FINALLY leaves the block after it. -/
theorem Behaves.closes {f : Nat} (hf : X.finallyLine = some f) (hm : X.Lasts σ m)
    (hbegins : X.On (X.low .finally + 1) .finally pending (σ m)) :
    X.Closes σ m (waiting pending) := by
  have hp : X.has .finally = true := Option.isSome_iff_exists.2 ⟨f, hf⟩
  have hsome : ∀ r : Completion, (some r).isSome = X.finallyLine.isSome := fun r => by rw [hf]; rfl
  obtain ⟨n, hmn, _, hinside, hon | ⟨hin, e, he⟩⟩ := hb.visit hg hX ho hp hm (hbegins.arrives hX hp)
  · refine ⟨some .finished, n, hsome _, .cons (.of_on hmn hbegins hinside hon) (.nil _), ?_⟩
    have hr := (ho n).regular
    cases pending with
    | none => exact hon.passes_endTry hX hr
    | some e =>
      obtain ⟨l, _, hl⟩ := (ho n).traced hon.running X.below.length e
        ⟨X.frame .finally (some e), _, hon.holds.get?, rfl, rfl⟩
      exact hon.raises hX hr hl
  · have hvisit := Visits.raised hmn hbegins hinside hin he
    refine ⟨some (.raised e), n, hsome _, .cons hvisit (.nil _), ?_⟩
    refine hin.ends hX hp (ho n).regular ((ho n).nests hin.running) he fun line new ha => ?_
    cases ha with
    | toCatch hphase _ => cases hphase
    | toFinally hphase _ => rcases hphase with ⟨hphase, _⟩ | hphase <;> cases hphase

/-- A run that has got to the line after CATCH with no error enters FINALLY or passes
END TRY. -/
theorem Behaves.closes_of_on (hn : X.Lasts σ n) (hon : X.On (X.high .catch) phase none (σ n)) :
    X.Closes σ (n + 1) .finished := by
  have hr := (ho n).regular
  cases hf : X.finallyLine with
  | none =>
    rw [high_catch_of_none hf] at hon
    exact .of_ends hf (hon.passes_endTry hX hr)
  | some f =>
    rw [high_catch_of_finally hf] at hon
    have hbegins := On.follows (hb.next n) (hon.starts_finally hf hX hr)
    exact hb.closes hg hX ho hf (hn.succ hbegins.active) hbegins

/-- An error that CATCH does not take starts FINALLY or leaves the block. -/
theorem Behaves.closes_of_escapes {e : Error} (hp : X.has phase = true)
    (hphase : phase = .body ∧ X.catchLine = none ∨ phase = .catch) (hn : X.Lasts σ n)
    (hin : X.In phase none (σ n)) (he : (σ n).Escapes e (X.below.length + 1)) :
    X.Closes σ (n + 1) (.raised e) := by
  have hr := (ho n).regular
  have hnests := (ho n).nests hin.running
  cases hf : X.finallyLine with
  | none =>
    refine .of_ends hf (hin.ends hX hp hr hnests he fun line new ha => ?_)
    cases ha with
    | toCatch hbody hc =>
      rcases hphase with ⟨_, hnone⟩ | rfl
      · cases hnone.symm.trans hc
      · cases hbody
    | toFinally _ hfl => cases hf.symm.trans hfl
  | some f =>
    have hadv : (X.block phase none).Advances e f (X.block .finally (some e)) :=
      .toFinally hphase hf
    have hbegins := On.follows (hb.next n) (hin.taken hg hX hp hr hnests (hb.mild n hn) he hadv)
    exact hb.closes hg hX ho hf (hn.succ hbegins.active) hbegins

/-- A run that has arrived at CATCH goes through it, and then to the end. -/
theorem Behaves.closes_of_catch {c : Nat} (hc : X.catchLine = some c) (hm : X.Lasts σ m)
    (hbegins : X.On (X.low .catch + 1) .catch none (σ m)) :
    ∃ r z, X.Visits σ .catch none m z r ∧ X.Closes σ z r := by
  have hp : X.has .catch = true := Option.isSome_iff_exists.2 ⟨c, hc⟩
  obtain ⟨n, hmn, hlasts, hinside, hon | ⟨hin, e, he⟩⟩ :=
    hb.visit hg hX ho hp hm (hbegins.arrives hX hp)
  · exact ⟨.finished, n + 1, .of_on hmn hbegins hinside hon, hb.closes_of_on hg hX ho hlasts hon⟩
  · exact ⟨.raised e, n + 1, .raised hmn hbegins hinside hin he,
      hb.closes_of_escapes hg hX ho hp (Or.inr rfl) hlasts hin he⟩

/-- A run of a block goes through its body, through CATCH when the body raised an
error, and then to the end. -/
theorem Behaves.course (hm : X.Lasts σ 0) (hbegins : X.On (X.low .body + 1) .body none (σ 0)) :
    ∃ body caught n z, X.Visits σ .body none 0 n body ∧ X.Course σ (entered .catch caught) n z ∧
      (caught.isSome = true ↔ X.catchLine.isSome = true ∧ body ≠ .finished) ∧
      X.Closes σ z (caught.getD body) := by
  obtain ⟨n, hmn, hlasts, hinside, hon | ⟨hin, e, he⟩⟩ :=
    hb.visit hg hX ho rfl hm (hbegins.arrives hX rfl)
  · have hcaught : (none : Option Completion).isSome = true ↔
        X.catchLine.isSome = true ∧ Completion.finished ≠ .finished := by simp
    cases hc : X.catchLine with
    | none =>
      have hvisit := Visits.of_on hmn hbegins hinside hon
      refine ⟨.finished, none, n + 1, n + 1, hvisit, .nil _, hc ▸ hcaught, ?_⟩
      rw [high_body_of_none hc] at hon
      exact hb.closes_of_on hg hX ho hlasts hon
    | some c =>
      -- CATCH is passed over at one more line of the block.
      have hpass := On.follows (hb.next n)
        (((high_body_of_catch hc) ▸ hon).passes_catch hc hX (ho n).regular)
      refine ⟨.finished, none, n + 2, n + 2, ?_, .nil _, hc ▸ hcaught, ?_⟩
      · refine .finished hmn (by omega) hbegins hinside hon fun k hk hkn => ?_
        obtain rfl : k = n + 1 := by omega
        exact hpass
      · exact hb.closes_of_on hg hX ho (hlasts.succ hpass.active) hpass
  · have hvisit := Visits.raised hmn hbegins hinside hin he
    cases hc : X.catchLine with
    | none =>
      refine ⟨.raised e, none, n + 1, n + 1, hvisit, .nil _, by simp, ?_⟩
      exact hb.closes_of_escapes hg hX ho rfl (Or.inl ⟨rfl, hc⟩) hlasts hin he
    | some c =>
      have hadv : (X.block .body none).Advances e c (X.block .catch none) := .toCatch rfl hc
      have hr := (ho n).regular
      have hnests := (ho n).nests hin.running
      have hstart :=
        On.follows (hb.next n) (hin.taken hg hX rfl hr hnests (hb.mild n hlasts) he hadv)
      obtain ⟨r, z, hcatch, hclose⟩ :=
        hb.closes_of_catch hg hX ho hc (hlasts.succ hstart.active) hstart
      exact ⟨.raised e, some r, n + 1, z, hvisit, .cons hcatch (.nil _), by simp, hclose⟩

end Attempt

theorem Attempt.Ends.unique {t : Session} {r r' : Completion} (h : X.Ends t r) (h' : X.Ends t r') :
    r = r' := by
  cases h with
  | finished _ hf _ _ _ _ =>
    cases h' with
    | finished _ _ _ _ _ _ => rfl
    | raised h' =>
      obtain ⟨st, u, hfails, _⟩ := h'
      exact absurd hfails (hf st _ u)
  | raised h =>
    obtain ⟨st, u, hfails, _⟩ := h
    cases h' with
    | finished _ hf _ _ _ _ => exact absurd hfails (hf st _ u)
    | raised h' =>
      obtain ⟨st', u', hfails', _⟩ := h'
      cases hfails.failure?_eq.symm.trans hfails'.failure?_eq
      rfl

theorem Attempt.Course.append {l l' : List (TryPhase × Completion)} {z : Nat} (h : X.Course σ l m n)
    (h' : X.Course σ l' n z) : X.Course σ (l ++ l') m z := by
  induction h with
  | nil _ => exact h'
  | cons hv _ ih => exact .cons hv (ih h')

end Visit

/-! ## FINALLY runs exactly once -/

section

open Session Attempt

variable {b : Body} {s : Session} {σ : Nat → Session}

/-- In a well-nested program without GOTO and GOSUB, every run of a TRY block that
stays in it until it is over enters its body and then CATCH, if there is one and the
body raised an error, and then FINALLY, if there is one, and no section twice. It
passes END TRY unless the last of body and CATCH, or FINALLY, raised an error. The
error that leaves the block is the last of these, and it names the line of the
statement that raised it first. -/
theorem finally_runs_exactly_once (hb : b.Guarded)
    (hs : Reachable (Program.ofStatements b.text) s) (h : s.Attempts σ) :
    ∃ (body : Completion) (caught cleanup : Option Completion) (N : Nat),
      s.attempt.Course σ ((.body, body) :: (entered .catch caught ++ entered .finally cleanup))
        0 (N + 1) ∧
      (caught.isSome = true ↔ s.attempt.catchLine.isSome = true ∧ body ≠ .finished) ∧
      cleanup.isSome = s.attempt.finallyLine.isSome ∧
      (∀ r, s.attempt.Ends (σ N) r ↔ r = (caught.getD body).followedBy cleanup) ∧
      ∀ e, s.attempt.Ends (σ N) (.raised e) → ∃ l, Raises (σ N) e l ∧ e.line = some l := by
  have hg := hb.program
  have hlawful := hs.lawful hg
  obtain ⟨hX, hbegins⟩ := h.enters_body hg hlawful
  have ho : ∀ n, (σ n).Lawful (Program.ofStatements b.text) := by
    intro n
    induction n with
    | zero => exact hlawful.follows hg h.first
    | succ n ih => exact ih.follows hg (h.behaves.next n)
  have hlasts : s.attempt.Lasts σ 0 := by
    intro k hk
    obtain rfl := Nat.le_zero.1 hk
    exact hbegins.active
  obtain ⟨body, caught, n, z, hvisit, hcatch, hcaught, cleanup, N, hsome, hfinally, hends⟩ :=
    h.behaves.course hg hX ho hlasts hbegins
  refine ⟨body, caught, cleanup, N, .cons hvisit (hcatch.append hfinally), hcaught, hsome, ?_, ?_⟩
  · refine fun r => ⟨fun hr => hr.unique hends, ?_⟩
    rintro rfl
    exact hends
  · rintro e (⟨_⟩ | ⟨⟨st, u, hfails, _⟩⟩)
    exact hfails.raises (ho N).regular ((ho N).traced hfails.running)

/-- The body calls a SUB that raises an error, CATCH takes it, and FINALLY comes last. -/
theorem finally_runs_after_a_caught_error :
    let b : Body := .block (.sub ⟨['S']⟩ []) (.last (.line (.throw (.string "boom")) .nil) .endSub)
      (.block .try (.clause (.line (.call ⟨['s']⟩ []) .nil) (.catch (some ⟨['e', '$']⟩))
        (.clause .nil .finally (.last .nil .endTry))) .nil)
    let s := (Session.start (Program.ofStatements b.text) 7 {}).step.2
    let σ := fun n => Nat.repeat (fun t : Session => t.step.2) (n + 1) s
    b.Guarded ∧ s.Attempts σ ∧
      ∃ sections r N, s.attempt.Course σ (sections ++ [(.finally, r)]) 0 (N + 1) := by
  intro b s σ
  have hb : b.Guarded := by
    refine ⟨by decide, by decide, by decide, ?_⟩
    rintro st hst name rfl
    obtain rfl : name = ⟨['e', '$']⟩ := by simpa [b, Body.text, Parts.text] using hst
    decide
  have hleft : ¬ s.attempt.Active (σ 4) := by
    rintro ⟨_, phase, pending, hholds⟩
    have hlen := hholds.length_le
    rw [show (σ 4).frames.items.length = 0 by decide +kernel, List.length_append] at hlen
    exact absurd hlen (Nat.not_succ_le_zero _)
  have hle : ∀ n, s.attempt.Lasts σ n → n ≤ 3 := by
    intro n hn
    rcases Nat.lt_or_ge n 4 with hlt | hge
    · exact Nat.le_of_lt_succ hlt
    · exact absurd (hn 4 hge) hleft
  have hcalm : ∀ n ≤ 3, ((σ n).program.statement? (σ n).line).any
      (fun st => st.isSteady || st.callee?.isSome || st.role != .plain) = true := by
    decide +kernel
  have hmild : ∀ n ≤ 3, (σ n).failure?.any Error.isStructural = false := by decide +kernel
  have h : s.Attempts σ := by
    refine ⟨rfl, rfl, ?_, ⟨_, _, _, rfl⟩, fun n => ⟨_, _, _, rfl⟩, fun n hn => ?_, ?_, 4, ?_⟩
    · intro e u hf
      have hnone : s.failure?.isNone = true := by decide +kernel
      rw [hf.failure?_eq] at hnone
      cases hnone
    · have hcalm := hcalm n (hle n hn)
      refine ⟨?_, fun hst => ?_, fun hst => ?_⟩
      · rintro kind name i (hst | hst) _ <;> rw [hst] at hcalm <;> cases hcalm
      · rw [hst] at hcalm
        cases hcalm
      · rw [hst] at hcalm
        cases hcalm
    · intro n hn st e u hf
      have hmild := hmild n (hle n hn)
      rwa [hf.failure?_eq, Option.any_some] at hmild
    · exact fun hlasts => hleft (hlasts 4 (Nat.le_refl 4))
  refine ⟨hb, h, ?_⟩
  obtain ⟨body, caught, cleanup, N, hcourse, _, hsome, _⟩ :=
    finally_runs_exactly_once hb (.step (.start 7 {})) h
  have hfinally : s.attempt.finallyLine.isSome = true := by decide +kernel
  obtain ⟨r, rfl⟩ := Option.isSome_iff_exists.1 (hsome.trans hfinally)
  exact ⟨(.body, body) :: entered .catch caught, r, N, hcourse⟩

end

end LineBasic
