-- Letter case of names never matters. A program and the same program in capitals
-- take step after step side by side, so two programs that differ only in the
-- letter case of names do. They may differ in the messages of errors alone, which
-- quote names as they are spelled.
import LineBasic.Proofs.Echoes
import LineBasic.Proofs.Labels
import LineBasic.Proofs.References
import LineBasic.Proofs.Storage

namespace LineBasic

/-! ## Errors -/

namespace Error

variable {e f : Error}

theorem unworded_eq_iff : e.unworded = f.unworded ↔ e.code = f.code ∧ e.line = f.line := by
  simp [unworded]

theorem inLine_eq (h : e.unworded = f.unworded) (line : Nat) :
    (e.inLine line).unworded = (f.inLine line).unworded := by
  obtain ⟨hcode, hline⟩ := unworded_eq_iff.1 h
  unfold inLine
  rw [hline]
  cases f.line with
  | some l => exact h
  | none => exact unworded_eq_iff.2 ⟨hcode, rfl⟩

theorem isStructural_eq (h : e.unworded = f.unworded) : e.isStructural = f.isStructural := by
  rw [isStructural, isStructural, (unworded_eq_iff.1 h).1]

end Error

/-! ## Calls -/

theorem keys_lentTo_sublist (params : List Parameter) (args : List Expression) :
    ((lentTo params args).map (·.1.key)).Sublist (params.map (·.name.key)) := by
  fun_induction lentTo params args with
  | case1 p ps target es href ih => exact ih.cons_cons _
  | case2 p ps target es href ih => exact ih.cons _
  | case3 p ps e es hplain ih => exact ih.cons _
  | case4 params args hnil hplain => exact List.nil_sublist _

namespace Program

/-- No CALL of the program depends on the order in which its references are entered. -/
def OrderFree (p : Program) : Prop :=
  ∀ line st, p.statement? line = some st → ∀ order, order.Perm (p.lends st) →
    ∀ (vars : Variables) returnLine,
      vars.enterCall returnLine order = vars.enterCall returnLine (p.lends st)

theorem orderFree {p : Program} (h : p.repeatsParameters = false) : p.OrderFree := by
  intro line st _ order horder vars returnLine
  have hkeys : ((p.lends st).map (·.1.key)).Nodup := by
    unfold lends
    split
    · rename_i name args
      split
      · rename_i other params hsub
        obtain ⟨first, _, hparams⟩ := Option.bind_eq_some_iff.1 hsub
        exact (nodup_of_repeatsParameters h hparams).sublist (keys_lentTo_sublist _ _)
      · exact List.nodup_nil
    · exact List.nodup_nil
  have htable : aliasTable order = aliasTable (p.lends st) := aliasTable_perm horder hkeys
  unfold aliasTable at htable
  unfold Variables.enterCall
  rw [htable]

end Program

/-- What became of a step, without the message of an error. -/
def Outcome.unworded : Outcome → Outcome
  | .failed e => .failed e.unworded
  | outcome => outcome

/-! ## TRY blocks -/

namespace Session

theorem tryRegion_eq {f g : Frame} {t u : TryBlock} (hfirst : f.first = g.first)
    (hlast : f.last = g.last) (h : t.unworded = u.unworded) : tryRegion f t = tryRegion g u := by
  obtain ⟨hphase, hcatch, hfinally, _⟩ := TryBlock.unworded_eq_iff.1 h
  simp only [tryRegion, hphase, hcatch, hfinally, hfirst, hlast]

/-- Blocks that are alike go on at one line and stay alike. -/
theorem handler?_eq {t u : TryBlock} {e f : Error} (h : t.unworded = u.unworded)
    (he : e.unworded = f.unworded) :
    (handler? t e).map (fun r => (r.1, r.2.unworded)) =
      (handler? u f).map fun r => (r.1, r.2.unworded) := by
  obtain ⟨hphase, hcatch, hfinally, _⟩ := TryBlock.unworded_eq_iff.1 h
  obtain ⟨phase, catchLine, finallyLine, pending⟩ := t
  obtain ⟨phase', catchLine', finallyLine', pending'⟩ := u
  cases hphase
  cases hcatch
  cases hfinally
  cases phase <;> cases catchLine <;> cases finallyLine <;>
    simp [handler?, TryBlock.unworded, he]

/-- Without a variable on its line, a CATCH binds nothing. -/
theorem bindError_of_unnamed (s : Session) (hs : s.program.namesErrors = false)
    (line : Nat) (e : Error) : s.bindError line e = .ok s := by
  unfold Session.bindError
  split
  · rename_i name hst
    obtain ⟨l, hl, hst⟩ := Option.map_eq_some_iff.1 hst
    have hnames := List.any_eq_false.1 hs l (List.mem_of_getElem? hl)
    rw [hst] at hnames
    exact absurd rfl hnames
  · rfl

theorem resume_of_unnamed {s : Session} (hs : s.program.namesErrors = false) (place : Nat)
    (f : Frame) (line : Nat) (b : TryBlock) (e : Error) :
    s.resume place f line b e = (.onward, Session.goTo { s with
      memory := { s.memory with «variables» := s.memory.variables.cutTo f.depth }
      frames := (s.frames.truncate (place + 1)).modify place fun f => { f with state := .try b } }
      (line + 1)) := by
  have hbind : ∀ r : Session, r.program = s.program → r.bindError line e = .ok r :=
    fun r hr => r.bindError_of_unnamed (hr ▸ hs) line e
  unfold resume
  dsimp only
  rw [hbind, ite_self]
  rfl

/-! ## Sessions side by side -/

/-- The second session runs the program of the first in capitals and is where the
first is. -/
structure Echoes (timed : Bool) (s t : Session) : Prop where
  program : s.program.Echoes timed t.program
  state : s.toState.Alike timed t.toState
  stopped : s.stopped = t.stopped

/-- Two steps that came to the same. -/
def Matches (timed : Bool) (r r' : Outcome × Session) : Prop :=
  r.1.unworded = r'.1.unworded ∧ r.2.Echoes timed r'.2

variable {timed : Bool} {s t : Session}

namespace Echoes

theorem line (h : s.Echoes timed t) : s.line = t.line := h.state.memory.line

theorem depth (h : s.Echoes timed t) : s.depth = t.depth :=
  Variables.depth_eq h.state.memory.variables

theorem halt (h : s.Echoes timed t) : s.halt.Echoes timed t.halt := ⟨h.program, h.state, rfl⟩

theorem goTo (h : s.Echoes timed t) (line : Nat) : (s.goTo line).Echoes timed (t.goTo line) :=
  ⟨h.program, ⟨⟨h.state.memory.variables, h.state.memory.random, rfl, h.state.memory.keyboard⟩,
    h.state.frames, h.state.host⟩, h.stopped⟩

theorem withState (h : s.Echoes timed t) {u v : State} (huv : u.Alike timed v) :
    (s.withState u).Echoes timed (t.withState v) := ⟨h.program, huv, h.stopped⟩

/-- Calls are left and frames dropped on both sides. -/
theorem cut (h : s.Echoes timed t) {vars vars' : Variables} {fs gs : Frames}
    (hvars : vars.folded = vars'.folded) (hframes : fs.folded = gs.folded) :
    Echoes timed { s with memory := { s.memory with «variables» := vars }, frames := fs }
      { t with memory := { t.memory with «variables» := vars' }, frames := gs } :=
  ⟨h.program, ⟨⟨hvars, h.state.memory.random, h.state.memory.line, h.state.memory.keyboard⟩, hframes,
    h.state.host⟩, h.stopped⟩

theorem returnFromCall (h : s.Echoes timed t) :
    Matches timed s.returnFromCall t.returnFromCall := by
  have hleave : (s.memory.variables.leaveCall.1, s.memory.variables.leaveCall.2.folded) =
      (t.memory.variables.leaveCall.1, t.memory.variables.leaveCall.2.folded) := by
    rw [← Variables.leaveCall_folded, h.state.memory.variables, Variables.leaveCall_folded]
  obtain ⟨htarget, hvars⟩ := Prod.mk.inj hleave
  unfold Session.returnFromCall
  rw [h.depth]
  split
  · exact ⟨rfl, h.halt⟩
  · generalize s.memory.variables.leaveCall = r at htarget hvars
    generalize t.memory.variables.leaveCall = r' at htarget hvars
    obtain ⟨target, vars⟩ := r
    obtain ⟨target', vars'⟩ := r'
    dsimp only at htarget hvars ⊢
    subst htarget
    have hframes : (s.frames.unwind vars.depth).folded = (t.frames.unwind vars'.depth).folded := by
      rw [Frames.unwind_folded, Frames.unwind_folded, h.state.frames, Variables.depth_eq hvars]
    have hcut := h.cut hvars hframes
    cases target with
    | some line => exact ⟨rfl, hcut.goTo line⟩
    | none => exact ⟨rfl, hcut.halt⟩

theorem follow (h : s.Echoes timed t) (flow : Flow) :
    Matches timed (s.follow flow) (t.follow flow) := by
  cases flow with
  | next =>
    rw [Session.follow, Session.follow, h.line]
    exact ⟨rfl, h.goTo _⟩
  | jump line => exact ⟨rfl, h.goTo line⟩
  | «return» => exact h.returnFromCall
  | stop => exact ⟨rfl, h.halt⟩
  | rest delay =>
    rw [Session.follow, Session.follow, h.line]
    have hnext := h.goTo (t.line + 1)
    exact ⟨rfl, hnext.program, hnext.state, hnext.stopped⟩

/-! ## Recovery -/

theorem failedWithin (h : s.Echoes timed t) (depth low high : Nat) :
    s.failedWithin depth low high = t.failedWithin depth low high := by
  have hcall : s.memory.variables.callSite depth = t.memory.variables.callSite depth := by
    rw [← Variables.callSite_folded, h.state.memory.variables, Variables.callSite_folded]
  simp only [Session.failedWithin, lineSeenFrom, h.depth, h.line, hcall]

/-- Both sides go on after one line, in TRY blocks that are alike. -/
theorem resume (h : s.Echoes timed t) (hs : s.program.namesErrors = false)
    (ht : t.program.namesErrors = false) (place line : Nat) {f g : Frame} {b c : TryBlock}
    {e e' : Error} (hdepth : f.depth = g.depth) (hb : b.unworded = c.unworded) :
    Matches timed (s.resume place f line b e) (t.resume place g line c e') := by
  have hvars : (s.memory.variables.cutTo f.depth).folded =
      (t.memory.variables.cutTo g.depth).folded := by
    rw [Variables.cutTo_folded, Variables.cutTo_folded, h.state.memory.variables, hdepth]
  have hframes : Frames.folded ((s.frames.truncate (place + 1)).modify place
        fun f => { f with state := .try b }) =
      Frames.folded ((t.frames.truncate (place + 1)).modify place
        fun f => { f with state := .try c }) :=
    Run.modify_eq (Run.truncate_eq h.state.frames _) place (congrArg FrameState.try hb)
  have hcut := h.cut hvars hframes
  rw [resume_of_unnamed hs, resume_of_unnamed ht]
  exact ⟨rfl, hcut.goTo _⟩

theorem recoverFrom (h : s.Echoes timed t) (hs : s.program.namesErrors = false)
    (ht : t.program.namesErrors = false) {e e' : Error} (he : e.unworded = e'.unworded) (n : Nat) :
    Matches timed (s.recoverFrom e n) (t.recoverFrom e' n) := by
  induction n generalizing s t with
  | zero => exact ⟨congrArg Outcome.failed he, h.halt⟩
  | succ place ih =>
    have hnext := ih h hs ht
    have herase : Matches timed
        (Session.recoverFrom { s with frames := s.frames.erase place } e place)
        (Session.recoverFrom { t with frames := t.frames.erase place } e' place) := by
      refine ih ⟨h.program, ⟨h.state.memory, ?_, h.state.host⟩, h.stopped⟩ hs ht
      change Stack.mapItems _ _ = Stack.mapItems _ _
      rw [Stack.mapItems_erase, Stack.mapItems_erase]
      exact congrArg (Stack.erase · place) h.state.frames
    have hget := Run.get?_eq h.state.frames place
    rw [Session.recoverFrom, Session.recoverFrom]
    cases hf : s.frames.get? place <;> cases hg : t.frames.get? place <;> rw [hf, hg] at hget
    · exact hnext
    · cases hget
    · cases hget
    · rename_i f g
      obtain ⟨hfirst, hlast, hdepth, hstate⟩ := Frame.alike_iff.1 (Option.some.inj hget)
      dsimp only
      rcases FrameState.try_or_not hstate with ⟨b, c, hb, hc, hbc⟩ | ⟨hb, hc⟩
      · -- Two TRY blocks answer alike.
        rw [hb, hc]
        dsimp only
        rw [tryRegion_eq hfirst hlast hbc]
        split
        · exact hnext
        · rw [h.failedWithin, hdepth]
          split
          · have hhandler := handler?_eq hbc he
            cases hl : handler? b e <;> cases hr : handler? c e' <;> rw [hl, hr] at hhandler
            · exact hnext
            · cases hhandler
            · cases hhandler
            · obtain ⟨hline, hblock⟩ := Prod.mk.inj (Option.some.inj hhandler)
              dsimp only
              rw [hline]
              exact h.resume hs ht place _ hdepth hblock
          · exact herase
      · -- A frame of another kind is passed over.
        split
        · rename_i b hb'
          exact absurd hb' (hb b)
        · exact hnext

theorem recover (h : s.Echoes timed t) (hs : s.program.namesErrors = false)
    (ht : t.program.namesErrors = false) {e e' : Error} (he : e.unworded = e'.unworded) :
    Matches timed (s.recover e) (t.recover e') := by
  have hsize : s.frames.size = t.frames.size := by
    have hfolded := congrArg Stack.size h.state.frames
    rwa [Frames.folded, Frames.folded, Stack.mapItems_size, Stack.mapItems_size] at hfolded
  unfold Session.recover
  rw [Error.isStructural_eq he, hsize]
  split
  · exact ⟨congrArg Outcome.failed he, h.halt⟩
  · exact h.recoverFrom hs ht he _

/-! ## One step -/

/-- A step of the program in capitals does what the step of the program does. -/
theorem step (h : s.Echoes timed t) (hs : s.program.namesErrors = false)
    (ht : t.program.namesErrors = false) : Matches timed s.step t.step := by
  unfold Session.step
  rw [h.stopped, ← h.line, h.program.statement? s.line]
  split
  · exact ⟨rfl, h⟩
  · cases hst : s.program.statement? s.line with
    | none => exact ⟨rfl, h.halt⟩
    | some st =>
      have hpair := Run.follows_execute st (h.program.readsClock hst) s.program t.program s.toState
        t.toState h.program h.state
      dsimp only [Option.map_some]
      cases hx : Run.execute st s.program s.toState <;>
        cases hy : Run.execute st.folded t.program t.toState <;> rw [hx, hy] at hpair
      · obtain ⟨rfl, hstate⟩ := hpair
        exact (h.withState hstate).follow _
      · exact hpair.elim
      · exact hpair.elim
      · exact (h.withState hpair.2).recover hs ht (Error.inLine_eq hpair.1 s.line)

end Echoes

/-! ## Runs -/

/-- A session that is told the time and which keys are down. -/
def given (s : Session) (clock : Clock) (keyboard : Keyboard) : Session :=
  { s with memory := { s.memory with keyboard }, host := { s.host with clock } }

/-- The last outcome and the session after `n` steps. Before each step the outside
tells the time and which keys are down. -/
def course (times : Nat → Clock) (keys : Nat → Keyboard) (s : Session) : Nat → Outcome × Session
  | 0 => (.onward, s)
  | n + 1 => ((s.course times keys n).2.given (times n) (keys n)).step

theorem program_course (times : Nat → Clock) (keys : Nat → Keyboard) (s : Session) (n : Nat) :
    (s.course times keys n).2.program = s.program := by
  induction n with
  | zero => rfl
  | succ n ih => exact (program_step _).trans ih

theorem Echoes.given (h : s.Echoes timed t) {clock clock' : Clock}
    (hclock : timed = true → clock = clock') (keyboard : Keyboard) :
    (s.given clock keyboard).Echoes timed (t.given clock' keyboard) :=
  ⟨h.program, ⟨⟨h.state.memory.variables, h.state.memory.random, h.state.memory.line, rfl⟩,
    h.state.frames, ⟨h.state.host.screen, h.state.host.sound, h.state.host.files, h.state.host.views,
      hclock⟩⟩, h.stopped⟩

/-- A run of the program in capitals goes side by side with the run of the program. -/
theorem Echoes.course (h : s.Echoes timed t) (hs : s.program.namesErrors = false)
    (ht : t.program.namesErrors = false) {times times' : Nat → Clock}
    (hclock : timed = true → times = times') (keys : Nat → Keyboard) (n : Nat) :
    Matches timed (s.course times keys n) (t.course times' keys n) := by
  induction n with
  | zero => exact ⟨rfl, h⟩
  | succ n ih =>
    have hgiven := ih.2.given (fun ht => congrFun (hclock ht) n) (keys n)
    exact hgiven.step ((congrArg _ (program_course times keys s n)).trans hs)
      ((congrArg _ (program_course times' keys t n)).trans ht)

theorem echoes_start {p : Program} (hp : p.Indexed) (seed : UInt64) (host : Host) :
    (start p seed host).Echoes p.readsClock (start p.folded seed host) :=
  ⟨Program.echoes_folded hp id, ⟨⟨rfl, rfl, rfl, rfl⟩, rfl, ⟨rfl, rfl, rfl, rfl, fun _ => rfl⟩⟩, rfl⟩

/-! ## Two programs -/

/-- Sessions that are at the same line and in the same calls, with the same values
under every key and the same output. Their blocks are the same but for letter case
in the variable of a FOR loop and the message of an error that waits for the end
of a TRY block. -/
structure Alike (s t : Session) : Prop where
  line : s.line = t.line
  depth : s.depth = t.depth
  stopped : s.stopped = t.stopped
  frames : s.frames.items.map Frame.folded = t.frames.items.map Frame.folded
  globals : s.memory.variables.globals = t.memory.variables.globals
  locals : s.memory.variables.scopes.items.map (·.locals) =
    t.memory.variables.scopes.items.map (·.locals)
  screen : s.host.screen = t.host.screen
  sound : s.host.sound = t.host.sound
  files : s.host.files = t.host.files
  views : s.host.views = t.host.views

theorem Echoes.alike (h : s.Echoes timed t) : s.Alike t where
  line := h.line
  depth := h.depth
  stopped := h.stopped
  frames := congrArg Stack.items h.state.frames
  globals := by
    have hglobals := congrArg Variables.globals h.state.memory.variables
    exact hglobals
  locals := by
    have hscopes := congrArg (fun vars => vars.scopes.items.map (·.locals)) h.state.memory.variables
    simpa [Variables.folded, Scope.folded, Function.comp_def] using hscopes
  screen := h.state.host.screen
  sound := h.state.host.sound
  files := h.state.host.files
  views := h.state.host.views

theorem Alike.join {s t u : Session} (hs : s.Alike u) (ht : t.Alike u) : s.Alike t where
  line := hs.line.trans ht.line.symm
  depth := hs.depth.trans ht.depth.symm
  stopped := hs.stopped.trans ht.stopped.symm
  frames := hs.frames.trans ht.frames.symm
  globals := hs.globals.trans ht.globals.symm
  locals := hs.locals.trans ht.locals.symm
  screen := hs.screen.trans ht.screen.symm
  sound := hs.sound.trans ht.sound.symm
  files := hs.files.trans ht.files.symm
  views := hs.views.trans ht.views.symm

theorem indexed_of_made {p : Program} (h : p.Made) : p.Indexed := by
  induction h with
  | ofLines lines => exact Program.indexed_reindexed _
  | insert _ place line ih => exact ih.insert place line
  | delete _ place ih => exact ih.delete place
  | replace _ place line ih => exact ih.replace place line

/-- Two programs that differ only in the letter case of names, whose CATCH lines name no
variables and whose SUBs tell their parameters apart, run side by side: after each step
they have come to the same, but for the messages of errors. They may run at different
times if they never read the clock, and each call may enter its references in any order. -/
theorem letter_case_never_matters {p q : Program} (hp : p.Made) (hq : q.Made) (h : p.Alike q)
    (hnames : p.namesErrors = false) (hparams : p.repeatsParameters = false)
    {times times' : Nat → Clock} (hclock : p.readsClock = true → times = times')
    (keys : Nat → Keyboard) (seed : UInt64) (host : Host) (n : Nat) :
    let r := (start p seed host).course times keys n
    let r' := (start q seed host).course times' keys n
    (r.1.unworded = r'.1.unworded ∧ r.2.Alike r'.2) ∧ p.OrderFree ∧ q.OrderFree := by
  intro r r'
  -- Both runs go side by side with the run of the one program in capitals.
  have hfolded : p.folded = q.folded := congrArg Program.ofLines h
  have hreads : q.readsClock = p.readsClock := (h.any_eq Statement.readsClock_folded).symm
  have hqnames : q.namesErrors = false := (h.any_eq Statement.namesError_folded).symm.trans hnames
  have hqparams : q.repeatsParameters = false :=
    (h.any_eq Statement.repeatsParameter_folded).symm.trans hparams
  have hcapitals : p.folded.namesErrors = false :=
    (Program.any_folded Statement.namesError_folded p.lines).trans hnames
  have hleft := (echoes_start (indexed_of_made hp) seed host).course hnames hcapitals
    (fun _ => rfl : p.readsClock = true → times = times) keys n
  have hright := (echoes_start (indexed_of_made hq) seed host).course hqnames (hfolded ▸ hcapitals)
    (fun hq => (hclock (hreads ▸ hq)).symm) keys n
  rw [hfolded] at hleft
  exact ⟨⟨hleft.1.trans hright.1.symm, hleft.2.alike.join hright.2.alike⟩,
    Program.orderFree hparams, Program.orderFree hqparams⟩

/-- A loop that calls a subroutine by reference, in two spellings and at two times. -/
theorem letter_case_never_matters_in_a_loop :
    let p := Program.ofStatements [.for ⟨['i', '%']⟩ (.integer 1) (.integer 2) none,
      .call ⟨['A', 'd', 'd']⟩ [.variable ⟨['s', '%']⟩], .next (some ⟨['I', '%']⟩), .stop,
      .sub ⟨['a', 'd', 'd']⟩ [⟨⟨['n', '%']⟩, true⟩],
      .assign (.variable ⟨['N', '%']⟩) (.binary .add (.variable ⟨['n', '%']⟩) (.integer 1)), .endSub]
    let q := Program.ofStatements [.for ⟨['I', '%']⟩ (.integer 1) (.integer 2) none,
      .call ⟨['A', 'D', 'D']⟩ [.variable ⟨['S', '%']⟩], .next (some ⟨['i', '%']⟩), .stop,
      .sub ⟨['A', 'd', 'd']⟩ [⟨⟨['N', '%']⟩, true⟩],
      .assign (.variable ⟨['n', '%']⟩) (.binary .add (.variable ⟨['n', '%']⟩) (.integer 1)), .endSub]
    p.Alike q ∧ p.namesErrors = false ∧ p.repeatsParameters = false ∧ p.readsClock = false ∧
      ((start p 7 {}).course (fun _ => { instant := 1 }) (fun _ => {}) 4).2.Alike
        ((start q 7 {}).course (fun n => { instant := n }) (fun _ => {}) 4).2 := by
  intro p q
  have hp : p.Made := .ofLines _
  have hq : q.Made := .ofLines _
  have halike : p.Alike q := rfl
  have hnames : p.namesErrors = false := rfl
  have hparams : p.repeatsParameters = false := by decide
  have hreads : p.readsClock = false := rfl
  refine ⟨halike, hnames, hparams, hreads, ?_⟩
  exact (letter_case_never_matters hp hq halike hnames hparams
    (fun hr => Bool.noConfusion (hreads.symm.trans hr)) _ 7 {} 4).1.2

/-- The message of an error that waits for the end of its block quotes the member as
it is spelled. -/
theorem a_waiting_error_quotes_the_spelling :
    let p := Program.ofStatements [.try, .assign (.variable ⟨['x', '%']⟩)
      (.member (.variable ⟨['p']⟩) ⟨['F', 'o', 'o']⟩), .finally, .endTry]
    let q := Program.ofStatements [.try, .assign (.variable ⟨['x', '%']⟩)
      (.member (.variable ⟨['p']⟩) ⟨['F', 'O', 'O']⟩), .finally, .endTry]
    p.Alike q ∧ p.namesErrors = false ∧ p.repeatsParameters = false ∧ p.readsClock = false ∧
      ∃ b c : TryBlock,
        ((start p 7 {}).course (fun _ => {}) (fun _ => {}) 2).2.frames.items.map (·.state) =
          [.try b] ∧
        ((start q 7 {}).course (fun _ => {}) (fun _ => {}) 2).2.frames.items.map (·.state) =
          [.try c] ∧
        b ≠ c :=
  ⟨rfl, rfl, rfl, rfl,
    ⟨.finally, none, some 2, some ⟨.illegalFunctionCall, some 1, "No member Foo"⟩⟩,
    ⟨.finally, none, some 2, some ⟨.illegalFunctionCall, some 1, "No member FOO"⟩⟩,
    rfl, rfl, by decide⟩

end Session

end LineBasic
