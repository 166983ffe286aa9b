-- A call leaves its caller alone. Whatever a called routine does, by jumps,
-- loops, further calls or errors, the blocks of its caller stay as they were,
-- and a return finds them so and goes on after the call.
import LineBasic.Proofs.Recovery

namespace LineBasic

/-! ## Events -/

namespace Session

/-- One thing that can happen to a session: a step, a halt, a reset, or anything
that touches only the host and what the program waits for. -/
inductive Happens (s : Session) : Session → Prop where
  | step : Happens s s.step.2
  | halt : Happens s s.halt
  | reset : Happens s s.reset
  | outside (host : Host) (wakeAt : Option Nat) (interrupted : Bool) :
      Happens s { s with host, wakeAt, interrupted }

/-- A run from `s` on, all states of which satisfy `P`. -/
inductive Through (P : Session → Prop) (s : Session) : Session → Prop where
  | start (hp : P s) : Through P s s
  | next {t t' : Session} (h : Through P s t) (hn : Happens t t') (hp : P t') : Through P s t'

/-- Every state that a program can get to is reached one event at a time. -/
theorem Reachable.through {p : Program} {s : Session} (h : Reachable p s) :
    ∃ seed host, Through (fun _ => True) (Session.start p seed host) s := by
  refine h.induct (P := fun s => ∃ seed host,
    Through (fun _ => True) (Session.start p seed host) s) ?_ ?_ ?_ ?_ ?_
  · exact fun seed host => ⟨seed, host, .start trivial⟩
  · rintro s ⟨seed, host, hs⟩
    exact ⟨seed, host, hs.next .step trivial⟩
  · rintro s ⟨seed, host, hs⟩
    exact ⟨seed, host, hs.next .reset trivial⟩
  · rintro s ⟨seed, host, hs⟩
    exact ⟨seed, host, hs.next .halt trivial⟩
  · rintro s host wakeAt interrupted ⟨seed, host', hs⟩
    exact ⟨seed, host', hs.next (.outside host wakeAt interrupted) trivial⟩

end Session

/-! ## The blocks of the caller -/

/-- Leaving calls drops exactly the blocks of deeper ones. -/
theorem Frames.Sound.unwind_items {p : Program} {depth : Nat} {fs : Frames}
    (h : Frames.Sound p depth fs) (k : Nat) :
    (fs.unwind k).items = fs.items.filter (·.depth ≤ k) := by
  unfold Frames.unwind
  split
  · rename_i i hi
    obtain ⟨f, hf, ht, habove⟩ := lastPlace?_eq_some hi
    have hsplit := List.take_append_drop (i + 1) fs.items
    rw [Stack.truncate_items, ← congrArg (List.filter _) hsplit, List.filter_append,
      List.filter_eq_self.2, List.filter_eq_nil_iff.2, List.append_nil]
    · intro g hg
      simpa using habove g hg
    · intro g hg
      have hle := h.depth_le_of_mem_take hf hg
      simp only [decide_eq_true_eq] at ht ⊢
      omega
  · rename_i hi
    rw [Stack.truncate_items, List.take_zero, List.filter_eq_nil_iff.2]
    intro g hg
    simpa using lastPlace?_eq_none.1 hi g hg

/-- The stack consists of `outer`, which belongs to calls up to depth `d`, and of
blocks of deeper calls above it. -/
structure Frames.Above (outer : List Frame) (d : Nat) (fs : Frames) : Prop where
  low : ∀ f ∈ outer, f.depth ≤ d
  items : ∃ inner, fs.items = outer ++ inner ∧ ∀ f ∈ inner, d < f.depth

namespace Frames.Above

variable {outer : List Frame} {d i : Nat} {fs : Frames} {f : Frame}

/-- The outer blocks are those of the calls up to depth `d`. -/
theorem filter_eq (h : Frames.Above outer d fs) : fs.items.filter (·.depth ≤ d) = outer := by
  obtain ⟨inner, hi, hin⟩ := h.items
  rw [hi, List.filter_append, List.filter_eq_self.2, List.filter_eq_nil_iff.2, List.append_nil]
  · intro f hf
    simpa using hin f hf
  · intro f hf
    simpa using h.low f hf

/-- A block of a deeper call stands above the outer ones. -/
theorem length_le (h : Frames.Above outer d fs) (hf : fs.get? i = some f) (hd : d < f.depth) :
    outer.length ≤ i := by
  obtain ⟨inner, hi, _⟩ := h.items
  rcases Nat.lt_or_ge i outer.length with hlt | hge
  · have hget : outer[i]? = some f := by
      rw [← hf, Stack.get?, hi, List.getElem?_append_left hlt]
    have := h.low f (List.mem_of_getElem? hget)
    omega
  · exact hge

theorem truncate (h : Frames.Above outer d fs) {n : Nat} (hn : outer.length ≤ n) :
    Frames.Above outer d (fs.truncate n) := by
  obtain ⟨inner, hi, hin⟩ := h.items
  refine ⟨h.low, inner.take (n - outer.length), ?_, ?_⟩
  · rw [Stack.truncate_items, hi, List.take_append, List.take_of_length_le hn]
  · exact fun f hf => hin f (List.mem_of_mem_take hf)

theorem modify (h : Frames.Above outer d fs) (state : FrameState) (hi : outer.length ≤ i) :
    Frames.Above outer d (fs.modify i fun f => { f with state }) := by
  obtain ⟨inner, hinner, hin⟩ := h.items
  refine ⟨h.low, inner.modify (i - outer.length) fun f => { f with state }, ?_, ?_⟩
  · rw [Stack.modify_items, hinner]
    apply List.ext_getElem?
    intro j
    rw [List.getElem?_modify]
    rcases Nat.lt_or_ge j outer.length with hj | hj
    · have hij : i ≠ j := by omega
      simp [hij, List.getElem?_append_left hj]
    · have hij : i - outer.length = j - outer.length ↔ i = j := by omega
      simp [hij, List.getElem?_append_right hj, List.getElem?_modify]
  · intro g hg
    obtain ⟨j, hj⟩ := List.mem_iff_getElem?.1 hg
    rw [List.getElem?_modify] at hj
    obtain ⟨g', hg', rfl⟩ := Option.map_eq_some_iff.1 hj
    have := hin g' (List.mem_of_getElem? hg')
    split
    · exact this
    · exact this

theorem leave (h : Frames.Above outer d fs) (line : Nat) {depth : Nat} (hd : d < depth) :
    Frames.Above outer d (fs.leave line depth) := by
  cases hp : fs.place? line depth with
  | none => rwa [Frames.leave_of_none fs hp]
  | some i =>
    obtain ⟨f, hf, _, hdepth, _⟩ := fs.place?_eq_some hp
    rw [Frames.leave_of_some fs hp]
    exact h.truncate (h.length_le hf (hdepth ▸ hd))

theorem enter {gs : Frames} (h : Frames.Above outer d fs) (hd : d < f.depth) (he : fs.enter f = .ok gs) :
    Frames.Above outer d gs := by
  unfold Frames.enter at he
  obtain ⟨inner, hi, hin⟩ := (h.leave f.first hd).items
  obtain ⟨_, rfl⟩ := Stack.push_eq_ok _ he
  refine ⟨h.low, inner ++ [f], ?_, ?_⟩
  · dsimp only
    rw [hi, List.append_assoc]
  · intro g hg
    rcases List.mem_append.1 hg with hg | hg
    · exact hin g hg
    · rwa [List.mem_singleton.1 hg]

/-- Leaving deeper calls leaves the outer blocks where they are. -/
theorem unwind {p : Program} {depth k : Nat} (h : Frames.Above outer d fs)
    (hs : Frames.Sound p depth fs) (hk : d ≤ k) : Frames.Above outer d (fs.unwind k) := by
  obtain ⟨inner, hi, hin⟩ := h.items
  refine ⟨h.low, inner.filter (·.depth ≤ k), ?_, fun f hf => hin f (List.mem_filter.1 hf).1⟩
  rw [hs.unwind_items, hi, List.filter_append, List.filter_eq_self.2]
  intro f hf
  have := h.low f hf
  simp only [decide_eq_true_eq]
  omega

end Frames.Above

/-! ## Inside a call -/

/-- The program is in a call that was made from line `l` at depth `d`, where the
blocks were `outer`, or in a deeper one. -/
structure Control.Inside (outer : List Frame) (d l : Nat) (c : Control) : Prop where
  deeper : d < c.depth
  frames : Frames.Above outer d c.frames
  call : c.calls.items[d]? = some (some (l + 1))

section Step

variable {p : Program} {c c' : Control} {st : Statement} {outer : List Frame} {d l : Nat}

theorem Control.InBlock.depth_eq {first i : Nat} {f : Frame} (hb : c.InBlock p st first i f) :
    f.depth = c.depth := by
  obtain ⟨g, hg, _, hd, _⟩ := c.frames.place?_eq_some hb.place
  cases hb.frame.symm.trans hg
  exact hd

/-- The block that EXIT or CONTINUE acts on is one of the innermost call. -/
theorem Control.target_depth {kind : BlockKind} {name : Option Name} {i : Nat} {f : Frame}
    (ht : c.frames.lastPlace? (Run.isTarget kind name c.depth) = some i)
    (hf : c.frames.get? i = some f) : f.depth = c.depth := by
  obtain ⟨g, hg, htest, _⟩ := lastPlace?_eq_some ht
  cases hf.symm.trans hg
  simp only [Run.isTarget, Bool.and_eq_true, decide_eq_true_eq] at htest
  exact htest.1.1

namespace Control.Inside

theorem withFrames {fs : Frames} (h : c.Inside outer d l) (hf : Frames.Above outer d fs) :
    Inside outer d l { c with frames := fs } :=
  ⟨h.deeper, hf, h.call⟩

theorem goTo (h : c.Inside outer d l) (line : Nat) : Inside outer d l { c with line } :=
  ⟨h.deeper, h.frames, h.call⟩

/-- A further call is inside too. -/
theorem called {calls : Stack (Option Nat)} {o : Option Nat} (h : c.Inside outer d l)
    (hc : c.calls.push o = .ok calls) : Inside outer d l { c with calls } := by
  obtain ⟨_, rfl⟩ := Stack.push_eq_ok _ hc
  have hlt := h.deeper
  refine ⟨?_, h.frames, ?_⟩
  · simp only [depth, Stack.size, List.length_append, List.length_singleton] at hlt ⊢
    omega
  · rw [← h.call]
    exact List.getElem?_append_left hlt

/-- Calls may be left as long as this one is not. -/
theorem cut {fs : Frames} {n : Nat} (h : c.Inside outer d l) (hn : d < n) (hle : n ≤ c.depth)
    (hf : Frames.Above outer d fs) :
    Inside outer d l { c with frames := fs, calls := c.calls.truncate n } := by
  refine ⟨?_, hf, ?_⟩
  · simp only [depth, Stack.size, Stack.truncate_items, List.length_take] at hle ⊢
    omega
  · rw [← h.call]
    exact List.getElem?_take_of_lt hn

end Control.Inside

/-- A move acts on no block of an outer call. -/
theorem Moves.inside {flow : Flow} (hm : Moves p c st flow c') (h : c.Inside outer d l) :
    c'.Inside outer d l := by
  have hb : ∀ {st' first i f}, c.InBlock p st' first i f → outer.length ≤ i :=
    fun hb => h.frames.length_le hb.frame (hb.depth_eq ▸ h.deeper)
  cases hm with
  | onward _ _ | «return» _ | stop | goto _ | passSub _ | skipped _ _ _ _ | clause _ _ _
  | finallyAlone _ | closedNothing _ _ => exact h
  | gosub _ hc => exact h.called hc
  | call _ _ hc hf =>
    have hcalled := h.called hc
    exact hcalled.withFrames (h.frames.enter hcalled.deeper hf)
  | opened _ _ _ hf _ => exact h.withFrames (h.frames.enter h.deeper hf)
  | passed _ _ => exact h.withFrames (h.frames.leave _ h.deeper)
  | closed _ _ => exact h.withFrames (h.frames.leave _ h.deeper)
  | tookClause _ hblock _ _ => exact h.withFrames (h.frames.modify _ (hb hblock))
  | again _ hblock _ =>
    have hi := hb hblock
    exact h.withFrames ((h.frames.truncate (by omega)).modify _ hi)
  | left _ hblock => exact h.withFrames (h.frames.truncate (hb hblock))
  | exit ht hf _ =>
    have hd := Control.target_depth ht hf
    exact h.withFrames (h.frames.truncate (h.frames.length_le hf (hd ▸ h.deeper)))
  | toLast _ ht hf =>
    have hd := Control.target_depth ht hf
    have hi := h.frames.length_le hf (hd ▸ h.deeper)
    exact h.withFrames (h.frames.truncate (by omega))

theorem Fails.inside {e : Error} (hf : Fails p c st e c') (hs : c.Sound p)
    (h : c.Inside outer d l) : c'.Inside outer d l := by
  cases hf with
  | mild _ | emptyPath _ _ | unclosed _ _ _ | unopened _ _ _ | clauseUnclosed _ _ _ _ _
  | unentered _ _ _ _ | otherLoop _ _ _ _ | noLabel _ _ _ | noSub _ _ | subUnclosed _ _ _ => exact h
  | mildInLoop _ _ hb =>
    have hi := h.frames.length_le hb.frame (hb.depth_eq ▸ h.deeper)
    exact h.withFrames (h.frames.truncate (by omega))
  | mildInCall _ hc => exact h.called hc
  | raised _ _ _ _ => exact h.withFrames (h.frames.leave _ h.deeper)
  | mismatch hb hk => exact absurd (hb.kind_eq hs) hk

/-- Seen from a call that was just made, all blocks are the caller's. -/
theorem Control.Sound.entered {calls : Stack (Option Nat)} (hs : c.Sound p)
    (hc : c.calls.push (some (c.line + 1)) = .ok calls) :
    Control.Inside c.frames.items c.depth c.line { c with calls } := by
  obtain ⟨_, rfl⟩ := Stack.push_eq_ok _ hc
  refine ⟨?_, ⟨hs.frames.within, [], (List.append_nil _).symm, fun f hf => by cases hf⟩, ?_⟩
  · simp [Control.depth, Stack.size]
  · exact List.getElem?_concat_length

/-- A move that makes a call jumps into it and leaves the caller's blocks as they are. -/
theorem Moves.enters {flow : Flow} (hm : Moves p c st flow c') (hs : c.Sound p)
    (hd : c.depth < c'.depth) :
    c'.Inside c.frames.items c.depth c.line ∧ ∃ target, flow = .jump target := by
  cases hm with
  | gosub _ hc => exact ⟨hs.entered hc, _, rfl⟩
  | call _ _ hc hf =>
    have hin := hs.entered hc
    exact ⟨hin.withFrames (hin.frames.enter hin.deeper hf), _, rfl⟩
  | _ => exact absurd hd (Nat.lt_irrefl _)

end Step

namespace Session

variable {p : Program} {s t : Session} {outer : List Frame} {d l : Nat}

theorem Happens.regular (hp : p.Made) (h : Happens s t) (hs : s.Regular p) : t.Regular p := by
  cases h with
  | step => exact hs.step hp
  | halt => exact ⟨hs.program, hs.sound, hs.called⟩
  | reset => exact hs.reset
  | outside host wakeAt interrupted => exact ⟨hs.program, hs.sound, hs.called⟩

theorem Through.regular {P : Session → Prop} (hp : p.Made) (h : Through P s t)
    (hs : s.Regular p) : t.Regular p := by
  induction h with
  | start _ => exact hs
  | next _ hn _ ih => exact hn.regular hp ih

/-! ## Returns -/

/-- A return inside a call goes on at the line that the innermost call noted. -/
theorem returnFromCall_inside (hs : s.Regular p) (h : s.control.Inside outer d l) :
    ∃ line t, s.returnFromCall = (.onward, t) ∧
      s.control.calls.items[s.control.depth - 1]? = some (some (line + 1)) ∧
      t.control = ⟨line + 1, s.control.frames.unwind (s.control.depth - 1),
        s.control.calls.truncate (s.control.depth - 1)⟩ := by
  have hlt : s.control.depth - 1 < s.control.calls.items.length := by
    have := h.deeper
    unfold Control.depth Stack.size at *
    omega
  have htop : s.control.calls.top? = s.control.calls.items[s.control.depth - 1]? :=
    List.getLast?_eq_getElem?
  have hget := List.getElem?_eq_getElem hlt
  obtain ⟨line, hline⟩ := hs.called _ (List.mem_of_getElem? hget)
  rw [hline] at hget
  have hpop : s.control.calls.pop = s.control.calls.truncate (s.control.depth - 1) :=
    Stack.eq_of_items rfl rfl List.dropLast_eq_take
  rcases s.returnFromCall_cases with ⟨t, _, hnone, _⟩ | ⟨line', t, hr, _, _, hsome, ht⟩
  · rw [htop, hget] at hnone
    cases hnone
  · rw [htop, hget] at hsome
    cases hsome
    exact ⟨line, t, hr, hget, hpop ▸ ht⟩

/-- A return that leaves the call goes on after the line that made it, with the
blocks that were there. -/
theorem returnFromCall_leaves (hs : s.Regular p) (h : s.control.Inside outer d l)
    (hd : s.returnFromCall.2.depth = d) :
    s.returnFromCall.2.line = l + 1 ∧ s.returnFromCall.2.frames.items = outer := by
  obtain ⟨line, t, hr, hget, ht⟩ := returnFromCall_inside hs h
  rw [hr] at hd ⊢
  have hdepth : s.control.depth - 1 = d := by
    rw [depth, State.depth_control, ht, Control.depth, Stack.size, Stack.truncate_items,
      List.length_take] at hd
    unfold Control.depth Stack.size at *
    omega
  rw [hdepth] at hget ht
  cases h.call.symm.trans hget
  refine ⟨congrArg Control.line ht, ?_⟩
  change t.control.frames.items = outer
  rw [ht]
  exact (hs.sound.frames.unwind_items d).trans h.frames.filter_eq

/-! ## One step -/

theorem follow_inside {flow : Flow} (hs : s.Regular p) (h : s.control.Inside outer d l)
    (hd : d < (s.follow flow).2.depth) : (s.follow flow).2.control.Inside outer d l := by
  cases flow with
  | next => exact h.goTo _
  | jump target => exact h.goTo _
  | rest delay => exact h.goTo _
  | stop => exact h
  | «return» =>
    obtain ⟨line, t, hr, _, ht⟩ := returnFromCall_inside hs h
    simp only [follow, hr] at hd ⊢
    rw [depth, State.depth_control, ht, Control.depth, Stack.size, Stack.truncate_items,
      List.length_take] at hd
    have hlt : d < s.control.depth - 1 := by omega
    rw [ht]
    exact (h.cut hlt (by omega) (h.frames.unwind hs.sound.frames (by omega))).goTo _

theorem recover_inside {e : Error} (hs : s.control.Sound p) (h : s.control.Inside outer d l)
    (hrun : (s.recover e).2.stopped = false) (hd : d < (s.recover e).2.depth) :
    (s.recover e).2.control.Inside outer d l := by
  rcases s.recover_cases e with ⟨_, hr⟩ | ⟨_, hr⟩
  · rw [hr] at hrun
    cases hrun
  · generalize s.recover e = r at hr hrun hd
    cases hr with
    | failed _ _ _ _ => cases hrun
    | @resumed i line f t _ ht =>
      obtain ⟨u, _, _, hu, hres | ⟨e', _, hres⟩⟩ := s.resume_cases i f line t e
      · have hle := hs.frames.within f (List.mem_of_getElem? ht.frame)
        rw [hres] at hd ⊢
        rw [depth, State.depth_control, control_goTo, hu] at hd
        have hlt : d < f.depth := by
          rw [← Control.depth_resumed i t hle]
          exact hd
        have hi := h.frames.length_le ht.frame hlt
        rw [control_goTo, hu]
        exact (h.cut hlt hle ((h.frames.truncate (by omega)).modify _ hi)).goTo _
      · rw [hres] at hrun
        cases hrun

theorem Regular.moved {st : Statement} {flow : Flow} {t : State} (hp : p.Made) (h : s.Regular p)
    (hst : s.program.statement? s.line = some st)
    (hm : Moves s.program s.control st flow t.control) : (s.withState t).Regular p := by
  obtain ⟨rfl, hsound, hcalled⟩ := h
  exact ⟨rfl, (hm.sound hp.labelsWithin hst hsound).1, hcalled.of_calls_eq hm.calls_eq⟩

/-- A step inside a call that neither leaves it nor ends the program stays inside. -/
theorem step_inside (hp : p.Made) (hs : s.Regular p)
    (h : s.stopped = false → s.control.Inside outer d l)
    (hrun : s.step.2.stopped = false) (hd : d < s.step.2.depth) :
    s.step.2.control.Inside outer d l := by
  have hstep := s.step_steps
  generalize s.step = r at hstep hrun hd
  cases hstep with
  | idle _ => exact h hrun
  | pastEnd _ => cases hrun
  | moved hr hst hm => exact follow_inside (hs.moved hp hst hm) (hm.inside (h hr)) hd
  | failed hr hst hf =>
    have hsound := hs.sound
    rw [← hs.program] at hsound
    exact recover_inside (hf.sound hst hsound).1 (hf.inside hsound (h hr)) hrun hd

/-- Nothing that happens, short of leaving the call, touches the caller's blocks. -/
theorem Through.inside (hp : p.Made) (h : Through (d < ·.depth) s t) (hs : s.Regular p)
    (hin : s.stopped = false → s.control.Inside outer d l) :
    t.stopped = false → t.control.Inside outer d l := by
  induction h with
  | start _ => exact hin
  | next h hn hd ih =>
    have hr := h.regular hp hs
    intro hrun
    cases hn with
    | step => exact step_inside hp hr ih hrun hd
    | halt => cases hrun
    | reset => cases hd
    | outside host wakeAt interrupted => exact ih hrun

/-! ## The call itself -/

theorem depth_follow_le (s : Session) (flow : Flow) : (s.follow flow).2.depth ≤ s.depth := by
  cases flow with
  | «return» =>
    have hcut : ∀ c : Control, c.calls = s.control.calls.pop → c.depth ≤ s.control.depth := by
      intro c hc
      simp [Control.depth, hc, Stack.size, Stack.pop]
    rcases s.returnFromCall_cases with ⟨t, hr, _, _, rfl | ht⟩ | ⟨l, t, hr, _, _, _, ht⟩
    · simp only [follow, hr]
      exact Nat.le_refl _
    · simp only [follow, hr, depth, State.depth_control]
      exact hcut _ (congrArg Control.calls ht)
    · simp only [follow, hr, depth, State.depth_control]
      exact hcut _ (congrArg Control.calls ht)
  | next | jump _ | stop | rest _ => exact Nat.le_refl _

/-- A step that makes a call is a call from the current line, and the blocks of the
caller are those that were there. -/
theorem step_enters (hp : p.Made) (hs : s.Regular p) (hd : s.depth < s.step.2.depth)
    (hrun : s.step.2.stopped = false) :
    s.step.2.control.Inside s.frames.items s.depth s.line := by
  obtain ⟨rfl, hsound, _⟩ := hs
  have hstep := s.step_steps
  generalize s.step = r at hstep hrun hd
  cases hstep with
  | idle _ => exact absurd hd (Nat.lt_irrefl _)
  | pastEnd _ => cases hrun
  | @moved st flow t hr hst hm =>
    have hlt : s.control.depth < t.control.depth := by
      have hle := depth_follow_le (s.withState t) flow
      simp only [depth, State.depth_control] at hd hle
      exact Nat.lt_of_lt_of_le hd hle
    obtain ⟨hin, target, rfl⟩ := hm.enters hsound hlt
    rw [depth, State.depth_control]
    exact hin.goTo _
  | @failed st e t hr hst hf =>
    -- A block that takes the error is one of the caller's.
    have hlower := hf.isPrefix_frames hsound
    rcases (s.withState t).recover_cases (e.inLine s.line) with ⟨_, hrec⟩ | ⟨_, hrec⟩
    · rw [hrec] at hrun
      cases hrun
    · generalize (s.withState t).recover (e.inLine s.line) = r at hrec hrun hd
      cases hrec with
      | failed _ _ _ _ => cases hrun
      | @resumed i line f b _ ht =>
        obtain ⟨u, _, _, hu, hres | ⟨e', _, hres⟩⟩ := (s.withState t).resume_cases i f line b _
        · have hmem := hlower.subset (List.mem_of_getElem? ht.frame)
          have hle := hsound.frames.within f hmem
          rw [hres, depth, depth, State.depth_control, State.depth_control, control_goTo, hu] at hd
          simp only [Control.depth, Control.resumed, Stack.size, Stack.truncate_items,
            List.length_take] at hd hle
          omega
        · rw [hres] at hrun
          cases hrun

/-- From the step that makes a call on, as long as the program is in the call or in
a deeper one, the blocks of the caller are just those that were there before the
call. A return or an END SUB that leaves the call goes on after the line that made
it, with the stack of blocks as it was. -/
theorem a_call_leaves_its_caller_alone (hp : p.Made) (hs : Reachable p s)
    (hd : s.step.2.depth = s.depth + 1) (ht : Through (s.depth < ·.depth) s.step.2 t)
    (hrun : t.stopped = false) :
    t.frames.items.filter (·.depth ≤ s.depth) = s.frames.items ∧
    ∀ st, t.program.statement? t.line = some st → st = .return ∨ st = .endSub →
      t.step.2.depth = s.depth →
        t.step.2.line = s.line + 1 ∧ t.step.2.frames.items = s.frames.items := by
  have hr := reachable_regular hp hs
  have hin := ht.inside hp (hr.step hp) (step_enters hp hr (by omega)) hrun
  refine ⟨hin.frames.filter_eq, fun st hst hreturn hback => ?_⟩
  have hstep : t.step = t.returnFromCall := by
    unfold step
    rcases hreturn with rfl | rfl
    · simp only [hrun, hst, Bool.false_eq_true, if_false]
      rfl
    · simp only [hrun, hst, Bool.false_eq_true, if_false]
      rfl
  rw [hstep] at hback ⊢
  exact returnFromCall_leaves (ht.regular hp (hr.step hp)) hin hback

theorem a_return_finds_the_try_block_of_its_caller :
    let p := Program.ofLines [⟨0, .try⟩, ⟨1, .gosub ⟨['L']⟩⟩, ⟨0, .finally⟩, ⟨0, .endTry⟩, ⟨0, .stop⟩,
      ⟨0, .label ⟨['l']⟩⟩, ⟨0, .return⟩]
    let s := (Session.start p 7 {}).step.2
    let t := s.step.2.step.2
    s.depth = 0 ∧ t.depth = 1 ∧ t.step.2.line = s.line + 1 ∧
      t.step.2.frames.items = s.frames.items := by
  intro p s t
  have hd : s.step.2.depth = s.depth + 1 := by decide +kernel
  have ht : Through (s.depth < ·.depth) s.step.2 t :=
    .next (.start (by decide +kernel)) .step (by decide +kernel)
  have hreturn := (a_call_leaves_its_caller_alone (.ofLines _) (.step (.start 7 {})) hd ht
    (by decide +kernel)).2 .return
  exact ⟨by decide +kernel, by decide +kernel, hreturn rfl (Or.inl rfl) (by decide +kernel)⟩

end Session

end LineBasic
